import Chronicle.Frame
import Chronicle.Proofs.Body
import Chronicle.Proofs.Outcome
import Mathlib.Tactic.SplitIfs

-- A frame is opened to the body that it was packed from. The header alone tells
-- where the body ends, so this holds with any digest that is long enough.

namespace Chronicle

theorem Wire.Sha256.length_digest (bytes : Bytes) : (digest bytes).length = 32 := by
  simp [digest, Bytes.length_bigEndian]

namespace Frame

theorem length_digest (body : Bytes) : (digest body).length = digestLength := by
  simp [digest, Wire.Sha256.length_digest, digestLength]

theorem header_eq (length : Nat) :
    header length = magic ++ (format :: Bytes.littleEndian 4 length) := by
  simp [header]

theorem length_header (length : Nat) : (header length).length = headerLength := by
  simp [header, magic, headerLength, Bytes.length_littleEndian]

section Cut

-- What the header of a frame makes of the bytes behind it: a body, and what is to
-- be the digest of it.
def cut (bytes : Bytes) : Except Corruption (Bytes × Bytes) :=
  let total := bytes.length
  if total < headerLength + digestLength then .error (.tooShort total)
  else if bytes.take 4 ≠ magic then .error .badMagic
  else if (bytes.drop 4).take 1 ≠ [format] then
    .error (.unknownFormat ((bytes.drop 4).headD 0))
  else
    let length := Bytes.ofLittleEndian ((bytes.drop 5).take 4)
    if maxBody < length then .error (.bodyTooLong length)
    else if total - headerLength ≠ length + digestLength then
      .error (.lengthMismatch length (total - headerLength - digestLength))
    else .ok ((bytes.drop headerLength).splitAt length)

variable {bytes body trailer : Bytes}

theorem cut_append (hlength : body.length ≤ maxBody) (htrailer : trailer.length = digestLength) :
    cut (header body.length ++ (body ++ trailer)) = .ok (body, trailer) := by
  have hfield : Bytes.ofLittleEndian (Bytes.littleEndian 4 body.length) = body.length :=
    Bytes.ofLittleEndian_littleEndian_of_lt 4 (Nat.lt_of_le_of_lt hlength (by decide))
  have htotal : (header body.length ++ (body ++ trailer)).length =
      headerLength + (body.length + digestLength) := by
    rw [List.length_append, List.length_append, length_header, htrailer]
  have hlong : ¬ headerLength + (body.length + digestLength) < headerLength + digestLength := by
    omega
  have hmatch : ¬ headerLength + (body.length + digestLength) - headerLength ≠
      body.length + digestLength := by omega
  have hmagic : (header body.length ++ (body ++ trailer)).take 4 = magic := by
    simp [header_eq, magic]
  have hformat : ((header body.length ++ (body ++ trailer)).drop 4).take 1 = [format] := by
    simp [header_eq, magic]
  have hcount : ((header body.length ++ (body ++ trailer)).drop 5).take 4 =
      Bytes.littleEndian 4 body.length := by
    simp [header_eq, magic, Bytes.length_littleEndian]
  have hrest : (header body.length ++ (body ++ trailer)).drop headerLength = body ++ trailer :=
    List.drop_left' (length_header _)
  rw [cut]
  simp only [htotal, hlong, hmagic, hformat, hcount, hfield, hrest, hmatch, Nat.not_lt.mpr hlength,
    if_false, ne_eq, not_true, List.splitAt_eq, List.take_left', List.drop_left']

theorem eq_header_append_of_cut (h : cut bytes = .ok (body, trailer)) :
    bytes = header body.length ++ (body ++ trailer) ∧ body.length ≤ maxBody ∧
      trailer.length = digestLength := by
  unfold cut at h
  dsimp only at h
  split_ifs at h with hlong hmagic hformat hlength htotal
  rw [Decidable.not_not] at hmagic hformat htotal
  generalize hcount : (bytes.drop 5).take 4 = count at *
  have hfour : count.length = 4 := by
    rw [← hcount, List.length_take, List.length_drop]
    simp only [headerLength, digestLength] at hlong
    omega
  have hwritten : Bytes.littleEndian 4 (Bytes.ofLittleEndian count) = count := by
    rw [← hfour, Bytes.littleEndian_ofLittleEndian]
  rw [List.splitAt_eq] at h
  cases h
  have hbody : ((bytes.drop headerLength).take (Bytes.ofLittleEndian count)).length =
      Bytes.ofLittleEndian count := by
    rw [List.length_take, List.length_drop]
    omega
  refine ⟨?_, ?_, ?_⟩
  · calc bytes
        = bytes.take 4 ++ ((bytes.drop 4).take 1 ++ ((bytes.drop 5).take 4 ++ bytes.drop 9)) := by
          have hlast := List.take_append_drop 4 (bytes.drop 5)
          have hformat := List.take_append_drop 1 (bytes.drop 4)
          rw [List.drop_drop] at hlast hformat
          rw [hlast, hformat, List.take_append_drop]
      _ = header _ ++ _ := by
          rw [header_eq, hbody, List.take_append_drop, hwritten, hmagic, hformat, hcount]
          rfl
  · rw [hbody]
    omega
  · rw [List.length_drop, List.length_drop]
    omega

-- One body and one digest make a frame, and a frame has one of each.
theorem cut_eq_ok :
    cut bytes = .ok (body, trailer) ↔ bytes = header body.length ++ (body ++ trailer) ∧
      body.length ≤ maxBody ∧ trailer.length = digestLength := by
  constructor
  · exact eq_header_append_of_cut
  · rintro ⟨rfl, hlength, htrailer⟩
    exact cut_append hlength htrailer

end Cut

-- A digest as long as frames have room for.
structure Digest where
  of : Bytes → Bytes
  length_of : ∀ body, (of body).length = digestLength

-- The digest of the frames that are stored.
def Digest.stored : Digest := ⟨digest, length_digest⟩

def wrapWith (hash : Digest) (body : Bytes) : Bytes :=
  header body.length ++ (body ++ hash.of body)

def unwrapWith (hash : Digest) (bytes : Bytes) : Except Corruption Bytes := do
  let (body, trailer) ← cut bytes
  if trailer ≠ hash.of body then .error .digestMismatch else .ok body

theorem unwrapWith_eq_ok {hash : Digest} {bytes body : Bytes} :
    unwrapWith hash bytes = .ok body ↔ bytes = wrapWith hash body ∧ body.length ≤ maxBody := by
  rw [unwrapWith, bind_eq_ok]
  constructor
  · rintro ⟨⟨found, trailer⟩, hcut, h⟩
    obtain ⟨hbytes, hlength, _⟩ := cut_eq_ok.mp hcut
    dsimp only at h
    split_ifs at h with htrailer
    cases h
    rw [Decidable.not_not] at htrailer
    rw [htrailer] at hbytes
    exact ⟨hbytes, hlength⟩
  · rintro ⟨hbytes, hlength⟩
    refine ⟨(body, hash.of body), cut_eq_ok.mpr ⟨hbytes, hlength, hash.length_of body⟩, ?_⟩
    simp

theorem unwrapWith_stored (bytes : Bytes) : unwrapWith .stored bytes = unwrap bytes := by
  unfold unwrapWith cut unwrap
  dsimp only
  split_ifs <;> simp_all [Digest.stored]

theorem wrap_eq (body : Bytes) : wrap body = wrapWith .stored body := List.append_assoc _ _ _

theorem length_wrap (body : Bytes) :
    (wrap body).length = headerLength + (body.length + digestLength) := by
  rw [wrap_eq, wrapWith, List.length_append, List.length_append, length_header,
    Digest.length_of]

theorem unwrap_eq_ok {bytes body : Bytes} :
    unwrap bytes = .ok body ↔ bytes = wrap body ∧ body.length ≤ maxBody := by
  rw [← unwrapWith_stored, unwrapWith_eq_ok, wrap_eq]

theorem unwrap_wrap {body : Bytes} (hlength : body.length ≤ maxBody) :
    unwrap (wrap body) = .ok body :=
  unwrap_eq_ok.mpr ⟨rfl, hlength⟩

theorem unpack_wrap {body : Body} (hlength : body.encode.length ≤ maxBody) :
    unpack (wrap body.encode) = .ok body := by
  have hread : Body.decode? body.encode = some body :=
    Body.decode?_encode (Nat.lt_of_le_of_lt hlength (by decide))
  simp [unpack, unwrap_wrap hlength, hread]

end Frame

end Chronicle
