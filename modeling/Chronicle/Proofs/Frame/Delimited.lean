import Chronicle.Proofs.Frame

-- The bytes that are frames, with the stored digest or with any other one: a frame
-- says how long it is, so it is no part of another frame, and its body alone makes
-- it what it is.

namespace Chronicle.Frame

-- The content of a frame that carries such a digest.
def unpackWith (hash : Digest) (bytes : Bytes) : Except Corruption Body := do
  match Body.decode? (← unwrapWith hash bytes) with
  | some content => .ok content
  | none => .error .badMessage

theorem unpackWith_stored (bytes : Bytes) : unpackWith .stored bytes = unpack bytes := by
  rw [unpackWith, unwrapWith_stored]
  rfl

-- Four letters, the number 1, the length with its low byte first, a body that is
-- not too long, and its digest. The body reads as the content.
def IsFrame (hash : Digest) (bytes : Bytes) (content : Body) : Prop :=
  ∃ body : Bytes,
    bytes = Bytes.ofText "TDMK" ++ [1] ++ Bytes.littleEndian 4 body.length ++ body ++
      hash.of body ∧
    body.length ≤ 16 * 1024 * 1024 ∧ Body.decode? body = some content

variable {hash : Digest} {bytes other : Bytes} {content : Body}

theorem wrapWith_eq (hash : Digest) (body : Bytes) :
    wrapWith hash body =
      Bytes.ofText "TDMK" ++ [1] ++ Bytes.littleEndian 4 body.length ++ body ++ hash.of body := by
  have hmagic : Bytes.ofText "TDMK" = magic := rfl
  simp only [wrapWith, header, format, hmagic, List.append_assoc]

theorem length_wrapWith (hash : Digest) (body : Bytes) :
    (wrapWith hash body).length = headerLength + (body.length + digestLength) := by
  rw [wrapWith, List.length_append, List.length_append, length_header, Digest.length_of]

theorem isFrame_iff :
    IsFrame hash bytes content ↔ ∃ body, bytes = wrapWith hash body ∧
      body.length ≤ maxBody ∧ Body.decode? body = some content := by
  have hlimit : 16 * 1024 * 1024 = maxBody := rfl
  simp only [IsFrame, wrapWith_eq, hlimit]

theorem unpackWith_eq_ok : unpackWith hash bytes = .ok content ↔ IsFrame hash bytes content := by
  rw [isFrame_iff, unpackWith, bind_eq_ok]
  constructor
  · rintro ⟨body, hunwrap, hread⟩
    obtain ⟨hbytes, hlength⟩ := unwrapWith_eq_ok.mp hunwrap
    refine ⟨body, hbytes, hlength, ?_⟩
    cases hdecode : Body.decode? body with
    | none => simp [hdecode] at hread
    | some found => simpa [hdecode] using hread
  · rintro ⟨body, hbytes, hlength, hdecode⟩
    refine ⟨body, unwrapWith_eq_ok.mpr ⟨hbytes, hlength⟩, ?_⟩
    rw [hdecode]

section Whole

variable {body body' : Bytes}

theorem header_injective {length length' : Nat} (hlength : length ≤ maxBody)
    (hlength' : length' ≤ maxBody) (h : header length = header length') : length = length' := by
  have hbound : maxBody < Nat.pow 256 4 := by decide
  rw [header_eq, header_eq, List.append_cancel_left_eq, List.cons.injEq] at h
  have hread := congrArg Bytes.ofLittleEndian h.2
  rwa [Bytes.ofLittleEndian_littleEndian_of_lt 4 (by omega),
    Bytes.ofLittleEndian_littleEndian_of_lt 4 (by omega)] at hread

-- The headers are the same, so the bodies are equally long and nothing is left to
-- come behind.
theorem wrapWith_eq_of_begins (hlength : body.length ≤ maxBody) (hlength' : body'.length ≤ maxBody)
    (h : wrapWith hash body <+: wrapWith hash body') :
    wrapWith hash body = wrapWith hash body' := by
  have hheader : header body.length = header body'.length := by
    have htake := List.prefix_iff_eq_take.mp ((List.prefix_append _ _).trans h)
    rwa [length_header, wrapWith, List.take_left' (length_header _)] at htake
  have hsame := header_injective hlength hlength' hheader
  apply h.eq_of_length
  rw [length_wrapWith, length_wrapWith, hsame]

theorem getElem?_wrapWith {index : Nat} (h : index < body.length) :
    (wrapWith hash body)[headerLength + index]? = body[index]? := by
  rw [wrapWith, List.getElem?_append_right (by rw [length_header]; omega), length_header,
    Nat.add_sub_cancel_left, List.getElem?_append_left h]

end Whole

-- Bytes that may differ in the place of the header and in the place of the digest.
structure SharesBody (other bytes : Bytes) : Prop where
  length_eq : other.length = bytes.length
  getElem?_eq : ∀ index, headerLength ≤ index → index + digestLength < bytes.length →
    other[index]? = bytes[index]?

theorem IsFrame.eq_of_begins {content' : Body} (h : IsFrame hash other content')
    (h' : IsFrame hash bytes content) (hbegins : other <+: bytes) : other = bytes := by
  obtain ⟨body, rfl, hlength, -⟩ := isFrame_iff.mp h
  obtain ⟨body', rfl, hlength', -⟩ := isFrame_iff.mp h'
  exact wrapWith_eq_of_begins hlength hlength' hbegins

theorem IsFrame.eq_of_sharesBody {content' : Body} (h : IsFrame hash other content')
    (h' : IsFrame hash bytes content) (hshares : SharesBody other bytes) : other = bytes := by
  obtain ⟨body, rfl, -, -⟩ := isFrame_iff.mp h
  obtain ⟨body', rfl, -, -⟩ := isFrame_iff.mp h'
  obtain ⟨hlength, hsame⟩ := hshares
  rw [length_wrapWith, length_wrapWith] at hlength
  have hbody : body = body' := by
    apply List.ext_getElem?
    intro index
    by_cases hindex : index < body'.length
    · have hsame := hsame (headerLength + index) (by omega) (by rw [length_wrapWith]; omega)
      rwa [getElem?_wrapWith (by omega), getElem?_wrapWith hindex] at hsame
    · rw [List.getElem?_eq_none (by omega), List.getElem?_eq_none (by omega)]
  rw [hbody]

-- A reader that knows exactly the frames with a digest, and takes no bytes for a
-- frame that came of another frame by anything but a change of the body.
structure Delimits (hash : Digest) (read : Bytes → Except RecordError Body) : Prop where
  accepts : ∀ bytes content, read bytes = .ok content ↔ IsFrame hash bytes content
  refuses : ∀ bytes, (∀ content, ¬ IsFrame hash bytes content) →
    ∃ reason, read bytes = .error (.corrupt reason)
  refuses_shorter : ∀ bytes content, read bytes = .ok content →
    ∀ front, front <+: bytes → front ≠ bytes → ∃ reason, read front = .error (.corrupt reason)
  refuses_longer : ∀ bytes content, read bytes = .ok content →
    ∀ longer, bytes <+: longer → longer ≠ bytes →
      ∃ reason, read longer = .error (.corrupt reason)
  refuses_altered : ∀ bytes content, read bytes = .ok content →
    ∀ other, SharesBody other bytes → other ≠ bytes →
      ∃ reason, read other = .error (.corrupt reason)

theorem delimits_unpackWith (hash : Digest) :
    Delimits hash fun bytes => (unpackWith hash bytes).mapError .corrupt := by
  have haccepts : ∀ bytes content,
      (unpackWith hash bytes).mapError RecordError.corrupt = .ok content ↔
        IsFrame hash bytes content := by
    intro bytes content
    rw [mapError_eq_ok, unpackWith_eq_ok]
  have hrefuses : ∀ bytes, (∀ content, ¬ IsFrame hash bytes content) →
      ∃ reason, (unpackWith hash bytes).mapError RecordError.corrupt =
        .error (.corrupt reason) := by
    intro bytes hnone
    cases hread : unpackWith hash bytes with
    | ok content => exact absurd (unpackWith_eq_ok.mp hread) (hnone content)
    | error reason => exact ⟨reason, rfl⟩
  refine ⟨haccepts, hrefuses, ?_, ?_, ?_⟩
  · intro bytes content hread front hfront hne
    exact hrefuses front fun found hfound =>
      hne (hfound.eq_of_begins ((haccepts bytes content).mp hread) hfront)
  · intro bytes content hread longer hlonger hne
    exact hrefuses longer fun found hfound =>
      hne (((haccepts bytes content).mp hread).eq_of_begins hfound hlonger).symm
  · intro bytes content hread other hshares hne
    exact hrefuses other fun found hfound =>
      hne (hfound.eq_of_sharesBody ((haccepts bytes content).mp hread) hshares)

-- Stored frames are delimited, and would be with any digest in place of theirs.
theorem delimits_unpack :
    (Delimits .stored fun bytes => (unpack bytes).mapError .corrupt) ∧
      ∀ hash, Delimits hash fun bytes => (unpackWith hash bytes).mapError .corrupt := by
  have hstored := delimits_unpackWith .stored
  simp only [unpackWith_stored] at hstored
  exact ⟨hstored, delimits_unpackWith⟩

end Chronicle.Frame
