import Chronicle.Proofs.Body.Size
import Chronicle.Proofs.Codec.RoundTrip

-- Bytes that are read as a record may have been written in many ways. What is
-- written of the record is no longer than any of them and is read as the same.

namespace Chronicle

theorem Offset.seconds_of_ofSeconds? {seconds : Int} {offset : Offset}
    (h : Offset.ofSeconds? seconds = some offset) : offset.seconds = seconds := by
  unfold Offset.ofSeconds? at h
  split at h
  · cases h
    rfl
  · contradiction

namespace Codec

theorem ofTimestamp_of_toTimestamp {instant : Body.Instant} {t : Timestamp}
    (h : toTimestamp instant = .ok t) : ofTimestamp t = instant := by
  obtain ⟨micros, seconds⟩ := instant
  cases seconds with
  | none =>
      cases h
      rfl
  | some seconds =>
      dsimp only [toTimestamp] at h
      split at h
      · rename_i offset hoffset
        cases h
        have hseconds := Offset.seconds_of_ofSeconds? hoffset
        simp [ofTimestamp, hseconds]
      · contradiction

theorem ofValue_of_toValue {written : Body.Value} {value : Value}
    (h : toValue written = .ok value) : ofValue value = written := by
  cases written with
  | timestamp instant =>
      obtain ⟨t, ht, heq⟩ := bind_eq_ok.mp h
      cases heq
      rw [ofValue, ofTimestamp_of_toTimestamp ht]
  | _ =>
      cases h
      rfl

-- A field that is added joins the others, and nothing is lost of it or of them.
theorem perm_of_addField {payload next : Payload} {field : Body.Field}
    (h : addField payload field = .ok next) :
    (next.toList.map ofField).Perm (payload.toList.map ofField ++ [field]) := by
  obtain ⟨tag, name, written⟩ := field
  cases written with
  | none => contradiction
  | some written =>
      obtain ⟨value, hvalue, h⟩ := bind_eq_ok.mp h
      dsimp only at h
      split at h
      · contradiction
      · rename_i hname
        cases h
        have hfield : ofField ⟨tag, name, value⟩ = ⟨tag, name, some written⟩ := by
          rw [ofField, ofValue_of_toValue hvalue]
        have hnew : payload.contains (Field.mk tag name value).name = false :=
          Bool.eq_false_iff.mpr hname
        have hinsert := (Payload.toList_insert_perm hnew).map ofField
        rw [List.map_cons, hfield] at hinsert
        exact hinsert.trans (List.perm_append_singleton _ _).symm

theorem perm_of_foldlM_addField {payload filled : Payload} {fields : List Body.Field}
    (h : fields.foldlM addField payload = .ok filled) :
    (filled.toList.map ofField).Perm (payload.toList.map ofField ++ fields) := by
  induction fields generalizing payload with
  | nil =>
      cases h
      rw [List.append_nil]
  | cons field rest ih =>
      rw [List.foldlM_cons] at h
      obtain ⟨next, hnext, h⟩ := bind_eq_ok.mp h
      have hfirst := (perm_of_addField hnext).append_right rest
      rw [List.append_assoc] at hfirst
      exact (ih h).trans hfirst

-- A record holds what its body says, with the fields in order.
theorem ofRecord_of_toRecord {body : Body} {record : Record} (h : toRecord body = .ok record) :
    ∃ fields, fields.Perm body.fields ∧ ofRecord record = { body with fields := fields } := by
  obtain ⟨kind, version, entity, timestamp, fields⟩ := body
  cases timestamp with
  | none => contradiction
  | some instant =>
      obtain ⟨t, ht, h⟩ := bind_eq_ok.mp h
      obtain ⟨payload, hpayload, heq⟩ := bind_eq_ok.mp h
      cases heq
      refine ⟨payload.toList.map ofField, perm_of_foldlM_addField hpayload, ?_⟩
      rw [ofRecord, ofTimestamp_of_toTimestamp ht]
      rfl

theorem length_ofRecord_of_toRecord {body : Body} {record : Record}
    (h : toRecord body = .ok record) : (ofRecord record).encode.length = body.encode.length := by
  obtain ⟨fields, hperm, heq⟩ := ofRecord_of_toRecord h
  rw [heq, Body.length_encode, Body.length_encode, Body.fieldsLength_of_perm hperm]

theorem decodeRaw_eq_ok {bytes : Bytes} {record : Record} :
    decodeRaw bytes = .ok record ↔ ∃ written body, bytes = Frame.wrap written ∧
      written.length ≤ Frame.maxBody ∧ Body.decode? written = some body ∧
      toRecord body = .ok record := by
  rw [decodeRaw, mapError_eq_ok, bind_eq_ok]
  constructor
  · rintro ⟨body, hunpack, hrecord⟩
    obtain ⟨written, hunwrap, hread⟩ := bind_eq_ok.mp hunpack
    obtain ⟨hwrap, hlength⟩ := Frame.unwrap_eq_ok.mp hunwrap
    refine ⟨written, body, hwrap, hlength, ?_, hrecord⟩
    cases hdecode : Body.decode? written with
    | none => simp [hdecode] at hread
    | some found => simpa [hdecode] using hread
  · rintro ⟨written, body, rfl, hlength, hdecode, hrecord⟩
    refine ⟨body, bind_eq_ok.mpr ⟨written, Frame.unwrap_wrap hlength, ?_⟩, hrecord⟩
    rw [hdecode]

-- However a record was written, writing it again takes no more bytes, loses
-- nothing, and from then on makes no difference.
theorem canonical_of_decodeRaw {bytes : Bytes} {record : Record}
    (h : decodeRaw bytes = .ok record) :
    ∃ canonical, encode record = .ok canonical ∧ canonical.length ≤ bytes.length ∧
      decodeRaw canonical = .ok record ∧ (decodeRaw canonical >>= encode) = .ok canonical := by
  obtain ⟨written, body, rfl, hlength, hdecode, hrecord⟩ := decodeRaw_eq_ok.mp h
  have hshorter : (ofRecord record).encode.length ≤ written.length := by
    rw [length_ofRecord_of_toRecord hrecord]
    exact Body.length_encode_le_of_decode? hdecode
  have hencode := encode_of_fits (Nat.le_trans hshorter hlength)
  have hagain := decodeRaw_of_encode hencode
  refine ⟨_, hencode, ?_, hagain, ?_⟩
  · rw [Frame.length_wrap, Frame.length_wrap]
    omega
  · rw [hagain]
    exact hencode

def note : Record :=
  ⟨"note", "e", ⟨5, Offset.ofSeconds? 3600⟩, 1, Payload.ofList [⟨7, "n", .text "t"⟩]⟩

-- The kind stands first with another text and last with its own, an unknown
-- element follows, the length of the entity takes two bytes, an integer gives way
-- to the text, the field's tag comes last, and the timestamp is in two parts.
def looseNote : Bytes :=
  [0x0A, 1, 0x78] ++ [0x78, 5] ++ [0x1A, 0x81, 0, 0x65] ++
    [0x2A, 20, 0x21, 1, 2, 3, 4, 5, 6, 7, 8, 0x3A, 1, 0x74, 0x12, 1, 0x6E, 0x0D, 7, 0, 0, 0] ++
    [0x22, 5, 0x15, 0x10, 0x0E, 0, 0] ++ [0x22, 9, 0x09, 5, 0, 0, 0, 0, 0, 0, 0] ++
    [0x0A, 4, 0x6E, 0x6F, 0x74, 0x65] ++ [0x15, 1, 0, 0, 0]

theorem canonical_of_looseNote :
    decodeRaw (Frame.wrap looseNote) = .ok note ∧ encode note ≠ .ok (Frame.wrap looseNote) ∧
      ∃ canonical, encode note = .ok canonical ∧
        canonical.length ≤ (Frame.wrap looseNote).length ∧ decodeRaw canonical = .ok note ∧
        (decodeRaw canonical >>= encode) = .ok canonical := by
  have hbody : (Body.decode? looseNote).map toRecord = some (.ok note) := by decide +kernel
  obtain ⟨body, hdecode, hrecord⟩ := Option.map_eq_some_iff.mp hbody
  have hread : decodeRaw (Frame.wrap looseNote) = .ok note :=
    decodeRaw_eq_ok.mpr ⟨looseNote, body, rfl, by decide, hdecode, hrecord⟩
  exact ⟨hread, by decide +kernel, canonical_of_decodeRaw hread⟩

end Codec

end Chronicle
