import Chronicle.Codec
import Chronicle.Proofs.Frame
import Chronicle.Proofs.Outcome
import Chronicle.Proofs.Payload

-- A record is read back from its frame, and there is a frame of every record
-- whose body fits.

namespace Chronicle.Codec

theorem toInt_ofInt_seconds (offset : Offset) :
    (Int32.ofInt offset.seconds).toInt = offset.seconds := by
  have habove := offset.above
  have hbelow := offset.below
  exact Int32.toInt_ofInt_of_le (by omega) (by omega)

theorem toTimestamp_ofTimestamp (t : Timestamp) : toTimestamp (ofTimestamp t) = .ok t := by
  obtain ⟨micros, offset⟩ := t
  cases offset with
  | none => rfl
  | some offset =>
      simp only [ofTimestamp, toTimestamp, Option.map_some, toInt_ofInt_seconds,
        Offset.ofSeconds?_seconds]

theorem toValue_ofValue (value : Value) : toValue (ofValue value) = .ok value := by
  cases value with
  | timestamp t =>
      rw [ofValue, toValue, toTimestamp_ofTimestamp]
      rfl
  | _ => rfl

def ofField (field : Field) : Body.Field := ⟨field.tag, field.name, some (ofValue field.value)⟩

-- Fields that are added in their order are kept in that order.
theorem foldlM_addField {payload : Payload} {fields : List Field}
    (h : Canonical (payload.toList ++ fields)) :
    ∃ filled : Payload, (fields.map ofField).foldlM addField payload = .ok filled ∧
      filled.toList = payload.toList ++ fields := by
  induction fields generalizing payload with
  | nil => exact ⟨payload, rfl, by simp⟩
  | cons field rest ih =>
      have hname : payload.contains field.name = false :=
        Payload.contains_eq_false_iff.mpr fun other ho =>
          (List.pairwise_append.mp h.unique).2.2 other ho field List.mem_cons_self
      have hbefore : ∀ other ∈ payload.toList, other.Before field := fun other ho =>
        (List.pairwise_append.mp h.ordered).2.2 other ho field List.mem_cons_self
      have hinsert := Payload.toList_insert_of_last hname hbefore
      have hadd : addField payload (ofField field) = .ok (payload.insert field) := by
        simp [addField, ofField, toValue_ofValue, hname]
      have hrest : Canonical ((payload.insert field).toList ++ rest) := by
        rw [hinsert, List.append_assoc]
        exact h
      obtain ⟨filled, hfold, hfilled⟩ := ih hrest
      refine ⟨filled, ?_, ?_⟩
      · rw [List.map_cons, List.foldlM_cons, hadd]
        exact hfold
      · rw [hfilled, hinsert, List.append_assoc]
        rfl

theorem toRecord_ofRecord (record : Record) : toRecord (ofRecord record) = .ok record := by
  obtain ⟨kind, entity, timestamp, version, payload⟩ := record
  have hcanonical : Canonical ((∅ : Payload).toList ++ payload.toList) := payload.canonical
  obtain ⟨filled, hfold, hfilled⟩ := foldlM_addField hcanonical
  have hpayload : filled = payload := Payload.toList_injective hfilled
  subst hpayload
  have hfields : (ofRecord ⟨kind, entity, timestamp, version, filled⟩).fields =
      filled.toList.map ofField := rfl
  simp only [toRecord, hfields, hfold]
  simp [ofRecord, toTimestamp_ofTimestamp]

theorem encode_of_fits {record : Record} (h : (ofRecord record).encode.length ≤ Frame.maxBody) :
    encode record = .ok (Frame.wrap (ofRecord record).encode) := by
  simp [encode, Frame.pack, Nat.not_lt.mpr h]

theorem encode_of_too_large {record : Record}
    (h : Frame.maxBody < (ofRecord record).encode.length) :
    encode record = .error (.tooLarge (ofRecord record).encode.length Frame.maxBody) := by
  simp [encode, Frame.pack, h]

theorem decodeRaw_of_encode {record : Record} {bytes : Bytes} (h : encode record = .ok bytes) :
    decodeRaw bytes = .ok record := by
  rcases Nat.lt_or_ge Frame.maxBody (ofRecord record).encode.length with hlarge | hfits
  · rw [encode_of_too_large hlarge] at h
    contradiction
  · rw [encode_of_fits hfits, Except.ok.injEq] at h
    subst h
    simp [decodeRaw, Frame.unpack_wrap hfits, toRecord_ofRecord]

-- A record can be stored exactly when its body is short enough, and then it is
-- read back as it was, whatever it holds.
theorem encode_and_decodeRaw (record : Record) :
    (encode record = .error (.tooLarge (ofRecord record).encode.length Frame.maxBody) ↔
      Frame.maxBody < (ofRecord record).encode.length) ∧
    ((∃ bytes, encode record = .ok bytes ∧ decodeRaw bytes = .ok record) ↔
      (ofRecord record).encode.length ≤ Frame.maxBody) := by
  rcases Nat.lt_or_ge Frame.maxBody (ofRecord record).encode.length with hlarge | hfits
  · have hnone : ¬ ∃ bytes, encode record = .ok bytes ∧ decodeRaw bytes = .ok record := by
      rintro ⟨bytes, h, _⟩
      rw [encode_of_too_large hlarge] at h
      contradiction
    exact ⟨⟨fun _ => hlarge, encode_of_too_large⟩,
      ⟨fun h => absurd h hnone, fun h => absurd hlarge (Nat.not_lt.mpr h)⟩⟩
  · have hok := encode_of_fits hfits
    refine ⟨⟨fun h => ?_, encode_of_too_large⟩, ⟨fun _ => hfits, fun _ => ?_⟩⟩
    · rw [hok] at h
      contradiction
    · exact ⟨_, hok, decodeRaw_of_encode hok⟩

end Chronicle.Codec
