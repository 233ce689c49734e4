import Chronicle.Proofs.RecordKey

-- The order of stored keys as bytes is an order of what they are the keys of: first
-- by the length of the entity, then by its bytes, then by the instant.

namespace Chronicle.RecordKey

def Before (first second : RecordKey) : Prop :=
  first.entity.utf8ByteSize < second.entity.utf8ByteSize ∨
    first.entity.utf8ByteSize = second.entity.utf8ByteSize ∧
      (Bytes.ofText first.entity < Bytes.ofText second.entity ∨
        Bytes.ofText first.entity = Bytes.ofText second.entity ∧
          first.micros.toInt < second.micros.toInt)

variable {first second : RecordKey}

theorem before_iff_of_entity_eq (h : first.entity = second.entity) :
    first.Before second ↔ first.micros.toInt < second.micros.toInt := by
  have hbytes : ¬ Bytes.ofText second.entity < Bytes.ofText second.entity := Std.lt_irrefl
  simp [Before, h, hbytes]

-- Keys of two entities are all in the same order, whatever their instants.
theorem entity_eq_of_not_before {third : RecordKey} (hentity : third.entity = first.entity)
    (hfirst : ¬ second.Before first) (hthird : ¬ third.Before second) :
    second.entity = first.entity := by
  simp only [Before, hentity, not_or, not_and] at hfirst hthird
  have hlength : second.entity.utf8ByteSize = first.entity.utf8ByteSize := by omega
  have hbelow := (hfirst.2 hlength).1
  have habove := (hthird.2 hlength.symm).1
  exact Bytes.ofText_injective (Std.le_antisymm (List.not_lt.mp habove) (List.not_lt.mp hbelow))

theorem keyBytes_eq (key : RecordKey) :
    key.keyBytes = Bytes.bigEndian 2 key.entity.utf8ByteSize ++
      (Bytes.ofText key.entity ++ timeBytes key.micros) := by
  rw [keyBytes, frontBytes, List.append_assoc]

theorem bigEndian_size_lt_iff (hfirst : IsEntity first.entity) (hsecond : IsEntity second.entity) :
    Bytes.bigEndian 2 first.entity.utf8ByteSize < Bytes.bigEndian 2 second.entity.utf8ByteSize ↔
      first.entity.utf8ByteSize < second.entity.utf8ByteSize :=
  Bytes.bigEndian_lt_bigEndian_iff (Nat.lt_of_le_of_lt hfirst.2 (by decide))
    (Nat.lt_of_le_of_lt hsecond.2 (by decide))

theorem bigEndian_size_eq_iff (hfirst : IsEntity first.entity) (hsecond : IsEntity second.entity) :
    Bytes.bigEndian 2 first.entity.utf8ByteSize = Bytes.bigEndian 2 second.entity.utf8ByteSize ↔
      first.entity.utf8ByteSize = second.entity.utf8ByteSize := by
  constructor
  · exact Bytes.bigEndian_injective (Nat.lt_of_le_of_lt hfirst.2 (by decide))
      (Nat.lt_of_le_of_lt hsecond.2 (by decide))
  · intro h
    rw [h]

-- Each part of a key has the width of the same part of another key, unless an
-- earlier part already tells which of them comes first.
theorem keyBytes_lt_iff (hfirst : IsEntity first.entity) (hsecond : IsEntity second.entity) :
    first.keyBytes < second.keyBytes ↔ first.Before second := by
  have hwidth : (Bytes.bigEndian 2 first.entity.utf8ByteSize).length =
      (Bytes.bigEndian 2 second.entity.utf8ByteSize).length := by
    rw [Bytes.length_bigEndian, Bytes.length_bigEndian]
  rw [keyBytes_eq, keyBytes_eq, Bytes.append_lt_append_iff hwidth,
    bigEndian_size_lt_iff hfirst hsecond, bigEndian_size_eq_iff hfirst hsecond]
  apply or_congr_right
  apply and_congr_right
  intro hlength
  rw [Bytes.append_lt_append_iff (by simpa [Bytes.length_ofText] using hlength),
    timeBytes_lt_iff, Int64.lt_iff_toInt_lt]

theorem lt_iff_before {bytes bytes' : Bytes} (hfirst : first.encode = .ok bytes)
    (hsecond : second.encode = .ok bytes') : bytes < bytes' ↔ first.Before second := by
  obtain ⟨hentity, rfl⟩ := encode_eq_ok.mp hfirst
  obtain ⟨hentity', rfl⟩ := encode_eq_ok.mp hsecond
  exact keyBytes_lt_iff hentity hentity'

theorem isEntity_iff {entity : String} :
    IsEntity entity ↔ 1 ≤ entity.utf8ByteSize ∧ entity.utf8ByteSize ≤ 65535 := by
  have hempty : entity ≠ "" ↔ 1 ≤ entity.utf8ByteSize := by
    rw [Nat.one_le_iff_ne_zero, ne_eq, ne_eq, String.utf8ByteSize_eq_zero_iff]
  exact and_congr_left' hempty

-- A key and the bytes it is stored under.
structure Spelled (key : RecordKey) : Prop where
  encodes_iff : (∃ bytes, key.encode = .ok bytes) ↔
    1 ≤ (Bytes.ofText key.entity).length ∧ (Bytes.ofText key.entity).length ≤ 65535
  -- What is written is read as the key, and nothing else is.
  decode_of_encode : ∀ bytes, key.encode = .ok bytes → decode bytes = .ok key
  encode_of_decode : ∀ bytes, decode bytes = .ok key → key.encode = .ok bytes
  lt_iff : ∀ (other : RecordKey) bytes bytes', key.encode = .ok bytes → other.encode = .ok bytes' →
    (bytes < bytes' ↔ key.Before other)
  -- No key of another entity comes between two keys of an entity.
  contiguous : ∀ (other last : RecordKey) bytes bytes' bytes'', key.encode = .ok bytes →
    other.encode = .ok bytes' → last.encode = .ok bytes'' → last.entity = key.entity →
    bytes ≤ bytes' → bytes' ≤ bytes'' → other.entity = key.entity
  ascending : ∀ (later : RecordKey) bytes bytes', key.encode = .ok bytes →
    later.encode = .ok bytes' → key.entity = later.entity →
    (bytes < bytes' ↔ key.micros.toInt < later.micros.toInt)

-- Keys that can be written are the same as bytes that are read as keys, in the
-- same order.
theorem spelled (key : RecordKey) : key.Spelled := by
  have hboth : ∀ bytes, key.encode = .ok bytes ↔ decode bytes = .ok key := by
    intro bytes
    rw [encode_eq_ok, decode_eq_ok]
  refine ⟨?_, fun bytes => (hboth bytes).mp, fun bytes => (hboth bytes).mpr, ?_, ?_, ?_⟩
  · rw [Bytes.length_ofText, ← isEntity_iff]
    constructor
    · rintro ⟨bytes, h⟩
      exact (encode_eq_ok.mp h).1
    · intro h
      exact ⟨_, encode_of_isEntity h⟩
  · intro other bytes bytes' h h'
    exact lt_iff_before h h'
  · intro other last bytes bytes' bytes'' h h' h'' hentity hlower hupper
    rw [← List.not_lt, lt_iff_before h' h] at hlower
    rw [← List.not_lt, lt_iff_before h'' h'] at hupper
    exact entity_eq_of_not_before hentity hlower hupper
  · intro later bytes bytes' h h' hentity
    rw [lt_iff_before h h', before_iff_of_entity_eq hentity]

end Chronicle.RecordKey
