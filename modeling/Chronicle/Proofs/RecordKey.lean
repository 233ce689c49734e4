import Chronicle.Proofs.KeyRange
import Chronicle.Proofs.Outcome
import Chronicle.RecordKey

-- Stored keys: one for each entity and instant, and the keys of an entity within
-- a span of time are a range of them.

namespace Chronicle

namespace RecordKey

section Time

theorem toInt_add_shift_bounds (micros : Int64) :
    0 ≤ micros.toInt + shift ∧ micros.toInt + shift < twoTo 64 := by
  have hlow := micros.le_toInt
  have hhigh := micros.toInt_lt
  have hshift : shift = 9223372036854775808 := rfl
  have htwo : ((twoTo 64 : Nat) : Int) = 18446744073709551616 := rfl
  omega

theorem toNat_shifted_lt (micros : Int64) :
    (micros.toInt + shift).toNat < Nat.pow 256 timeLength := by
  have hbounds := toInt_add_shift_bounds micros
  have hpower : Nat.pow 256 timeLength = twoTo 64 := rfl
  omega

theorem length_timeBytes (micros : Int64) : (timeBytes micros).length = timeLength :=
  Bytes.length_bigEndian _ _

theorem ofTimeBytes_timeBytes (micros : Int64) : ofTimeBytes (timeBytes micros) = micros := by
  have hbounds := toInt_add_shift_bounds micros
  have hback : ((micros.toInt + shift).toNat : Int) - shift = micros.toInt := by omega
  rw [ofTimeBytes, timeBytes, Bytes.ofBigEndian_bigEndian_of_lt (toNat_shifted_lt micros), hback,
    Int64.ofInt_toInt]

-- Any eight bytes are those of an instant.
theorem timeBytes_ofTimeBytes {bytes : Bytes} (h : bytes.length = timeLength) :
    timeBytes (ofTimeBytes bytes) = bytes := by
  have hbound := Bytes.ofBigEndian_lt bytes
  rw [h] at hbound
  have hpower : Nat.pow 256 timeLength = 18446744073709551616 := rfl
  have hshift : shift = 9223372036854775808 := rfl
  have hback : (ofTimeBytes bytes).toInt = Bytes.ofBigEndian bytes - shift :=
    Int64.toInt_ofInt_of_le (by omega) (by omega)
  have hnumber : ((ofTimeBytes bytes).toInt + shift).toNat = Bytes.ofBigEndian bytes := by omega
  rw [timeBytes, hnumber, ← h, Bytes.bigEndian_ofBigEndian]

theorem timeBytes_lt_iff {first second : Int64} :
    timeBytes first < timeBytes second ↔ first < second := by
  have hfirst := toInt_add_shift_bounds first
  have hsecond := toInt_add_shift_bounds second
  rw [timeBytes, timeBytes, Int64.lt_iff_toInt_lt,
    Bytes.bigEndian_lt_bigEndian_iff (toNat_shifted_lt first) (toNat_shifted_lt second)]
  omega

theorem timeBytes_le_iff {first second : Int64} :
    timeBytes first ≤ timeBytes second ↔ first ≤ second := by
  rw [← List.not_lt, timeBytes_lt_iff, Int64.not_lt]

end Time

-- An entity that keys can be made of.
def IsEntity (entity : String) : Prop := entity ≠ "" ∧ entity.utf8ByteSize ≤ maxEntity

instance (entity : String) : Decidable (IsEntity entity) := inferInstanceAs (Decidable (_ ∧ _))

-- The front of an entity, if it has one.
def frontBytes (entity : String) : Bytes :=
  Bytes.bigEndian 2 entity.utf8ByteSize ++ Bytes.ofText entity

theorem front_of_isEntity {entity : String} (h : IsEntity entity) :
    front entity = .ok (frontBytes entity) := by
  have hnonempty : Bytes.ofText entity ≠ [] := fun he => h.1 (Bytes.ofText_eq_nil.mp he)
  have hshort : ¬ maxEntity < entity.utf8ByteSize := Nat.not_lt.mpr h.2
  simp [front, hnonempty, Bytes.length_ofText, hshort, frontBytes]

theorem front_eq_ok {entity : String} {bytes : Bytes} :
    front entity = .ok bytes ↔ IsEntity entity ∧ bytes = frontBytes entity := by
  constructor
  · intro h
    have hentity : IsEntity entity := by
      simp only [front] at h
      split at h
      · contradiction
      · rename_i hnonempty
        split at h
        · contradiction
        · rename_i hshort
          exact ⟨fun he => hnonempty (Bytes.ofText_eq_nil.mpr he), Nat.not_lt.mp hshort⟩
    rw [front_of_isEntity hentity, Except.ok.injEq] at h
    exact ⟨hentity, h.symm⟩
  · rintro ⟨hentity, rfl⟩
    exact front_of_isEntity hentity

def keyBytes (key : RecordKey) : Bytes := frontBytes key.entity ++ timeBytes key.micros

theorem encode_eq_ok {key : RecordKey} {bytes : Bytes} :
    key.encode = .ok bytes ↔ IsEntity key.entity ∧ bytes = key.keyBytes := by
  constructor
  · intro h
    obtain ⟨front, hfront, hbytes⟩ := bind_eq_ok.mp h
    obtain ⟨hentity, rfl⟩ := front_eq_ok.mp hfront
    cases hbytes
    exact ⟨hentity, rfl⟩
  · rintro ⟨hentity, rfl⟩
    rw [encode, front_of_isEntity hentity]
    rfl

theorem encode_of_isEntity {key : RecordKey} (h : IsEntity key.entity) :
    key.encode = .ok key.keyBytes :=
  encode_eq_ok.mpr ⟨h, rfl⟩

theorem decode_keyBytes {key : RecordKey} (h : IsEntity key.entity) :
    decode key.keyBytes = .ok key := by
  have hlength : Bytes.ofBigEndian (Bytes.bigEndian 2 key.entity.utf8ByteSize) =
      key.entity.utf8ByteSize :=
    Bytes.ofBigEndian_bigEndian_of_lt (Nat.lt_of_le_of_lt h.2 (by decide))
  have hpositive : key.entity.utf8ByteSize ≠ 0 := fun he =>
    h.1 (String.utf8ByteSize_eq_zero_iff.mp he)
  have hsplit : Bytes.split? 2 key.keyBytes =
      some (Bytes.bigEndian 2 key.entity.utf8ByteSize,
        Bytes.ofText key.entity ++ timeBytes key.micros) := by
    rw [keyBytes, frontBytes, List.append_assoc]
    exact Bytes.split?_append _ (Bytes.length_bigEndian 2 _)
  have htext : Bytes.split? key.entity.utf8ByteSize
      (Bytes.ofText key.entity ++ timeBytes key.micros) =
      some (Bytes.ofText key.entity, timeBytes key.micros) :=
    Bytes.split?_append _ (Bytes.length_ofText key.entity)
  simp [decode, decode?, hsplit, hlength, hpositive, htext, length_timeBytes,
    Bytes.toText?_ofText, ofTimeBytes_timeBytes]

-- Whatever is read as a key is its only spelling.
theorem decode_eq_ok {key : RecordKey} {bytes : Bytes} :
    decode bytes = .ok key ↔ IsEntity key.entity ∧ bytes = key.keyBytes := by
  constructor
  · intro h
    have hread : decode? bytes = some key := by
      unfold decode at h
      split at h
      · rename_i found hfound
        rw [hfound, Except.ok.inj h]
      · contradiction
    obtain ⟨⟨count, rest⟩, hcount, hrest⟩ := Option.bind_eq_some_iff.mp hread
    obtain ⟨rfl, htwo⟩ := Bytes.split?_eq_some.mp hcount
    dsimp only at hrest
    split at hrest
    · contradiction
    · rename_i hpositive
      obtain ⟨⟨text, time⟩, htext, hlast⟩ := Option.bind_eq_some_iff.mp hrest
      obtain ⟨rfl, hlength⟩ := Bytes.split?_eq_some.mp htext
      dsimp only at hlast
      split at hlast
      · contradiction
      · rename_i htime
        obtain ⟨entity, hentity, hkey⟩ := Option.bind_eq_some_iff.mp hlast
        cases hkey
        have hbytes : Bytes.ofText entity = text := Bytes.ofText_of_toText? hentity
        have hsize : entity.utf8ByteSize = Bytes.ofBigEndian count := by
          rw [← Bytes.length_ofText, hbytes, hlength]
        have hbound := Bytes.ofBigEndian_lt count
        rw [htwo] at hbound
        have hpower : Nat.pow 256 2 = maxEntity + 1 := rfl
        have hshort : entity.utf8ByteSize ≤ maxEntity := by omega
        refine ⟨⟨?_, hshort⟩, ?_⟩
        · rintro rfl
          exact hpositive hsize.symm
        · have hfront : Bytes.bigEndian 2 entity.utf8ByteSize = count := by
            rw [hsize, ← htwo, Bytes.bigEndian_ofBigEndian]
          rw [keyBytes, frontBytes, hfront, hbytes,
            timeBytes_ofTimeBytes (Decidable.not_not.mp htime), List.append_assoc]
  · rintro ⟨hentity, rfl⟩
    exact decode_keyBytes hentity

theorem keyBytes_injective {first second : RecordKey} (hfirst : IsEntity first.entity)
    (hsecond : IsEntity second.entity) (h : first.keyBytes = second.keyBytes) :
    first = second := by
  have hread := decode_keyBytes hfirst
  rw [h, decode_keyBytes hsecond, Except.ok.injEq] at hread
  exact hread.symm

-- Whatever comes behind it, a front tells its entity.
theorem eq_of_prefix_frontBytes {first second : String} (hfirst : IsEntity first)
    (hsecond : IsEntity second) {bytes : Bytes} (h : frontBytes first <+: bytes)
    (h' : frontBytes second <+: bytes) : first = second := by
  obtain ⟨rest, hrest⟩ := h
  obtain ⟨rest', hrest'⟩ := h'
  have hsame := hrest.trans hrest'.symm
  simp only [frontBytes, List.append_assoc] at hsame
  obtain ⟨hcount, htail⟩ := List.append_inj hsame (by simp [Bytes.length_bigEndian])
  have hsize : first.utf8ByteSize = second.utf8ByteSize :=
    Bytes.bigEndian_injective (Nat.lt_of_le_of_lt hfirst.2 (by decide))
      (Nat.lt_of_le_of_lt hsecond.2 (by decide)) hcount
  obtain ⟨htext, _⟩ := List.append_inj htail (by simpa [Bytes.length_ofText] using hsize)
  exact Bytes.ofText_injective htext

-- The keys of an entity are the keys that begin with its front.
theorem frontBytes_prefix_iff {entity : String} {key : RecordKey} (hentity : IsEntity entity)
    (hkey : IsEntity key.entity) : frontBytes entity <+: key.keyBytes ↔ key.entity = entity := by
  constructor
  · exact eq_of_prefix_frontBytes hkey hentity (List.prefix_append _ _)
  · rintro rfl
    exact List.prefix_append _ _

end RecordKey

namespace TimeBound

-- Whether the span that begins here has got to an instant.
def isBelow (lower : TimeBound) (micros : Int64) : Bool :=
  match lower with
  | .unbounded => true
  | .included first => decide (first ≤ micros)
  | .excluded before => decide (before < micros)

-- Whether the span that ends here has not yet ended at an instant.
def isAbove (upper : TimeBound) (micros : Int64) : Bool :=
  match upper with
  | .unbounded => true
  | .included last => decide (micros ≤ last)
  | .excluded after => decide (micros < after)

end TimeBound

namespace TimeSpan

def contains (span : TimeSpan) (micros : Int64) : Bool :=
  span.lower.isBelow micros && span.upper.isAbove micros

theorem toInt_nextInstant {micros next : Int64} (h : nextInstant? micros = some next) :
    next.toInt = micros.toInt + 1 := by
  unfold nextInstant? at h
  split at h
  · contradiction
  · rename_i hmax
    have hhigh := micros.toInt_lt
    have hlow := micros.le_toInt
    have hne : micros.toInt ≠ 9223372036854775807 := fun he =>
      hmax (Int64.toInt_inj.mp he)
    rw [Option.some.injEq] at h
    subst h
    have hadd : micros + 1 = Int64.ofInt (micros.toInt + 1) := by
      rw [Int64.ofInt_add, Int64.ofInt_toInt]
      rfl
    rw [hadd]
    exact Int64.toInt_ofInt_of_le (by omega) (by omega)

theorem eq_max_of_nextInstant {micros : Int64} (h : nextInstant? micros = none) :
    micros.toInt = 9223372036854775807 := by
  unfold nextInstant? at h
  split at h
  · rename_i hmax
    rw [hmax]
    rfl
  · contradiction

open RecordKey

-- Where the keys of a span begin, if there are any.
def start? (front : Bytes) : TimeBound → Option Bytes
  | .unbounded => some front
  | .included micros => some (front ++ timeBytes micros)
  | .excluded micros => (nextInstant? micros).map fun next => front ++ timeBytes next

def limit? (front : Bytes) : TimeBound → Option Bytes
  | .unbounded => KeyRange.prefixSuccessor front
  | .excluded micros => some (front ++ timeBytes micros)
  | .included micros =>
      match nextInstant? micros with
      | some next => some (front ++ timeBytes next)
      | none => KeyRange.prefixSuccessor front

def keyRange (span : TimeSpan) (front : Bytes) : KeyRange :=
  match start? front span.lower with
  | some start => ⟨start, limit? front span.upper⟩
  | none => ⟨front, some front⟩

theorem keys_of_isEntity (span : TimeSpan) {entity : String} (h : IsEntity entity) :
    span.keys entity = .ok (span.keyRange (frontBytes entity)) := by
  rw [keys, front_of_isEntity h, ok_bind]
  unfold keyRange start? limit?
  cases span.lower with
  | excluded micros =>
      cases hnext : nextInstant? micros with
      | none => cases span.upper <;> simp only [hnext, Option.map_none] <;> rfl
      | some next => cases span.upper <;> simp only [hnext, Option.map_some] <;> rfl
  | _ => cases span.upper <;> rfl

theorem keys_eq_ok {span : TimeSpan} {entity : String} {range : KeyRange} :
    span.keys entity = .ok range ↔
      IsEntity entity ∧ range = span.keyRange (frontBytes entity) := by
  constructor
  · intro h
    obtain ⟨front, hfront, _⟩ := bind_eq_ok.mp h
    obtain ⟨hentity, _⟩ := front_eq_ok.mp hfront
    rw [keys_of_isEntity span hentity, Except.ok.injEq] at h
    exact ⟨hentity, h.symm⟩
  · rintro ⟨hentity, rfl⟩
    exact keys_of_isEntity span hentity

-- What lies between two keys that begin with the same bytes does so too.
theorem prefix_of_between {front lower upper key : Bytes} (hlower : front ++ lower ≤ key)
    (hupper : key < front ++ upper) : front <+: key := by
  induction front generalizing key with
  | nil => exact List.nil_prefix
  | cons byte front ih =>
      cases key with
      | nil => simp at hlower
      | cons other key =>
          rw [List.cons_append, List.cons_le_cons_iff] at hlower
          rw [List.cons_append, List.cons_lt_cons_iff] at hupper
          rcases hlower with hlt | ⟨rfl, hlower⟩
          · rcases hupper with hgt | ⟨he, _⟩
            · exact absurd (Std.lt_trans hlt hgt) Std.lt_irrefl
            · exact absurd (he ▸ hlt) Std.lt_irrefl
          · rcases hupper with hgt | ⟨_, hupper⟩
            · exact absurd hgt Std.lt_irrefl
            · exact List.cons_prefix_cons.mpr ⟨rfl, ih hlower hupper⟩

section Contains

variable {front key : Bytes} {micros : Int64}

theorem append_le_append_iff {first second : Int64} :
    front ++ timeBytes first ≤ front ++ timeBytes second ↔ first ≤ second := by
  rw [← List.not_lt, Bytes.append_left_lt_iff, List.not_lt, timeBytes_le_iff]

theorem append_lt_append_iff {first second : Int64} :
    front ++ timeBytes first < front ++ timeBytes second ↔ first < second := by
  rw [Bytes.append_left_lt_iff, timeBytes_lt_iff]

theorem lt_limit?_iff {upper : TimeBound} :
    (∀ limit, limit? front upper = some limit → front ++ timeBytes micros < limit) ↔
      upper.isAbove micros = true := by
  have hsuccessor : ∀ limit, KeyRange.prefixSuccessor front = some limit →
      front ++ timeBytes micros < limit :=
    fun limit hlimit => KeyRange.lt_of_prefixSuccessor hlimit (List.prefix_append _ _)
  cases upper with
  | unbounded => simpa [limit?, TimeBound.isAbove] using hsuccessor
  | excluded after => simp [limit?, TimeBound.isAbove, append_lt_append_iff]
  | included last =>
      cases hnext : nextInstant? last with
      | some next =>
          have htoInt := toInt_nextInstant hnext
          simp only [limit?, hnext, TimeBound.isAbove, Option.some.injEq, forall_eq',
            append_lt_append_iff, decide_eq_true_eq, Int64.lt_iff_toInt_lt, Int64.le_iff_toInt_le]
          omega
      | none =>
          have hmax := eq_max_of_nextInstant hnext
          have hhigh := micros.toInt_lt
          have hle : micros ≤ last := by
            rw [Int64.le_iff_toInt_le]
            omega
          simpa [limit?, hnext, TimeBound.isAbove, hle] using hsuccessor

theorem start?_le_iff {lower : TimeBound} {start : Bytes}
    (h : start? front lower = some start) :
    start ≤ front ++ timeBytes micros ↔ lower.isBelow micros = true := by
  cases lower with
  | unbounded =>
      cases h
      simp [TimeBound.isBelow, List.le_append_left]
  | included first =>
      cases h
      simp [TimeBound.isBelow, append_le_append_iff]
  | excluded before =>
      obtain ⟨next, hnext, rfl⟩ := Option.map_eq_some_iff.mp h
      have htoInt := toInt_nextInstant hnext
      simp only [TimeBound.isBelow, append_le_append_iff, decide_eq_true_eq,
        Int64.lt_iff_toInt_lt, Int64.le_iff_toInt_le]
      omega

-- Without a start the instant before every other one would have to be the last.
theorem not_isBelow_of_start? {lower : TimeBound} (h : start? front lower = none) :
    lower.isBelow micros = false := by
  cases lower with
  | unbounded => contradiction
  | included first => contradiction
  | excluded before =>
      have hmax := eq_max_of_nextInstant (Option.map_eq_none_iff.mp h)
      have hhigh := micros.toInt_lt
      simp only [TimeBound.isBelow, decide_eq_false_iff_not, Int64.lt_iff_toInt_lt]
      omega

theorem prefix_of_mem_keyRange {span : TimeSpan}
    (h : (span.keyRange front).contains key = true) : front <+: key := by
  obtain ⟨hstart, hlimit⟩ := KeyRange.contains_iff.mp h
  have hfront : ∃ rest, (span.keyRange front).start = front ++ rest := by
    unfold keyRange
    split
    · rename_i start hs
      cases hlower : span.lower with
      | unbounded => exact ⟨[], by simpa [hlower, start?] using hs.symm⟩
      | included first => exact ⟨timeBytes first, by simpa [hlower, start?] using hs.symm⟩
      | excluded before =>
          rw [hlower] at hs
          obtain ⟨next, _, rfl⟩ := Option.map_eq_some_iff.mp hs
          exact ⟨timeBytes next, rfl⟩
    · exact ⟨[], by simp⟩
  obtain ⟨rest, hrest⟩ := hfront
  rw [hrest] at hstart
  have hbelow : ∀ rest', (span.keyRange front).limit = some (front ++ rest') → front <+: key :=
    fun rest' he => prefix_of_between hstart (hlimit _ he)
  have hbegins : (span.keyRange front).limit = KeyRange.prefixSuccessor front → front <+: key := by
    intro he
    rw [he] at hlimit
    exact KeyRange.contains_startingWith.mp (KeyRange.contains_iff.mpr
      ⟨Std.le_trans List.le_append_left hstart, hlimit⟩)
  cases hs : start? front span.lower with
  | none => exact hbelow [] (by simp [keyRange, hs])
  | some start =>
      cases hupper : span.upper with
      | unbounded => exact hbegins (by simp [keyRange, hs, hupper, limit?])
      | excluded after => exact hbelow (timeBytes after) (by simp [keyRange, hs, hupper, limit?])
      | included last =>
          cases hnext : nextInstant? last with
          | some next =>
              exact hbelow (timeBytes next) (by simp [keyRange, hs, hupper, limit?, hnext])
          | none => exact hbegins (by simp [keyRange, hs, hupper, limit?, hnext])

end Contains

-- The range of a span has the keys of its entity whose instants are within it.
theorem contains_keys_iff {span : TimeSpan} {entity : String} {range : KeyRange}
    (h : span.keys entity = .ok range) {key : RecordKey} (hkey : IsEntity key.entity) :
    range.contains key.keyBytes = true ↔
      key.entity = entity ∧ span.contains key.micros = true := by
  obtain ⟨hentity, rfl⟩ := keys_eq_ok.mp h
  have hwithin : key.entity = entity →
      ((span.keyRange (frontBytes entity)).contains key.keyBytes = true ↔
        span.contains key.micros = true) := by
    rintro rfl
    rw [KeyRange.contains_iff, contains, Bool.and_eq_true, keyRange]
    split
    · rename_i start hstart
      rw [keyBytes, start?_le_iff hstart, lt_limit?_iff]
    · rename_i hstart
      have hnone : ¬ key.keyBytes < frontBytes key.entity := List.not_lt.mpr List.le_append_left
      simp [not_isBelow_of_start? hstart, hnone]
  constructor
  · intro hmem
    have he := (frontBytes_prefix_iff hentity hkey).mp (prefix_of_mem_keyRange hmem)
    exact ⟨he, (hwithin he).mp hmem⟩
  · rintro ⟨he, hmem⟩
    exact (hwithin he).mpr hmem

end TimeSpan

end Chronicle
