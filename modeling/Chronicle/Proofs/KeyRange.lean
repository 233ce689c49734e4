import Chronicle.KeyRange
import Chronicle.Proofs.Bytes
import Mathlib.Order.Bounds.Defs

-- Ranges as sets of keys.

namespace Chronicle.KeyRange

theorem contains_iff {range : KeyRange} {key : Bytes} :
    range.contains key = true ↔
      range.start ≤ key ∧ ∀ limit, range.limit = some limit → key < limit := by
  obtain ⟨start, limit⟩ := range
  cases limit with
  | none => simp [contains]
  | some limit => simp [contains]

-- Nothing lies between a key and its successor.
theorem successor_le_iff {key other : Bytes} : successor key ≤ other ↔ key < other := by
  induction key generalizing other with
  | nil =>
      cases other with
      | nil => simp [successor]
      | cons byte other =>
          have hle : (0 : UInt8) ≤ byte := UInt8.zero_le
          have hnil : ¬ other < [] := List.not_lt_nil _
          simp [successor, List.cons_le_cons_iff, Std.le_iff_lt_or_eq.mp hle]
  | cons byte key ih =>
      cases other with
      | nil => simp [successor]
      | cons byte' other =>
          have hstep := @ih other
          simp only [successor] at hstep
          simp only [successor, List.cons_append, List.cons_le_cons_iff, List.cons_lt_cons_iff,
            hstep]

theorem start_after_le_iff {range : KeyRange} {key other : Bytes} :
    (range.after key).start ≤ other ↔ range.start ≤ other ∧ key < other := by
  rw [← successor_le_iff]
  by_cases h : successor key ≤ range.start
  · have hle : range.start ≤ other → successor key ≤ other := fun h' => Std.le_trans h h'
    simp only [after, h, if_true]
    exact ⟨fun h' => ⟨h', hle h'⟩, fun h' => h'.1⟩
  · have hlt : range.start ≤ successor key := Std.le_of_not_ge h
    simp only [after, h, if_false]
    exact ⟨fun h' => ⟨Std.le_trans hlt h', h'⟩, fun h' => h'.2⟩

theorem contains_after {range : KeyRange} {key other : Bytes} :
    (range.after key).contains other = true ↔ range.contains other = true ∧ key < other := by
  have hlimit : (range.after key).limit = range.limit := rfl
  rw [contains_iff, contains_iff, start_after_le_iff, hlimit]
  exact ⟨fun ⟨⟨hs, hk⟩, hl⟩ => ⟨⟨hs, hl⟩, hk⟩, fun ⟨⟨hs, hl⟩, hk⟩ => ⟨⟨hs, hk⟩, hl⟩⟩

theorem not_contains_of_isEmpty {range : KeyRange} (h : range.isEmpty = true) (key : Bytes) :
    range.contains key = false := by
  obtain ⟨start, limit⟩ := range
  cases limit with
  | none => simp [isEmpty] at h
  | some limit =>
      have hle : limit ≤ start := by simpa [isEmpty] using h
      apply Bool.eq_false_iff.mpr
      intro hmem
      obtain ⟨hstart, hlt⟩ := contains_iff.mp hmem
      have hkey : key < key := Std.lt_of_lt_of_le (hlt limit rfl) (Std.le_trans hle hstart)
      exact Std.lt_irrefl hkey

-- A range that is not empty has the key that it starts from.
theorem isEmpty_iff {range : KeyRange} :
    range.isEmpty = true ↔ ∀ key, range.contains key = false := by
  refine ⟨not_contains_of_isEmpty, fun hnone => ?_⟩
  obtain ⟨start, limit⟩ := range
  have hstart : ¬ ∀ other, limit = some other → start < other := fun hlimit =>
    Bool.eq_false_iff.mp (hnone start) (contains_iff.mpr ⟨Std.le_refl start, hlimit⟩)
  cases limit with
  | none => exact absurd (fun _ h => by contradiction) hstart
  | some limit =>
      refine decide_eq_true (Std.not_lt.mp fun hlt => hstart ?_)
      rintro _ ⟨⟩
      exact hlt

section Resume

-- The later one of two keys.
def laterKey (first second : Bytes) : Bytes := if first ≤ second then second else first

theorem laterKey_lt_iff {first second key : Bytes} :
    laterKey first second < key ↔ first < key ∧ second < key := by
  unfold laterKey
  split
  · rename_i hle
    exact ⟨fun h => ⟨Std.lt_of_le_of_lt hle h, h⟩, fun h => h.2⟩
  · rename_i hnot
    have hlt : second < first := Std.not_le.mp hnot
    exact ⟨fun h => ⟨h, Std.lt_trans hlt h⟩, fun h => h.1⟩

-- Both have the same lower bounds to their starts.
theorem after_after (range : KeyRange) (first second : Bytes) :
    (range.after first).after second = range.after (laterKey first second) := by
  have hstart : ∀ other, ((range.after first).after second).start ≤ other ↔
      (range.after (laterKey first second)).start ≤ other := by
    intro other
    rw [start_after_le_iff, start_after_le_iff, start_after_le_iff, laterKey_lt_iff, and_assoc]
  have hsame : ((range.after first).after second).start =
      (range.after (laterKey first second)).start :=
    Std.le_antisymm ((hstart _).mpr (Std.le_refl _)) ((hstart _).mp (Std.le_refl _))
  exact congrArg (KeyRange.mk · range.limit) hsame

-- A range is resumed behind a key with just the keys that are left, and behind two keys,
-- in whatever order, as behind the later one.
theorem resumes_after (range : KeyRange) :
    (∀ key other, (range.after key).contains other = true ↔
      range.contains other = true ∧ key < other) ∧
    (range.isEmpty = true ↔ ∀ key, range.contains key = false) ∧
    ∀ first second, (range.after first).after second = range.after (laterKey first second) :=
  ⟨fun _ _ => contains_after, isEmpty_iff, range.after_after⟩

end Resume

section Front

theorem eq_greatest {byte : UInt8} (h : ¬ byte < 255) : byte = 255 := by
  have hbound := byte.toNat_lt
  have hnat : ¬ byte.toNat < 255 := fun h' => h (UInt8.lt_iff_toNat_lt.mpr h')
  apply UInt8.toNat_inj.mp
  simp
  omega

-- Between bytes and the same bytes with the last one raised lie the keys that
-- begin with them.
theorem prefix_iff_of_raised {before key : Bytes} {last : UInt8} (hlast : last < 255) :
    (before ++ [last] ≤ key ∧ key < before ++ [last + 1]) ↔ before ++ [last] <+: key := by
  induction before generalizing key with
  | nil =>
      cases key with
      | nil => simp
      | cons byte key =>
          have hraised : (last + 1).toNat = last.toNat + 1 := by
            have hbound : last.toNat < 255 := UInt8.lt_iff_toNat_lt.mp hlast
            rw [UInt8.toNat_add]
            simp
            omega
          have hnil : ¬ key < [] := List.not_lt_nil _
          simp only [List.nil_append, List.cons_le_cons_iff, List.cons_lt_cons_iff, List.nil_le,
            and_true, hnil, and_false, or_false, List.cons_prefix_cons, List.nil_prefix,
            UInt8.lt_iff_toNat_lt, hraised, ← UInt8.toNat_inj]
          omega
  | cons byte before ih =>
      cases key with
      | nil => simp
      | cons other key =>
          simp only [List.cons_append, List.cons_le_cons_iff, List.cons_lt_cons_iff,
            List.cons_prefix_cons, ← ih]
          constructor
          · rintro ⟨hle | ⟨rfl, hle⟩, hlt | ⟨he, hlt⟩⟩
            · exact absurd (Std.lt_trans hle hlt) Std.lt_irrefl
            · exact absurd (he ▸ hle) Std.lt_irrefl
            · exact absurd hlt Std.lt_irrefl
            · exact ⟨rfl, hle, hlt⟩
          · rintro ⟨rfl, hle, hlt⟩
            exact ⟨.inr ⟨rfl, hle⟩, .inr ⟨rfl, hlt⟩⟩

-- A greatest byte at the end leaves the limit as it is.
theorem prefix_greatest_iff {before key : Bytes} :
    (before ++ [255] ≤ key ∧ before <+: key) ↔ before ++ [255] <+: key := by
  constructor
  · rintro ⟨hle, rest, rfl⟩
    have hrest : [255] ≤ rest := by
      rwa [← List.not_lt, Bytes.append_left_lt_iff, List.not_lt] at hle
    cases rest with
    | nil => simp at hrest
    | cons byte rest =>
        have hbyte : byte = 255 := by
          rcases List.cons_le_cons_iff.mp hrest with hlt | ⟨he, _⟩
          · have hmax := byte.toNat_lt
            have hnat : 255 < byte.toNat := UInt8.lt_iff_toNat_lt.mp hlt
            omega
          · exact he.symm
        exact ⟨rest, by simp [hbyte]⟩
  · rintro ⟨rest, rfl⟩
    refine ⟨List.le_append_left, ?_⟩
    rw [List.append_assoc]
    exact List.prefix_append _ _

-- The range of all keys that begin with some bytes has just these keys.
theorem contains_startingWith {front key : Bytes} :
    (startingWith front).contains key = true ↔ front <+: key := by
  suffices h : ∀ before : Bytes,
      (startingWith before.reverse).contains key = true ↔ before.reverse <+: key by
    simpa using h front.reverse
  intro before
  induction before with
  | nil => simp [contains_iff, startingWith, prefixSuccessor, raiseLast]
  | cons last before ih =>
      rw [List.reverse_cons]
      by_cases hlast : last < 255
      · rw [← prefix_iff_of_raised hlast]
        simp [contains_iff, startingWith, prefixSuccessor, raiseLast, hlast]
      · obtain rfl : last = 255 := eq_greatest hlast
        rw [← prefix_greatest_iff, ← ih]
        have hstart : before.reverse ++ [255] ≤ key → before.reverse ≤ key :=
          Std.le_trans List.le_append_left
        simp only [contains_iff, startingWith, prefixSuccessor, List.reverse_append,
          List.reverse_cons, List.reverse_nil, List.nil_append, List.singleton_append,
          List.reverse_reverse, raiseLast, hlast, if_false]
        exact ⟨fun ⟨hs, hl⟩ => ⟨hs, hstart hs, hl⟩, fun ⟨hs, _, hl⟩ => ⟨hs, hl⟩⟩

theorem lt_of_prefixSuccessor {front limit key : Bytes}
    (hlimit : prefixSuccessor front = some limit) (hkey : front <+: key) : key < limit :=
  (contains_iff.mp (contains_startingWith.mpr hkey)).2 limit hlimit

theorem raiseLast_eq_none_iff {before : Bytes} :
    raiseLast before = none ↔ ∀ byte ∈ before, byte = 255 := by
  induction before with
  | nil => simp [raiseLast]
  | cons last before ih =>
      rw [raiseLast, List.forall_mem_cons]
      by_cases hlast : last < 255
      · have hne : last ≠ 255 := fun he => Std.lt_irrefl (he ▸ hlast)
        simp [hlast, hne]
      · simp [ih, eq_greatest hlast]

theorem prefixSuccessor_eq_none_iff {front : Bytes} :
    prefixSuccessor front = none ↔ ∀ byte ∈ front, byte = 255 := by
  simp [prefixSuccessor, raiseLast_eq_none_iff]

-- Greater than every key that begins with some bytes.
def IsAbove (front bound : Bytes) : Prop := ∀ key, front <+: key → key < bound

-- What is above them is above the bytes themselves, and would begin with them if it came
-- before the limit.
theorem exists_le_of_isAbove {front bound : Bytes} (h : IsAbove front bound) :
    ∃ limit, prefixSuccessor front = some limit ∧ limit ≤ bound := by
  have hout : ¬ (startingWith front).contains bound = true := fun hmem =>
    Std.lt_irrefl (h bound (contains_startingWith.mp hmem))
  have hstart : front ≤ bound := Std.le_of_lt (h front (List.prefix_refl front))
  cases hlimit : prefixSuccessor front with
  | none =>
      refine absurd (contains_iff.mpr ⟨hstart, fun limit hsome => ?_⟩) hout
      cases hlimit.symm.trans hsome
  | some limit =>
      refine ⟨limit, rfl, Std.not_lt.mp fun hlt => hout (contains_iff.mpr ⟨hstart, ?_⟩)⟩
      intro other hsome
      cases hlimit.symm.trans hsome
      exact hlt

-- Where the keys that begin with some bytes end.
structure Ends (front : Bytes) (limit? : Option Bytes) : Prop where
  endless_iff : limit? = none ↔ ∀ byte ∈ front, byte = 255
  unbounded : limit? = none → ∀ bound, ¬ IsAbove front bound
  least : ∀ limit, limit? = some limit → IsLeast {bound | IsAbove front bound} limit

-- The limit is the least strict upper bound of the keys that begin with some bytes, and
-- together with these bytes it tells just those keys.
theorem ends_prefixSuccessor (front : Bytes) :
    Ends front (prefixSuccessor front) ∧
      ∀ key, (startingWith front).contains key = true ↔ front <+: key := by
  refine ⟨⟨prefixSuccessor_eq_none_iff, ?_, ?_⟩, fun key => contains_startingWith⟩
  · intro hnone bound habove
    obtain ⟨limit, hlimit, _⟩ := exists_le_of_isAbove habove
    cases hnone.symm.trans hlimit
  · intro limit hlimit
    refine ⟨fun _ hkey => lt_of_prefixSuccessor hlimit hkey, fun bound habove => ?_⟩
    obtain ⟨other, hother, hle⟩ := exists_le_of_isAbove habove
    cases hlimit.symm.trans hother
    exact hle

end Front

end Chronicle.KeyRange
