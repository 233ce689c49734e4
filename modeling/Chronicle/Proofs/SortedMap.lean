import Chronicle.SortedMap
import Mathlib.Data.List.Nodup

-- Sorted maps as sets of entries with different keys.

namespace Chronicle

variable {κ ν : Type} [LT κ] [LE κ] [Std.IsLinearOrder κ] [Std.LawfulOrderLT κ]

namespace Ascending

variable {entries : List (κ × ν)}

omit [Std.IsLinearOrder κ] in
theorem nodup_keys (h : Ascending entries) : (entries.map (·.1)).Nodup :=
  List.pairwise_map.mpr (h.imp fun hlt => Std.ne_of_lt hlt)

omit [Std.IsLinearOrder κ] in
theorem nodup (h : Ascending entries) : entries.Nodup := h.nodup_keys.of_map

-- Entries in their order are told apart by what they are.
theorem eq_of_mem_iff {other : List (κ × ν)} (h : Ascending entries) (h' : Ascending other)
    (hmem : ∀ entry, entry ∈ entries ↔ entry ∈ other) : entries = other := by
  have hperm : entries.Perm other := (List.perm_ext_iff_of_nodup h.nodup h'.nodup).mpr hmem
  refine hperm.eq_of_pairwise ?_ h h'
  intro _ _ _ _ hlt hgt
  exact absurd (Std.lt_trans hlt hgt) Std.lt_irrefl

end Ascending

namespace Entries

variable [DecidableLT κ] {entries : List (κ × ν)}

theorem get?_eq_some_iff (h : Ascending entries) {key : κ} {value : ν} :
    get? key entries = some value ↔ (key, value) ∈ entries := by
  induction entries with
  | nil => simp [get?]
  | cons head rest ih =>
      obtain ⟨other, old⟩ := head
      have hrest : Ascending rest := (List.pairwise_cons.mp h).2
      have hhead := (List.pairwise_cons.mp h).1
      rw [get?]
      split
      · rename_i hlt
        simp only [List.mem_cons, Prod.mk.injEq, reduceCtorEq, false_iff, not_or, not_and]
        constructor
        · rintro rfl
          exact absurd hlt Std.lt_irrefl
        · intro hmem
          exact Std.lt_irrefl (Std.lt_trans hlt (hhead _ hmem))
      · split
        · rename_i hlt
          have hne : key ≠ other := fun he => Std.lt_irrefl (he ▸ hlt)
          simp [ih hrest, hne]
        · rename_i hle hge
          have he : key = other := Std.le_antisymm (Std.not_lt.mp hge) (Std.not_lt.mp hle)
          subst he
          have hnone : (key, value) ∉ rest := fun hmem => Std.lt_irrefl (hhead (key, value) hmem)
          simp [hnone, eq_comm]

theorem mem_insert_iff (h : Ascending entries) {key : κ} {value : ν} {entry : κ × ν} :
    entry ∈ insert key value entries ↔
      entry = (key, value) ∨ (entry ∈ entries ∧ entry.1 ≠ key) := by
  induction entries with
  | nil => simp [insert]
  | cons head rest ih =>
      obtain ⟨other, old⟩ := head
      have hrest : Ascending rest := (List.pairwise_cons.mp h).2
      have hhead := (List.pairwise_cons.mp h).1
      rw [insert]
      split
      · rename_i hlt
        have hne : ∀ e ∈ (other, old) :: rest, e.1 ≠ key := by
          rintro e he rfl
          rcases List.mem_cons.mp he with rfl | he
          · exact Std.lt_irrefl hlt
          · exact Std.lt_irrefl (Std.lt_trans hlt (hhead _ he))
        rw [List.mem_cons]
        exact or_congr_right ⟨fun he => ⟨he, hne _ he⟩, fun he => he.1⟩
      · split
        · rename_i hlt
          have hne : other ≠ key := Std.ne_of_lt hlt
          simp only [List.mem_cons, ih hrest]
          constructor
          · rintro (rfl | rfl | ⟨he, hk⟩)
            · exact .inr ⟨.inl rfl, hne⟩
            · exact .inl rfl
            · exact .inr ⟨.inr he, hk⟩
          · rintro (rfl | ⟨rfl | he, hk⟩)
            · exact .inr (.inl rfl)
            · exact .inl rfl
            · exact .inr (.inr ⟨he, hk⟩)
        · rename_i hle hge
          have he : key = other := Std.le_antisymm (Std.not_lt.mp hge) (Std.not_lt.mp hle)
          subst he
          have hne : ∀ e ∈ rest, e.1 ≠ key := fun e he => (Std.ne_of_lt (hhead e he)).symm
          simp only [List.mem_cons]
          constructor
          · rintro (rfl | hmem)
            · exact .inl rfl
            · exact .inr ⟨.inr hmem, hne _ hmem⟩
          · rintro (rfl | ⟨rfl | hmem, hk⟩)
            · exact .inl rfl
            · exact absurd rfl hk
            · exact .inr hmem

-- A key beyond all others goes to the end.
theorem insert_of_last {key : κ} (value : ν) (h : ∀ entry ∈ entries, entry.1 < key) :
    insert key value entries = entries ++ [(key, value)] := by
  induction entries with
  | nil => rfl
  | cons head rest ih =>
      obtain ⟨other, old⟩ := head
      have hlt : other < key := h _ List.mem_cons_self
      rw [insert, if_neg (Std.not_lt.mpr (Std.le_of_lt hlt)), if_pos hlt,
        ih fun entry he => h entry (List.mem_cons_of_mem _ he)]
      rfl

end Entries

namespace SortedMap

variable [DecidableLT κ]

theorem get?_eq_some_iff {map : SortedMap κ ν} {key : κ} {value : ν} :
    map.get? key = some value ↔ (key, value) ∈ map.toList :=
  Entries.get?_eq_some_iff map.ascending

theorem get?_eq_none_iff {map : SortedMap κ ν} {key : κ} :
    map.get? key = none ↔ ∀ entry ∈ map.toList, entry.1 ≠ key := by
  rw [Option.eq_none_iff_forall_ne_some]
  constructor
  · rintro h entry hmem rfl
    exact h entry.2 (get?_eq_some_iff.mpr hmem)
  · intro h value hvalue
    exact h _ (get?_eq_some_iff.mp hvalue) rfl

theorem mem_insert_iff {map : SortedMap κ ν} {key : κ} {value : ν} {entry : κ × ν} :
    entry ∈ (map.insert key value).toList ↔
      entry = (key, value) ∨ (entry ∈ map.toList ∧ entry.1 ≠ key) :=
  Entries.mem_insert_iff map.ascending

theorem get?_insert_self (map : SortedMap κ ν) (key : κ) (value : ν) :
    (map.insert key value).get? key = some value :=
  get?_eq_some_iff.mpr (mem_insert_iff.mpr (.inl rfl))

theorem get?_insert_of_ne (map : SortedMap κ ν) {key other : κ} (value : ν) (h : other ≠ key) :
    (map.insert key value).get? other = map.get? other := by
  apply Option.ext
  intro found
  rw [get?_eq_some_iff, get?_eq_some_iff, mem_insert_iff]
  simp [h]

omit [DecidableLT κ] in
-- Maps are told apart by their entries.
theorem ext_mem {first second : SortedMap κ ν}
    (h : ∀ entry, entry ∈ first.toList ↔ entry ∈ second.toList) : first = second := by
  have heq : first.toList = second.toList := first.ascending.eq_of_mem_iff second.ascending h
  cases first
  cases second
  cases heq
  rfl

theorem insert_insert (map : SortedMap κ ν) (key : κ) (old value : ν) :
    (map.insert key old).insert key value = map.insert key value := by
  apply ext_mem
  intro entry
  simp only [mem_insert_iff]
  constructor
  · rintro (hnew | ⟨hold | ⟨hmem, _⟩, hne⟩)
    · exact .inl hnew
    · exact absurd (congrArg Prod.fst hold) hne
    · exact .inr ⟨hmem, hne⟩
  · rintro (hnew | ⟨hmem, hne⟩)
    · exact .inl hnew
    · exact .inr ⟨.inr ⟨hmem, hne⟩, hne⟩

theorem contains_iff {map : SortedMap κ ν} {key : κ} :
    map.contains key = true ↔ ∃ value, (key, value) ∈ map.toList := by
  simp only [contains, Option.isSome_iff_exists, get?_eq_some_iff]

-- Maps are told apart by what is found in them.
theorem ext_get? {first second : SortedMap κ ν} (h : ∀ key, first.get? key = second.get? key) :
    first = second := by
  apply ext_mem
  rintro ⟨key, value⟩
  rw [← get?_eq_some_iff, ← get?_eq_some_iff, h]

theorem get?_insert (map : SortedMap κ ν) (key other : κ) (value : ν) [DecidableEq κ] :
    (map.insert key value).get? other = if other = key then some value else map.get? other := by
  by_cases h : other = key
  · rw [if_pos h, h, get?_insert_self]
  · rw [if_neg h, get?_insert_of_ne _ _ h]

theorem get?_filter (map : SortedMap κ ν) (keep : κ → ν → Bool) (key : κ) :
    (map.filter keep).get? key = (map.get? key).filter (keep key) := by
  apply Option.ext
  intro value
  rw [get?_eq_some_iff, Option.filter_eq_some_iff, get?_eq_some_iff]
  exact List.mem_filter

end SortedMap

namespace Entries

variable [DecidableLT κ] {entries : List (κ × ν)} {key : κ}

omit [LE κ] [Std.IsLinearOrder κ] [Std.LawfulOrderLT κ] in
theorem ascending_erase (key : κ) (h : Ascending entries) : Ascending (erase key entries) :=
  h.filter _

theorem mem_erase {entry : κ × ν} :
    entry ∈ erase key entries ↔ entry ∈ entries ∧ entry.1 ≠ key := by
  rw [erase, List.mem_filter, Bool.or_eq_true, decide_eq_true_eq, decide_eq_true_eq]
  apply and_congr_right
  intro _
  constructor
  · rintro (hlt | hlt) rfl <;> exact Std.lt_irrefl hlt
  · intro hne
    rcases Std.lt_trichotomy entry.1 key with hlt | heq | hgt
    · exact .inl hlt
    · exact absurd heq hne
    · exact .inr hgt

variable [DecidableEq κ]

theorem get?_erase (h : Ascending entries) (other : κ) :
    get? other (erase key entries) = if other = key then none else get? other entries := by
  apply Option.ext
  intro value
  rw [get?_eq_some_iff (ascending_erase key h), mem_erase]
  by_cases hkey : other = key
  · simp [hkey]
  · simp [hkey, get?_eq_some_iff h]

theorem get?_insert (h : Ascending entries) (other : κ) (value : ν) :
    get? other (insert key value entries) =
      if other = key then some value else get? other entries :=
  SortedMap.get?_insert ⟨entries, h⟩ key other value

omit [DecidableEq κ] in
theorem eq_of_get?_eq {first second : List (κ × ν)} (h : Ascending first) (h' : Ascending second)
    (hget : ∀ key, get? key first = get? key second) : first = second := by
  have heq : SortedMap.mk first h = SortedMap.mk second h' := SortedMap.ext_get? hget
  exact congrArg SortedMap.toList heq

theorem insert_of_get? (h : Ascending entries) {value : ν} (hget : get? key entries = some value) :
    insert key value entries = entries := by
  refine eq_of_get?_eq (ascending_insert key value h) h fun other => ?_
  rw [get?_insert h]
  split
  · rename_i hkey
    rw [hkey, hget]
  · rfl

theorem erase_of_get? (h : Ascending entries) (hget : get? key entries = none) :
    erase key entries = entries := by
  refine eq_of_get?_eq (ascending_erase key h) h fun other => ?_
  rw [get?_erase h]
  split
  · rename_i hkey
    rw [hkey, hget]
  · rfl

theorem insert_erase (h : Ascending entries) {value : ν} (hget : get? key entries = some value) :
    insert key value (erase key entries) = entries := by
  refine eq_of_get?_eq (ascending_insert key value (ascending_erase key h)) h fun other => ?_
  rw [get?_insert (ascending_erase key h), get?_erase h]
  split
  · rename_i hkey
    rw [hkey, hget]
  · rfl

omit [DecidableEq κ] in
theorem insert_insert (h : Ascending entries) (old value : ν) :
    insert key value (insert key old entries) = insert key value entries :=
  congrArg SortedMap.toList (SortedMap.insert_insert ⟨entries, h⟩ key old value)

end Entries

end Chronicle
