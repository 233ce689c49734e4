-- Finite maps kept as lists of entries with strictly ascending keys. The list
-- is the map: equal maps are equal lists, and a range of keys is a filter.

namespace Chronicle

variable {κ ν : Type}

-- Strictly ascending keys.
def Ascending [LT κ] (entries : List (κ × ν)) : Prop :=
  entries.Pairwise fun first second => first.1 < second.1

namespace Entries

variable [LT κ] [DecidableLT κ]

-- Puts an entry in its place, replacing the entry of the same key.
def insert (key : κ) (value : ν) : List (κ × ν) → List (κ × ν)
  | [] => [(key, value)]
  | (other, old) :: rest =>
      if key < other then (key, value) :: (other, old) :: rest
      else if other < key then (other, old) :: insert key value rest
      else (key, value) :: rest

def get? (key : κ) : List (κ × ν) → Option ν
  | [] => none
  | (other, value) :: rest =>
      if key < other then none
      else if other < key then get? key rest
      else some value

def erase (key : κ) (entries : List (κ × ν)) : List (κ × ν) :=
  entries.filter fun entry => decide (entry.1 < key) || decide (key < entry.1)

theorem mem_insert {key : κ} {value : ν} {entry : κ × ν} {entries : List (κ × ν)}
    (h : entry ∈ insert key value entries) : entry = (key, value) ∨ entry ∈ entries := by
  induction entries with
  | nil => simpa [insert] using h
  | cons head rest ih =>
      obtain ⟨other, old⟩ := head
      grind [insert]

theorem ascending_insert [LE κ] [Std.IsLinearOrder κ] [Std.LawfulOrderLT κ]
    (key : κ) (value : ν) {entries : List (κ × ν)} (h : Ascending entries) :
    Ascending (insert key value entries) := by
  induction entries with
  | nil => simp [insert, Ascending]
  | cons head rest ih =>
      obtain ⟨other, old⟩ := head
      have hr : Ascending rest := (List.pairwise_cons.mp h).2
      have hh := (List.pairwise_cons.mp h).1
      simp only [insert]
      split
      · rename_i hk
        refine List.pairwise_cons.mpr ⟨?_, h⟩
        intro entry he
        cases List.mem_cons.mp he with
        | inl he => subst he; exact hk
        | inr he => exact Std.lt_trans hk (hh entry he)
      · split
        · rename_i hk
          refine List.pairwise_cons.mpr ⟨?_, ih hr⟩
          intro entry he
          cases mem_insert he with
          | inl he => subst he; exact hk
          | inr he => exact hh entry he
        · rename_i hk ho
          have : key = other := Std.le_antisymm (Std.not_lt.mp ho) (Std.not_lt.mp hk)
          subst this
          exact List.pairwise_cons.mpr ⟨hh, hr⟩

end Entries

structure SortedMap (κ ν : Type) [LT κ] where
  toList : List (κ × ν)
  ascending : Ascending toList

namespace SortedMap

variable [LT κ]

def empty : SortedMap κ ν := ⟨[], List.Pairwise.nil⟩

instance : EmptyCollection (SortedMap κ ν) := ⟨empty⟩

instance : Inhabited (SortedMap κ ν) := ⟨empty⟩

instance [DecidableEq κ] [DecidableEq ν] : DecidableEq (SortedMap κ ν) :=
  fun first second =>
    decidable_of_iff (first.toList = second.toList)
      ⟨fun h => by cases first; cases second; simp_all, fun h => by rw [h]⟩

def keys (map : SortedMap κ ν) : List κ := map.toList.map (·.1)

def values (map : SortedMap κ ν) : List ν := map.toList.map (·.2)

def size (map : SortedMap κ ν) : Nat := map.toList.length

def isEmpty (map : SortedMap κ ν) : Bool := map.toList.isEmpty

-- The value of the greatest key.
def last? (map : SortedMap κ ν) : Option ν := map.toList.getLast?.map (·.2)

def filter (keep : κ → ν → Bool) (map : SortedMap κ ν) : SortedMap κ ν :=
  ⟨map.toList.filter fun entry => keep entry.1 entry.2, map.ascending.filter _⟩

variable [DecidableLT κ]

def get? (map : SortedMap κ ν) (key : κ) : Option ν := Entries.get? key map.toList

def contains (map : SortedMap κ ν) (key : κ) : Bool := (map.get? key).isSome

variable [LE κ] [Std.IsLinearOrder κ] [Std.LawfulOrderLT κ]

def insert (map : SortedMap κ ν) (key : κ) (value : ν) : SortedMap κ ν :=
  ⟨Entries.insert key value map.toList, Entries.ascending_insert key value map.ascending⟩

-- Later entries win.
def ofList (entries : List (κ × ν)) : SortedMap κ ν :=
  entries.foldl (fun map entry => map.insert entry.1 entry.2) empty

end SortedMap

end Chronicle
