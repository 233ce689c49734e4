import Chronicle.Proofs.Keyed
import Chronicle.Proofs.KeyRange
import Chronicle.Proofs.SortedMap
import Chronicle.Table
import Mathlib.Data.Set.Card

-- What the changes of a table do to its live entries. Tombstones are not seen.

namespace Chronicle

-- The cell that a change leaves, and where it leaves it.
def Mutation.key : Mutation → Bytes
  | .put key _ | .delete key => key

def Mutation.cell : Mutation → Cell
  | .put _ value => .live value
  | .delete _ => .tombstone

-- What the last change of a key leaves there.
def Batch.lastCell? (batch : Batch) (key : Bytes) : Option Cell :=
  (batch.reverse.find? fun change => change.key = key).map Mutation.cell

-- The changes that put in some entries.
def Batch.puts (entries : List (Bytes × Bytes)) : Batch :=
  entries.map fun entry => .put entry.1 entry.2

-- A key that is changed once gets what that change leaves.
theorem Batch.lastCell?_eq_some_iff {batch : Batch} (h : (batch.map Mutation.key).Nodup)
    {key : Bytes} {cell : Cell} :
    Batch.lastCell? batch key = some cell ↔
      ∃ change ∈ batch, change.key = key ∧ change.cell = cell := by
  have hreverse : (batch.reverse.map Mutation.key).Nodup := by
    rw [List.map_reverse]
    exact List.nodup_reverse.mpr h
  rw [Batch.lastCell?, Option.map_eq_some_iff]
  simp only [find?_key_eq_some_iff hreverse, List.mem_reverse, and_assoc]

theorem Batch.lastCell?_eq_none {batch : Batch} {key : Bytes}
    (h : ∀ change ∈ batch, change.key ≠ key) : Batch.lastCell? batch key = none := by
  rw [Batch.lastCell?, Option.map_eq_none_iff, List.find?_eq_none]
  intro change hchange
  simpa using h change (List.mem_reverse.mp hchange)

namespace Table

theorem mem_liveEntries {table : Table} {entry : Bytes × Bytes} :
    entry ∈ table.liveEntries ↔ (entry.1, Cell.live entry.2) ∈ table.toList := by
  obtain ⟨key, value⟩ := entry
  simp only [liveEntries, List.mem_filterMap, Option.map_eq_some_iff, Prod.mk.injEq]
  constructor
  · rintro ⟨⟨other, cell⟩, hmem, found, hvalue, rfl, rfl⟩
    cases cell with
    | live old =>
        cases hvalue
        exact hmem
    | tombstone => contradiction
  · intro hmem
    exact ⟨_, hmem, value, rfl, rfl, rfl⟩

theorem ascending_liveEntries (table : Table) : Ascending table.liveEntries := by
  refine List.pairwise_filterMap.mpr (table.ascending.imp ?_)
  intro first second hlt entry hentry other hother
  obtain ⟨_, _, rfl⟩ := Option.map_eq_some_iff.mp hentry
  obtain ⟨_, _, rfl⟩ := Option.map_eq_some_iff.mp hother
  exact hlt

theorem nodup_liveEntries (table : Table) : table.liveEntries.Nodup :=
  table.ascending_liveEntries.nodup

theorem length_liveEntries_le (table : Table) : table.liveEntries.length ≤ table.size :=
  List.length_filterMap_le _ _

theorem value?_eq_some_iff {table : Table} {key value : Bytes} :
    table.value? key = some value ↔ (key, value) ∈ table.liveEntries := by
  rw [mem_liveEntries, value?, Option.bind_eq_some_iff]
  constructor
  · rintro ⟨cell, hcell, hvalue⟩
    cases cell with
    | live old =>
        cases hvalue
        exact SortedMap.get?_eq_some_iff.mp hcell
    | tombstone => contradiction
  · intro hmem
    exact ⟨_, SortedMap.get?_eq_some_iff.mpr hmem, rfl⟩

theorem value?_eq_none_iff {table : Table} {key : Bytes} :
    table.value? key = none ↔ ∀ entry ∈ table.liveEntries, entry.1 ≠ key := by
  rw [Option.eq_none_iff_forall_ne_some]
  constructor
  · rintro h entry hmem rfl
    exact h entry.2 (value?_eq_some_iff.mpr hmem)
  · intro h value hvalue
    exact h _ (value?_eq_some_iff.mp hvalue) rfl

theorem value?_put_self (table : Table) (key value : Bytes) :
    (table.put key value).value? key = some value := by
  rw [value?, put, SortedMap.get?_insert_self]
  rfl

theorem value?_put_of_ne (table : Table) {key other : Bytes} (value : Bytes) (h : other ≠ key) :
    (table.put key value).value? other = table.value? other := by
  rw [value?, put, SortedMap.get?_insert_of_ne _ _ h]
  rfl

theorem liveEntries_put_perm (table : Table) (key value : Bytes) :
    (table.put key value).liveEntries.Perm
      ((key, value) :: table.liveEntries.filter fun entry => entry.1 ≠ key) := by
  have hnodup : ((key, value) :: table.liveEntries.filter fun entry => entry.1 ≠ key).Nodup := by
    refine List.nodup_cons.mpr ⟨fun hmem => ?_, table.nodup_liveEntries.filter _⟩
    simpa using (List.mem_filter.mp hmem).2
  apply (List.perm_ext_iff_of_nodup (nodup_liveEntries _) hnodup).mpr
  intro entry
  obtain ⟨other, old⟩ := entry
  simp [mem_liveEntries, put, SortedMap.mem_insert_iff]

-- A key that was not live adds an entry.
theorem length_liveEntries_put (table : Table) (key value : Bytes) :
    (table.put key value).liveEntries.length =
      table.liveEntries.length + if (table.value? key).isNone then 1 else 0 := by
  have hsplit := List.length_eq_countP_add_countP (fun entry => decide (entry.1 = key))
    (l := table.liveEntries)
  have hothers : (table.liveEntries.filter fun entry => entry.1 ≠ key).length =
      table.liveEntries.countP fun entry => ¬ decide (entry.1 = key) = true := by
    simp [List.countP_eq_length_filter]
  have hthere : table.liveEntries.countP (fun entry => decide (entry.1 = key)) =
      if (table.value? key).isNone then 0 else 1 := by
    have hcount := List.Nodup.count table.ascending_liveEntries.nodup_keys (a := key)
    rw [List.count_eq_countP, List.countP_map] at hcount
    have hmem : key ∈ table.liveEntries.map (·.1) ↔ ¬ (table.value? key).isNone = true := by
      rw [Option.isNone_iff_eq_none, value?_eq_none_iff]
      simp
    have hsame : table.liveEntries.countP (fun entry => decide (entry.1 = key)) =
        table.liveEntries.countP ((fun other => other == key) ∘ (·.1)) := by
      apply List.countP_congr
      intro entry _
      simp
    rw [hsame, hcount]
    by_cases hnone : (table.value? key).isNone = true
    · simp [hmem, hnone]
    · simp [hmem, hnone]
  have hput := (table.liveEntries_put_perm key value).length_eq
  rw [List.length_cons, hothers] at hput
  by_cases hnone : (table.value? key).isNone = true
  · rw [if_pos hnone] at hthere ⊢
    omega
  · rw [if_neg hnone] at hthere ⊢
    omega

theorem liveEntries_delete_perm (table : Table) (key : Bytes) :
    (table.delete key).liveEntries.Perm (table.liveEntries.filter fun entry => entry.1 ≠ key) := by
  refine (List.perm_ext_iff_of_nodup (nodup_liveEntries _)
    (table.nodup_liveEntries.filter _)).mpr fun entry => ?_
  obtain ⟨other, old⟩ := entry
  simp [mem_liveEntries, delete, SortedMap.mem_insert_iff]

theorem liveEntries_applyAll_delete_perm (table : Table) (keys : List Bytes) :
    (table.applyAll (keys.map Mutation.delete)).liveEntries.Perm
      (table.liveEntries.filter fun entry => entry.1 ∉ keys) := by
  induction keys generalizing table with
  | nil => simp [applyAll]
  | cons key keys ih =>
      have hrest := ih (table.delete key)
      have hfirst := (table.liveEntries_delete_perm key).filter fun entry => entry.1 ∉ keys
      have hboth : (table.liveEntries.filter fun entry => entry.1 ≠ key).filter
          (fun entry => entry.1 ∉ keys) =
          table.liveEntries.filter fun entry => entry.1 ∉ key :: keys := by
        rw [List.filter_filter]
        apply List.filter_congr
        intro entry _
        simp [Bool.and_comm]
      rw [hboth] at hfirst
      exact hrest.trans hfirst

theorem liveEntries_deletes_subset (table : Table) (keys : List Bytes) :
    (table.applyAll (keys.map Mutation.delete)).liveEntries ⊆ table.liveEntries := by
  intro entry hentry
  exact (List.mem_filter.mp ((table.liveEntries_applyAll_delete_perm keys).subset hentry)).1

theorem liveEntries_compact (table : Table) : table.compact.liveEntries = table.liveEntries := by
  have htail : ∀ cells : List (Bytes × Cell),
      (cells.filter fun entry => entry.2.isLive).filterMap
        (fun entry => entry.2.value?.map fun value => (entry.1, value)) =
      cells.filterMap fun entry => entry.2.value?.map fun value => (entry.1, value) := by
    intro cells
    induction cells with
    | nil => rfl
    | cons cell cells ih =>
        obtain ⟨key, cell⟩ := cell
        cases cell with
        | live value => simpa [Cell.isLive, Cell.value?] using ih
        | tombstone => simpa [Cell.isLive, Cell.value?] using ih
  exact htail table.toList

theorem size_compact_le (table : Table) : table.compact.size ≤ table.size :=
  List.length_filter_le _ _

theorem live_stats (table : Table) : table.stats.live = table.liveEntries.length := by
  have htail : ∀ cells : List (Bytes × Cell),
      (cells.countP fun entry => entry.2.isLive) =
      (cells.filterMap fun entry => entry.2.value?.map fun value => (entry.1, value)).length := by
    intro cells
    induction cells with
    | nil => rfl
    | cons cell cells ih =>
        obtain ⟨key, cell⟩ := cell
        cases cell with
        | live value => simpa [Cell.isLive, Cell.value?] using ih
        | tombstone => simpa [Cell.isLive, Cell.value?] using ih
  exact htail table.toList

section Cells

theorem get?_apply (table : Table) (change : Mutation) (key : Bytes) :
    (table.apply change).get? key =
      if key = change.key then some change.cell else table.get? key := by
  cases change with
  | put other value => exact SortedMap.get?_insert table other key _
  | delete other => exact SortedMap.get?_insert table other key _

theorem get?_applyAll (table : Table) (batch : Batch) (key : Bytes) :
    (table.applyAll batch).get? key = (Batch.lastCell? batch key).or (table.get? key) := by
  induction batch generalizing table with
  | nil => rfl
  | cons change rest ih =>
      have hrest := ih (table.apply change)
      rw [get?_apply] at hrest
      have hlast : Batch.lastCell? (change :: rest) key =
          (Batch.lastCell? rest key).or (if key = change.key then some change.cell else none) := by
        rw [Batch.lastCell?, List.reverse_cons, List.find?_append, Option.map_or]
        refine congrArg _ ?_
        by_cases hkey : change.key = key
        · simp [hkey]
        · simp [hkey, Ne.symm hkey]
      rw [hlast, Option.or_assoc]
      refine hrest.trans (congrArg _ ?_)
      split <;> rfl

-- What has been done does not matter when it is done again.
theorem applyAll_applyAll (table : Table) (batch : Batch) :
    (table.applyAll batch).applyAll batch = table.applyAll batch := by
  apply SortedMap.ext_get?
  intro key
  rw [get?_applyAll, get?_applyAll, ← Option.or_assoc, Option.or_self]

-- Changes of different keys may come in any order.
theorem applyAll_of_perm (table : Table) {batch batch' : Batch} (hperm : batch.Perm batch')
    (hkeys : (batch.map Mutation.key).Nodup) : table.applyAll batch = table.applyAll batch' := by
  have hkeys' : (batch'.map Mutation.key).Nodup := (hperm.map Mutation.key).nodup_iff.mp hkeys
  apply SortedMap.ext_get?
  intro key
  have hcell : Batch.lastCell? batch key = Batch.lastCell? batch' key := by
    apply Option.ext
    intro cell
    rw [Batch.lastCell?_eq_some_iff hkeys, Batch.lastCell?_eq_some_iff hkeys']
    exact exists_congr fun change => and_congr_left fun _ => hperm.mem_iff
  rw [get?_applyAll, get?_applyAll, hcell]

theorem get?_compact (table : Table) (key : Bytes) :
    table.compact.get? key = (table.get? key).filter Cell.isLive :=
  SortedMap.get?_filter table _ key

-- Cells are counted by their keys.
theorem encard_cells (table : Table) (holds : Cell → Bool) :
    {key | ∃ cell, table.get? key = some cell ∧ holds cell = true}.encard =
      table.toList.countP fun entry => holds entry.2 := by
  have hkeys : {key | ∃ cell, table.get? key = some cell ∧ holds cell = true} =
      ((table.toList.filter fun entry => holds entry.2).map (·.1)).toFinset := by
    ext key
    simp [SortedMap.get?_eq_some_iff]
  have hnodup : ((table.toList.filter fun entry => holds entry.2).map (·.1)).Nodup :=
    table.ascending.nodup_keys.sublist (List.filter_sublist.map _)
  rw [hkeys, Set.encard_coe_eq_coe_finsetCard, List.toFinset_card_of_nodup hnodup,
    List.length_map, List.countP_eq_length_filter]

end Cells

section Deletes

variable {keys : List Bytes}

theorem get?_applyAll_deletes (table : Table) (keys : List Bytes) (key : Bytes) :
    (table.applyAll (keys.map Mutation.delete)).get? key =
      if key ∈ keys then some .tombstone else table.get? key := by
  induction keys generalizing table with
  | nil => rfl
  | cons other keys ih =>
      have hfirst : (table.delete other).get? key =
          if key = other then some .tombstone else table.get? key :=
        table.get?_apply (.delete other) key
      refine (ih (table.delete other)).trans ?_
      rw [hfirst]
      by_cases hkeys : key ∈ keys
      · simp [hkeys]
      · simp [hkeys]

theorem value?_ne_none_iff {table : Table} {key : Bytes} :
    table.value? key ≠ none ↔ ∃ cell, table.get? key = some cell ∧ cell.isLive = true := by
  rw [value?]
  cases table.get? key with
  | none => simp
  | some cell => simp [Cell.isLive, Option.isSome_iff_ne_none]

-- Cells of one kind are one more for each key that is added to them.
theorem countP_eq_add_length {table table' : Table} (holds : Cell → Bool) (hkeys : keys.Nodup)
    (hmem : ∀ key, (∃ cell, table'.get? key = some cell ∧ holds cell = true) ↔
      (∃ cell, table.get? key = some cell ∧ holds cell = true) ∨ key ∈ keys)
    (hnew : ∀ key ∈ keys, ¬ ∃ cell, table.get? key = some cell ∧ holds cell = true) :
    (table'.toList.countP fun entry => holds entry.2) =
      (table.toList.countP fun entry => holds entry.2) + keys.length := by
  have hset : {key | ∃ cell, table'.get? key = some cell ∧ holds cell = true} =
      {key | ∃ cell, table.get? key = some cell ∧ holds cell = true} ∪
        (keys.toFinset : Set Bytes) := by
    ext key
    simpa using hmem key
  have hdisjoint : Disjoint {key | ∃ cell, table.get? key = some cell ∧ holds cell = true}
      (keys.toFinset : Set Bytes) := by
    refine Set.disjoint_left.mpr fun key hheld hkey => hnew key ?_ hheld
    simpa using hkey
  have hcount := Set.encard_union_eq hdisjoint
  rw [← hset, encard_cells, encard_cells, Set.encard_coe_eq_coe_finsetCard,
    List.toFinset_card_of_nodup hkeys] at hcount
  exact_mod_cast hcount

-- Live keys that are deleted turn into as many tombstones.
theorem stats_applyAll_deletes (table : Table) (hkeys : keys.Nodup)
    (hlive : ∀ key ∈ keys, table.value? key ≠ none) :
    table.stats.live = (table.applyAll (keys.map Mutation.delete)).stats.live + keys.length ∧
      (table.applyAll (keys.map Mutation.delete)).stats.tombstones =
        table.stats.tombstones + keys.length := by
  have hafter := table.get?_applyAll_deletes keys
  constructor
  · refine countP_eq_add_length Cell.isLive hkeys (fun key => ?_) fun key hkey => ?_
    · by_cases hkey : key ∈ keys
      · simpa [hafter, hkey] using value?_ne_none_iff.mp (hlive key hkey)
      · simp [hafter, hkey]
    · simp [hafter, hkey, Cell.isLive, Cell.value?]
  · refine countP_eq_add_length (fun cell => !cell.isLive) hkeys (fun key => ?_) fun key hkey => ?_
    · by_cases hkey : key ∈ keys
      · simp [hafter, hkey, Cell.isLive, Cell.value?]
      · simp [hafter, hkey]
    · obtain ⟨cell, hcell, hlives⟩ := value?_ne_none_iff.mp (hlive key hkey)
      simp [hcell, hlives]

end Deletes

section Puts

variable {entries : List (Bytes × Bytes)}

theorem map_key_puts (entries : List (Bytes × Bytes)) :
    (Batch.puts entries).map Mutation.key = entries.map (·.1) := by
  simp [Batch.puts, Mutation.key, Function.comp_def]

theorem get?_applyAll_puts_of_mem (table : Table) (hkeys : (entries.map (·.1)).Nodup)
    {entry : Bytes × Bytes} (hentry : entry ∈ entries) :
    (table.applyAll (Batch.puts entries)).get? entry.1 = some (.live entry.2) := by
  have hlast : Batch.lastCell? (Batch.puts entries) entry.1 = some (.live entry.2) := by
    apply (Batch.lastCell?_eq_some_iff (by rwa [map_key_puts])).mpr
    exact ⟨.put entry.1 entry.2, List.mem_map.mpr ⟨entry, hentry, rfl⟩, rfl, rfl⟩
  rw [get?_applyAll, hlast, Option.some_or]

theorem get?_applyAll_puts_of_not_mem (table : Table) {key : Bytes}
    (h : key ∉ entries.map (·.1)) :
    (table.applyAll (Batch.puts entries)).get? key = table.get? key := by
  have hlast : Batch.lastCell? (Batch.puts entries) key = none := by
    apply Batch.lastCell?_eq_none
    intro change hchange hkey
    apply h
    rw [← map_key_puts, ← hkey]
    exact List.mem_map_of_mem hchange
  rw [get?_applyAll, hlast, Option.none_or]

-- By induction on the entries: an entry does not make the key of a later one live.
theorem length_liveEntries_puts (table : Table) (hkeys : (entries.map (·.1)).Nodup) :
    (table.applyAll (Batch.puts entries)).liveEntries.length =
      table.liveEntries.length + entries.countP fun entry => (table.value? entry.1).isNone := by
  induction entries generalizing table with
  | nil => rfl
  | cons entry rest ih =>
      rw [List.map_cons, List.nodup_cons] at hkeys
      have hstep : table.applyAll (Batch.puts (entry :: rest)) =
          (table.put entry.1 entry.2).applyAll (Batch.puts rest) := rfl
      have hothers : rest.countP (fun other =>
          ((table.put entry.1 entry.2).value? other.1).isNone) =
          rest.countP fun other => (table.value? other.1).isNone := by
        apply List.countP_congr
        intro other hother
        have hne : other.1 ≠ entry.1 := by
          intro hsame
          apply hkeys.1
          rw [← hsame]
          exact List.mem_map_of_mem hother
        rw [value?_put_of_ne table entry.2 hne]
      rw [hstep, ih _ hkeys.2, length_liveEntries_put, hothers, List.countP_cons]
      omega

end Puts

section Ranges

theorem mem_liveIn {table : Table} {range : KeyRange} {entry : Bytes × Bytes} :
    entry ∈ table.liveIn range ↔ entry ∈ table.liveEntries ∧ range.contains entry.1 = true :=
  List.mem_filter

theorem ascending_liveIn (table : Table) (range : KeyRange) : Ascending (table.liveIn range) :=
  table.ascending_liveEntries.filter _

theorem length_liveIn_le (table : Table) (range : KeyRange) :
    (table.liveIn range).length ≤ table.size :=
  Nat.le_trans (List.length_filter_le _ _) table.length_liveEntries_le

-- The entries of a range are those that are found under its keys.
theorem liveIn_congr {first second : Table} {range : KeyRange}
    (h : ∀ key, range.contains key = true → first.value? key = second.value? key) :
    first.liveIn range = second.liveIn range := by
  refine (first.ascending_liveIn range).eq_of_mem_iff (second.ascending_liveIn range) ?_
  intro entry
  rw [mem_liveIn, mem_liveIn]
  refine and_congr_left fun hcontains => ?_
  rw [← value?_eq_some_iff, ← value?_eq_some_iff, h entry.1 hcontains]

-- The table without anything but the live entries of a range.
def within (table : Table) (range : KeyRange) : Table :=
  table.filter fun key cell => range.contains key && cell.isLive

theorem value?_within (table : Table) {range : KeyRange} {key : Bytes}
    (h : range.contains key = true) : (table.within range).value? key = table.value? key := by
  rw [value?, value?, within, SortedMap.get?_filter, h]
  cases table.get? key with
  | none => rfl
  | some cell =>
      cases cell with
      | live value => rfl
      | tombstone => rfl

theorem size_within (table : Table) (range : KeyRange) :
    (table.within range).size = (table.liveIn range).length := by
  have htail : ∀ cells : List (Bytes × Cell),
      (cells.filter fun entry => range.contains entry.1 && entry.2.isLive).length =
        ((cells.filterMap fun entry => entry.2.value?.map fun value => (entry.1, value)).filter
          fun entry => range.contains entry.1).length := by
    intro cells
    induction cells with
    | nil => rfl
    | cons cell cells ih =>
        obtain ⟨key, cell⟩ := cell
        cases cell with
        | live value =>
            by_cases hcontains : range.contains key = true
            · simpa [Cell.isLive, Cell.value?, hcontains] using ih
            · simpa [Cell.isLive, Cell.value?, hcontains] using ih
        | tombstone => simpa [Cell.isLive, Cell.value?] using ih
  exact htail table.toList

theorem liveIn_after (table : Table) (range : KeyRange) (key : Bytes) :
    table.liveIn (range.after key) =
      (table.liveIn range).filter fun entry => decide (key < entry.1) := by
  rw [liveIn, liveIn, List.filter_filter]
  apply List.filter_congr
  intro entry _
  rw [Bool.eq_iff_iff, Bool.and_eq_true, decide_eq_true_eq, KeyRange.contains_after]
  exact and_comm

theorem liveIn_of_isEmpty (table : Table) {range : KeyRange} (h : range.isEmpty = true) :
    table.liveIn range = [] := by
  apply List.filter_eq_nil_iff.mpr
  intro entry _
  simp [KeyRange.not_contains_of_isEmpty h]

end Ranges

end Table

end Chronicle
