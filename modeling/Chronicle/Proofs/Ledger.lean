import Chronicle.Proofs.Keyed
import Chronicle.Proofs.RecordKey

-- What is expected of a store: the records that were written and not deleted
-- since, one at most for an entity and an instant.

namespace Chronicle

structure Ledger where
  records : List Record
  unique : (records.map RecordKey.of).Nodup

namespace Ledger

def empty : Ledger := ⟨[], .nil⟩

-- The record of an entity at an instant.
def get? (ledger : Ledger) (key : RecordKey) : Option Record :=
  ledger.records.find? fun record => RecordKey.of record = key

-- The records whose keys are kept.
def filter (keep : RecordKey → Bool) (ledger : Ledger) : Ledger :=
  ⟨ledger.records.filter fun record => keep (RecordKey.of record),
    ledger.unique.sublist (List.filter_sublist.map _)⟩

def erase (ledger : Ledger) (key : RecordKey) : Ledger := ledger.filter fun other => other ≠ key

def eraseEntity (ledger : Ledger) (entity : String) : Ledger :=
  ledger.filter fun key => key.entity ≠ entity

theorem not_mem_erase (ledger : Ledger) (key : RecordKey) :
    key ∉ (ledger.erase key).records.map RecordKey.of := by
  intro hmem
  obtain ⟨record, hrecord, hkey⟩ := List.mem_map.mp hmem
  have hkept := (List.mem_filter.mp hrecord).2
  simp [hkey] at hkept

-- A record replaces the one of its key.
def put (ledger : Ledger) (record : Record) : Ledger :=
  ⟨record :: (ledger.erase (RecordKey.of record)).records,
    List.nodup_cons.mpr ⟨ledger.not_mem_erase _, (ledger.erase (RecordKey.of record)).unique⟩⟩

-- The records of an entity within a span of time, in the order of time.
def within (ledger : Ledger) (entity : String) (span : TimeSpan) : List Record :=
  (ledger.records.filter fun record => record.entity = entity ∧
    span.contains record.timestamp.micros).mergeSort
      fun first second => first.timestamp.micros ≤ second.timestamp.micros

variable {ledger : Ledger} {key : RecordKey} {record : Record}

theorem get?_eq_some_iff :
    ledger.get? key = some record ↔ record ∈ ledger.records ∧ RecordKey.of record = key :=
  find?_key_eq_some_iff ledger.unique

theorem get?_eq_none_iff :
    ledger.get? key = none ↔ ∀ record ∈ ledger.records, RecordKey.of record ≠ key := by
  simp [get?]

theorem mem_within {entity : String} {span : TimeSpan} :
    record ∈ ledger.within entity span ↔
      record ∈ ledger.records ∧ record.entity = entity ∧
        span.contains record.timestamp.micros = true := by
  simp [within]

-- No two records of an entity are of one instant.
theorem pairwise_within (ledger : Ledger) (entity : String) (span : TimeSpan) :
    (ledger.within entity span).Pairwise fun first second =>
      first.timestamp.micros < second.timestamp.micros := by
  have hsorted : (ledger.within entity span).Pairwise fun first second =>
      decide (first.timestamp.micros ≤ second.timestamp.micros) := by
    refine List.pairwise_mergeSort ?_ ?_ _
    · intro first second third h h'
      rw [decide_eq_true_eq] at h h' ⊢
      exact Int64.le_trans h h'
    · intro first second
      rw [Bool.or_eq_true, decide_eq_true_eq, decide_eq_true_eq]
      exact Int64.le_total _ _
  have hnodup : ((ledger.within entity span).map RecordKey.of).Nodup :=
    ((List.mergeSort_perm _ _).map _).nodup_iff.mpr
      (ledger.unique.sublist (List.filter_sublist.map _))
  have hkeys := hsorted.and (List.pairwise_map.mp hnodup)
  refine hkeys.imp_of_mem fun hfirst hsecond h => ?_
  obtain ⟨hle, hne⟩ := h
  rw [decide_eq_true_eq] at hle
  refine Std.lt_of_le_of_ne hle fun hmicros => hne ?_
  obtain ⟨_, hentity, _⟩ := mem_within.mp hfirst
  obtain ⟨_, hentity', _⟩ := mem_within.mp hsecond
  rw [RecordKey.of, RecordKey.of, hentity, hentity', hmicros]

end Ledger

end Chronicle
