import Chronicle.Proofs.EventStore.Requests
import Chronicle.Proofs.EventStore.Run

-- Whatever is live in a store was written to it: under each key stands what was made of
-- the record that was written there last.

namespace Chronicle

namespace Ledger

-- The ledger with the records that an operation writes. Deletions take none away.
def remember (history : Ledger) (store : EventStore) : Operation → Ledger
  | .write record =>
      match store.write record with
      | .ok _ => history.put record
      | .error _ => history
  | .importDocument importer document =>
      match store.intake importer document with
      | .ok taken => history.writeAll store taken.2.accepted
      | .error _ => history
  | _ => history

theorem mem_put {ledger : Ledger} {record other : Record} :
    other ∈ (ledger.put record).records ↔
      other = record ∨ other ∈ ledger.records ∧ RecordKey.of other ≠ RecordKey.of record := by
  simp [put, erase, filter]

end Ledger

namespace EventStore

-- A store and all that was written to it, after operations in turn.
def runRemembering (store : EventStore) (history : Ledger) (operations : List Operation) :
    EventStore × Ledger :=
  operations.foldl (fun state operation =>
    (state.1.after operation, state.2.remember state.1 operation)) (store, history)

def Recalls (store : EventStore) (history : Ledger) : Prop :=
  ∀ entry ∈ store.storage.table.liveEntries,
    ∃ record ∈ history.records, store.Stores record entry.1 entry.2

variable {store next : EventStore} {history : Ledger} {record : Record}

theorem Stores.of_reader_eq {key value : Bytes} (h : store.Stores record key value)
    (hreader : next.reader = store.reader) : next.Stores record key value := by
  refine ⟨?_, h.isEntity, h.key_eq, h.encoded⟩
  rw [registry, hreader]
  exact h.checked

-- What takes entries away leaves those that were written.
theorem Recalls.of_subset (h : store.Recalls history) (hreader : next.reader = store.reader)
    (hsubset : next.storage.table.liveEntries ⊆ store.storage.table.liveEntries) :
    next.Recalls history := by
  intro entry hentry
  obtain ⟨record, hrecord, hstores⟩ := h entry (hsubset hentry)
  exact ⟨record, hrecord, hstores.of_reader_eq hreader⟩

theorem Recalls.write (h : store.Recalls history) (hnext : store.write record = .ok next) :
    next.Recalls (history.put record) := by
  obtain ⟨⟨key, value⟩, hentry, hnext⟩ := bind_eq_ok.mp hnext
  cases hnext
  have hstores := entry_eq_ok.mp hentry
  intro entry hlive
  have hput := (store.storage.table.liveEntries_put_perm key value).subset hlive
  rcases List.mem_cons.mp hput with rfl | hold
  · exact ⟨record, Ledger.mem_put.mpr (.inl rfl), hstores.of_reader_eq rfl⟩
  · obtain ⟨hmem, hne⟩ := List.mem_filter.mp hold
    rw [decide_eq_true_eq] at hne
    obtain ⟨other, hother, hstored⟩ := h entry hmem
    refine ⟨other, Ledger.mem_put.mpr (.inr ⟨hother, fun hsame => hne ?_⟩),
      hstored.of_reader_eq rfl⟩
    rw [hstored.key_eq, hstores.key_eq, hsame]

theorem Recalls.writeAll (h : store.Recalls history) (records : List Record) :
    (store.writeAll records).2.2.Recalls (history.writeAll store records) := by
  induction records generalizing store history with
  | nil => exact h
  | cons record rest ih =>
      rw [EventStore.writeAll, Ledger.writeAll]
      cases hwrite : store.write record with
      | ok next => exact ih (h.write hwrite)
      | error error => exact ih h

theorem Recalls.outcome (h : store.Recalls history) {operation : Operation}
    (hnext : store.outcome operation = .ok next) :
    next.Recalls (history.remember store operation) := by
  cases operation with
  | write record =>
      have hwrite : store.write record = .ok next := hnext
      rw [Ledger.remember, hwrite]
      exact h.write hwrite
  | delete entity timestamp =>
      obtain ⟨key, _, hnext⟩ := bind_eq_ok.mp hnext
      cases hnext
      exact h.of_subset rfl (Table.liveEntries_deletes_subset _ [key])
  | deleteEntity entity =>
      obtain ⟨⟨count, next'⟩, hdelete, rfl⟩ := map_eq_ok.mp hnext
      rw [deleteEntity_eq] at hdelete
      obtain ⟨keys, _, hdelete⟩ := map_eq_ok.mp hdelete
      cases hdelete
      exact h.of_subset rfl (Table.liveEntries_deletes_subset _ keys)
  | importDocument importer document =>
      obtain ⟨⟨report, next'⟩, himport, rfl⟩ := map_eq_ok.mp hnext
      rw [importDocument_eq] at himport
      obtain ⟨taken, htaken, htotal⟩ := map_eq_ok.mp himport
      cases htotal
      rw [Ledger.remember, htaken]
      exact h.writeAll taken.2.accepted
  | compact =>
      cases hnext
      have hsame : store.compact.2.storage.table.liveEntries =
          store.storage.table.liveEntries := Table.liveEntries_compact _
      refine h.of_subset rfl ?_
      rw [hsame]
      exact List.Subset.refl _
  | reopen path options =>
      obtain ⟨_, rfl⟩ := reopen_eq_ok.mp hnext
      exact h.of_subset rfl (List.Subset.refl _)

-- A failure writes nothing.
theorem remember_of_error {operation : Operation} {error : StoreError}
    (herror : store.outcome operation = .error error) :
    history.remember store operation = history := by
  cases operation with
  | write record =>
      have hwrite : store.write record = .error error := herror
      rw [Ledger.remember, hwrite]
  | importDocument importer document =>
      have himport : (store.importDocument importer document).map (·.2) = .error error := herror
      rw [importDocument_eq] at himport
      rw [Ledger.remember]
      cases htaken : store.intake importer document with
      | error reason => rfl
      | ok taken =>
          rw [htaken] at himport
          contradiction
  | _ => rfl

theorem Recalls.after (h : store.Recalls history) (operation : Operation) :
    (store.after operation).Recalls (history.remember store operation) := by
  rcases store.perform_cases operation with
    ⟨next, hnext, hperform⟩ | ⟨error, herror, hperform | ⟨_, hperform⟩⟩
  · rw [EventStore.after, hperform]
    exact h.outcome hnext
  · rw [EventStore.after, hperform, remember_of_error herror]
    exact h
  · rw [EventStore.after, hperform, remember_of_error herror]
    exact h.of_subset rfl (List.Subset.refl _)

theorem Recalls.run (h : store.Recalls history) (operations : List Operation) :
    (store.runRemembering history operations).1.Recalls
      (store.runRemembering history operations).2 := by
  induction operations generalizing store history with
  | nil => exact h
  | cons operation rest ih => exact ih (h.after operation)

theorem reader_runRemembering (store : EventStore) (history : Ledger)
    (operations : List Operation) :
    (store.runRemembering history operations).1.reader = store.reader := by
  induction operations generalizing store history with
  | nil => rfl
  | cons operation rest ih =>
      exact (ih (store.after operation) (history.remember store operation)).trans
        (store.after_keeps operation).1

theorem recalls_open {config : StoreConfig} {registry : Registry}
    (h : openIn Directory.fresh config registry = .ok store) :
    store.Recalls Ledger.empty ∧
      store.reader = ⟨registry, config.unknownFields, config.decode⟩ := by
  obtain ⟨storage, hstorage, h⟩ := bind_eq_ok.mp h
  cases h
  cases mapError_eq_ok.mp hstorage
  exact ⟨nofun, rfl⟩

end EventStore

end Chronicle
