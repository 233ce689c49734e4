import Chronicle.Import.Importer
import Chronicle.Records

-- The store of records: what is written is checked against its schema, and what
-- is read comes at the latest version of its kind.

namespace Chronicle

-- An accepted record that was not written.
structure WriteFailure where
  entity : String
  timestamp : Timestamp
  error : StoreError

structure ImportReport where
  kind : String
  -- The number of records written.
  accepted : Nat
  rejected : List Import.Rejection
  failed : List WriteFailure
  notes : List Import.Note

namespace ImportReport

-- The entries of the document.
def total (report : ImportReport) : Nat :=
  report.accepted + report.rejected.length + report.failed.length

def isClean (report : ImportReport) : Bool := report.rejected.isEmpty && report.failed.isEmpty

end ImportReport

-- What can be read at one moment.
structure StoreView where
  snapshot : Snapshot
  reader : Reader

namespace StoreView

def get? (view : StoreView) (entity : String) (timestamp : Timestamp) :
    Except StoreError (Option Record) := do
  let key ← (RecordKey.mk entity timestamp.micros).encode.mapError .invalidKey
  match view.snapshot.value? key with
  | none => return none
  | some value => return some (← view.reader.decode key value)

-- The records of an entity within a span of time.
def read (view : StoreView) (entity : String) (span : TimeSpan) : Except StoreError Records := do
  let range ← (span.keys entity).mapError .invalidKey
  return Records.start (Scan.start view.snapshot range) view.reader

-- The last record of an entity; every one before it has to be readable.
def latest? (view : StoreView) (entity : String) : Except StoreError (Option Record) := do
  let records ← view.read entity TimeSpan.always
  records.toEnd.1.foldlM (fun _ answer => answer.map some) none

end StoreView

structure EventStore where
  storage : Storage
  reader : Reader

namespace EventStore

def openIn (directory : Directory) (config : StoreConfig) (registry : Registry) :
    Except StoreError EventStore := do
  let storage ← (Storage.openIn directory config.path config.storage).mapError .storage
  return ⟨storage, ⟨registry, config.unknownFields, config.decode⟩⟩

def close (store : EventStore) : Directory := store.storage.close

def registry (store : EventStore) : Registry := store.reader.registry

def view (store : EventStore) : StoreView := ⟨store.storage.snapshot, store.reader⟩

-- The key and the bytes of a record that fits the schema of its version.
def entry (store : EventStore) (record : Record) : Except StoreError (Bytes × Bytes) := do
  let schema ← (store.registry.resolve record.kind record.version).mapError .record
  (schema.check record.payload).mapError
    (.validation record.kind record.version record.entity record.timestamp)
  let key ← (RecordKey.of record).encode.mapError .invalidKey
  return (key, ← (Codec.encode record).mapError .record)

-- Replaces the record of the same entity at the same instant.
def write (store : EventStore) (record : Record) : Except StoreError EventStore := do
  let (key, value) ← store.entry record
  return { store with storage := store.storage.put key value }

def get? (store : EventStore) (entity : String) (timestamp : Timestamp) :
    Except StoreError (Option Record) :=
  store.view.get? entity timestamp

def read (store : EventStore) (entity : String) (span : TimeSpan) : Except StoreError Records :=
  store.view.read entity span

def latest? (store : EventStore) (entity : String) : Except StoreError (Option Record) :=
  store.view.latest? entity

def delete (store : EventStore) (entity : String) (timestamp : Timestamp) :
    Except StoreError EventStore := do
  let key ← (RecordKey.mk entity timestamp.micros).encode.mapError .invalidKey
  return { store with storage := store.storage.delete key }

-- Deletes all records of an entity and answers how many there were.
def deleteEntity (store : EventStore) (entity : String) : Except StoreError (Nat × EventStore) := do
  let front ← (RecordKey.front entity).mapError .invalidKey
  let entries := (store.storage.scan (KeyRange.startingWith front)).toEnd.1
  let batch := entries.map fun entry => Mutation.delete entry.1
  return (batch.length, { store with storage := store.storage.write batch })

def stats (store : EventStore) : TableStats := store.storage.stats

-- Removes the tombstones and answers how many there were.
def compact (store : EventStore) : Nat × EventStore :=
  let (purged, storage) := store.storage.compact
  (purged, { store with storage := storage })

-- Writes records in turn, and counts them or keeps why they were not written.
def writeAll (store : EventStore) : List Record → Nat × List WriteFailure × EventStore
  | [] => (0, [], store)
  | record :: rest =>
      match store.write record with
      | .ok store =>
          let (accepted, failed, store) := writeAll store rest
          (accepted + 1, failed, store)
      | .error error =>
          let (accepted, failed, store) := writeAll store rest
          (accepted, ⟨record.entity, record.timestamp, error⟩ :: failed, store)

-- Writes the accepted entries of a document at the latest version of their kind.
def importDocument (store : EventStore) (importer : Import.Importer) (document : String) :
    Except StoreError (ImportReport × EventStore) := do
  let kind := importer.config.kind
  match store.registry.latest? kind with
  | none => throw (.record (.unknownKind kind))
  | some schema =>
      let batch ← (importer.parse document).mapError .document
      let validation ← (importer.validate batch schema).mapError .document
      let (accepted, failed, store) := store.writeAll validation.accepted
      return (⟨kind, accepted, validation.rejected, failed, batch.notes⟩, store)

end EventStore

end Chronicle
