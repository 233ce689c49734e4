import Chronicle.Codec
import Chronicle.StoreConfig
import Chronicle.StoreError

-- Records read from a scan, in the order of time and at the latest version of
-- their kinds.

namespace Chronicle

-- What a store knows when it reads.
structure Reader where
  registry : Registry
  unknownFields : Codec.UnknownFields
  policy : DecodePolicy

-- The record of a stored entry, which must be stored under its own key.
def Reader.decode (reader : Reader) (key value : Bytes) : Except StoreError Record := do
  let stored ← (RecordKey.decode key).mapError .invalidKey
  let record ← (Codec.decodeAny reader.registry reader.unknownFields value).mapError .record
  if RecordKey.of record ≠ stored then
    throw (.invalidKey (.misplaced record.entity record.timestamp stored))
  (reader.registry.upgrade record).mapError .record

-- Whether a read steps over an entry that failed so.
def Reader.skips (reader : Reader) (error : StoreError) : Bool :=
  reader.policy = .skip && error.isSkippable

structure Records where
  scan : Scan
  reader : Reader
  -- The entries stepped over so far.
  skipped : Nat
  -- An error was answered.
  done : Bool

namespace Records

def start (scan : Scan) (reader : Reader) : Records := ⟨scan, reader, 0, false⟩

-- The next record or error, within so many entries of the scan.
def nextWithin : (entries : Nat) → Records → Option (Except StoreError Record) × Records
  | 0, records => (none, records)
  | entries + 1, records =>
      if records.done then (none, records)
      else
        match records.scan.next with
        | (none, scan) => (none, { records with scan := scan })
        | (some (key, value), scan) =>
            match records.reader.decode key value with
            | .ok record => (some (.ok record), { records with scan := scan })
            | .error error =>
                if records.reader.skips error then
                  nextWithin entries { records with scan := scan, skipped := records.skipped + 1 }
                else (some (.error error), { records with scan := scan, done := true })

-- The entries of the table, and one more to find the end.
def reach (records : Records) : Nat := records.scan.snapshot.table.size + 1

def next (records : Records) : Option (Except StoreError Record) × Records :=
  nextWithin records.reach records

-- At most `count` answers, and the records after them.
def take (count : Nat) (records : Records) : List (Except StoreError Record) × Records :=
  match count with
  | 0 => ([], records)
  | count + 1 =>
      match records.next with
      | (none, records) => ([], records)
      | (some answer, records) =>
          let (answers, records) := take count records
          (answer :: answers, records)

-- All answers.
def toEnd (records : Records) : List (Except StoreError Record) × Records :=
  records.take records.reach

end Records

end Chronicle
