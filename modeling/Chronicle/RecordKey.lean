import Chronicle.KeyRange
import Chronicle.Record

-- Keys of stored records: two bytes for the length of the entity, the entity,
-- and eight bytes for the instant. All numbers are big-endian and the instant
-- is shifted to be unsigned, so keys of one entity lie together in the order of
-- time, apart from those of every other entity.

namespace Chronicle

-- An entity and an instant. How the instant is displayed makes no difference.
structure RecordKey where
  entity : String
  micros : Int64
  deriving DecidableEq

inductive KeyError where
  | emptyEntity
  | longEntity (length : Nat)
  | malformed (length : Nat)
  -- The record of `entity` at `timestamp` is stored under another key.
  | misplaced (entity : String) (timestamp : Timestamp) (key : RecordKey)
  deriving DecidableEq

namespace RecordKey

def of (record : Record) : RecordKey := ⟨record.entity, record.timestamp.micros⟩

-- The longest entity in bytes.
def maxEntity : Nat := 65535

def timeLength : Nat := 8

-- What is added to an instant to make it unsigned.
def shift : Int := twoTo 63

def timeBytes (micros : Int64) : Bytes :=
  Bytes.bigEndian timeLength (micros.toInt + shift).toNat

def ofTimeBytes (bytes : Bytes) : Int64 := Int64.ofInt (Bytes.ofBigEndian bytes - shift)

-- What all keys of an entity begin with.
def front (entity : String) : Except KeyError Bytes :=
  let bytes := Bytes.ofText entity
  if bytes = [] then .error .emptyEntity
  else if maxEntity < bytes.length then .error (.longEntity bytes.length)
  else .ok (Bytes.bigEndian 2 bytes.length ++ bytes)

def encode (key : RecordKey) : Except KeyError Bytes := do
  return (← front key.entity) ++ timeBytes key.micros

def decode? (bytes : Bytes) : Option RecordKey := do
  let (length, rest) ← Bytes.split? 2 bytes
  let length := Bytes.ofBigEndian length
  if length = 0 then none
  let (entity, time) ← Bytes.split? length rest
  if time.length ≠ timeLength then none
  some ⟨← Bytes.toText? entity, ofTimeBytes time⟩

def decode (bytes : Bytes) : Except KeyError RecordKey :=
  match decode? bytes with
  | some key => .ok key
  | none => .error (.malformed bytes.length)

end RecordKey

def KeyError.message : KeyError → String
  | .emptyEntity => "entity id is empty"
  | .longEntity length =>
      "entity id is " ++ toString length ++ " bytes, limit is " ++ toString RecordKey.maxEntity
  | .malformed length => "malformed stored key of " ++ toString length ++ " bytes"
  | .misplaced entity timestamp key =>
      "record for '" ++ entity ++ "' at " ++ timestamp.display ++ " is stored under '" ++
        key.entity ++ "' at " ++ toString key.micros.toInt ++ "us"

-- One end of a span of time.
inductive TimeBound where
  | unbounded
  | included (micros : Int64)
  | excluded (micros : Int64)
  deriving DecidableEq

structure TimeSpan where
  lower : TimeBound
  upper : TimeBound
  deriving DecidableEq

namespace TimeSpan

def always : TimeSpan := ⟨.unbounded, .unbounded⟩

-- The instant after another one; the last one has none.
def nextInstant? (micros : Int64) : Option Int64 :=
  if micros = Int64.maxValue then none else some (micros + 1)

-- The keys of an entity within the span.
def keys (span : TimeSpan) (entity : String) : Except KeyError KeyRange := do
  let front ← RecordKey.front entity
  let key (micros : Int64) : Bytes := front ++ RecordKey.timeBytes micros
  let limit :=
    match span.upper with
    | .unbounded => KeyRange.prefixSuccessor front
    | .excluded micros => some (key micros)
    | .included micros =>
        match nextInstant? micros with
        | some next => some (key next)
        | none => KeyRange.prefixSuccessor front
  match span.lower with
  | .unbounded => return ⟨front, limit⟩
  | .included micros => return ⟨key micros, limit⟩
  | .excluded micros =>
      match nextInstant? micros with
      | some next => return ⟨key next, limit⟩
      | none => return ⟨front, some front⟩

end TimeSpan

end Chronicle
