import Chronicle.Bytes

-- Ranges of keys, in the lexicographic order of bytes.

namespace Chronicle

-- The keys from `start` on that come before `limit`, if there is one.
structure KeyRange where
  start : Bytes
  limit : Option Bytes
  deriving DecidableEq

namespace KeyRange

def all : KeyRange := ⟨[], none⟩

def startingAt (start : Bytes) : KeyRange := ⟨start, none⟩

def contains (range : KeyRange) (key : Bytes) : Bool :=
  decide (range.start ≤ key) &&
    match range.limit with
    | none => true
    | some limit => decide (key < limit)

-- Whether no key at all is in the range.
def isEmpty (range : KeyRange) : Bool :=
  match range.limit with
  | none => false
  | some limit => decide (limit ≤ range.start)

-- The key right after another one.
def successor (key : Bytes) : Bytes := key ++ [0]

-- The part of the range that comes after a key.
def after (range : KeyRange) (key : Bytes) : KeyRange :=
  let next := successor key
  { range with start := if next ≤ range.start then range.start else next }

-- The least key above all that begin with these bytes, given in reverse: bytes
-- that are already greatest are dropped before the last one is raised.
def raiseLast : Bytes → Option Bytes
  | [] => none
  | last :: before => if last < 255 then some ((last + 1) :: before) else raiseLast before

def prefixSuccessor (front : Bytes) : Option Bytes := (raiseLast front.reverse).map List.reverse

-- The keys that begin with these bytes.
def startingWith (front : Bytes) : KeyRange := ⟨front, prefixSuccessor front⟩

end KeyRange

end Chronicle
