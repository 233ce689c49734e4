import Chronicle.Power
import Chronicle.Wire.Varint

-- The elements of a message body: a field number and a payload whose form is
-- told by the wire type beside it. What the numbers mean is for the reader of
-- the message to say.

namespace Chronicle.Wire

inductive Content where
  | varint (n : Nat)
  | fixed64 (n : Nat)
  | delimited (bytes : Bytes)
  | fixed32 (n : Nat)
  -- The elements of a group are checked and dropped.
  | group

structure Element where
  number : Nat
  content : Content

-- The wire types that open an element, and the one that closes a group.
inductive WireType where
  | varint | fixed64 | delimited | startGroup | endGroup | fixed32

def WireType.ofNat? : Nat → Option WireType
  | 0 => some .varint
  | 1 => some .fixed64
  | 2 => some .delimited
  | 3 => some .startGroup
  | 4 => some .endGroup
  | 5 => some .fixed32
  | _ => none

-- A key of at most 32 bits holds a field number from 1 and a wire type.
def key? (bytes : Bytes) : Option ((Nat × WireType) × Bytes) := do
  let (key, rest) ← varint? bytes
  if twoTo 32 ≤ key ∨ key / 8 = 0 then none
  let type ← WireType.ofNat? (key % 8)
  some ((key / 8, type), rest)

-- The payload of an element other than a group.
def content? (type : WireType) (bytes : Bytes) : Option (Content × Bytes) :=
  match type with
  | .varint => do
      let (n, rest) ← varint? bytes
      some (.varint n, rest)
  | .fixed64 => do
      let (front, rest) ← Bytes.split? 8 bytes
      some (.fixed64 (Bytes.ofLittleEndian front), rest)
  | .fixed32 => do
      let (front, rest) ← Bytes.split? 4 bytes
      some (.fixed32 (Bytes.ofLittleEndian front), rest)
  | .delimited => do
      let (length, rest) ← varint? bytes
      let (front, rest) ← Bytes.split? length rest
      some (.delimited front, rest)
  | .startGroup => none
  | .endGroup => none

theorem length_key?_lt {bytes rest : Bytes} {key : Nat × WireType}
    (h : key? bytes = some (key, rest)) : rest.length < bytes.length := by
  simp only [key?, Option.bind_eq_bind, Option.bind_eq_some_iff] at h
  obtain ⟨⟨n, rest'⟩, hv, h⟩ := h
  split at h
  · simp at h
  · simp only [Option.bind_eq_some_iff, Option.some.injEq, Prod.mk.injEq] at h
    obtain ⟨_, _, _, rfl⟩ := h
    exact length_readVarint?_lt hv

theorem length_split?_le {n : Nat} {bytes front rest : Bytes}
    (h : Bytes.split? n bytes = some (front, rest)) : rest.length ≤ bytes.length := by
  obtain ⟨rfl, _⟩ := Bytes.split?_eq_some.mp h
  simp

theorem length_content?_le {type : WireType} {bytes rest : Bytes} {content : Content}
    (h : content? type bytes = some (content, rest)) : rest.length ≤ bytes.length := by
  cases type <;> simp only [content?, Option.bind_eq_bind, Option.bind_eq_some_iff,
    Option.some.injEq, Prod.mk.injEq, reduceCtorEq] at h
  · obtain ⟨⟨n, rest'⟩, hv, _, rfl⟩ := h
    exact Nat.le_of_lt (length_readVarint?_lt hv)
  · obtain ⟨⟨front, rest'⟩, hs, _, rfl⟩ := h
    exact length_split?_le hs
  · obtain ⟨⟨n, rest'⟩, hv, ⟨front, rest''⟩, hs, _, rfl⟩ := h
    exact Nat.le_trans (length_split?_le hs) (Nat.le_of_lt (length_readVarint?_lt hv))
  · obtain ⟨⟨front, rest'⟩, hs, _, rfl⟩ := h
    exact length_split?_le hs

-- Passes over the elements of group `number` up to its end. `depth` bounds how
-- many groups may still be opened, and fuel the number of elements.
def skipGroup : (fuel depth number : Nat) → Bytes → Option Bytes
  | 0, _, _, _ => none
  | fuel + 1, depth, number, bytes => do
      let ((inner, type), rest) ← key? bytes
      match type with
      | .endGroup => if inner = number then some rest else none
      | .startGroup =>
          match depth with
          | 0 => none
          | depth + 1 => do
              let rest ← skipGroup fuel depth inner rest
              skipGroup fuel (depth + 1) number rest
      | _ =>
          if depth = 0 then none
          else do
            let (_, rest) ← content? type rest
            skipGroup fuel depth number rest

-- The elements of a body. At most `depth` groups stand inside each other.
def elementsWithin (depth : Nat) : (fuel : Nat) → Bytes → Option (List Element)
  | _, [] => some []
  | 0, _ => none
  | fuel + 1, bytes => do
      let ((number, type), rest) ← key? bytes
      match type with
      | .endGroup => none
      | .startGroup =>
          match depth with
          | 0 => none
          | inner + 1 => do
              let rest ← skipGroup rest.length inner number rest
              return ⟨number, .group⟩ :: (← elementsWithin depth fuel rest)
      | _ => do
          let (content, rest) ← content? type rest
          return ⟨number, content⟩ :: (← elementsWithin depth fuel rest)

-- Every element takes a byte, so the length of the body bounds their number.
def elements? (depth : Nat) (bytes : Bytes) : Option (List Element) :=
  elementsWithin depth bytes.length bytes

-- Writing elements.

def key (number type : Nat) : Bytes := varint (number * 8 + type)

def Element.ofFixed32 (number n : Nat) : Bytes := key number 5 ++ Bytes.littleEndian 4 n

def Element.ofFixed64 (number n : Nat) : Bytes := key number 1 ++ Bytes.littleEndian 8 n

def Element.ofVarint (number n : Nat) : Bytes := key number 0 ++ varint n

def Element.ofDelimited (number : Nat) (bytes : Bytes) : Bytes :=
  key number 2 ++ varint bytes.length ++ bytes

end Chronicle.Wire
