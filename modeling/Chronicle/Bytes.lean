-- Byte strings are lists, so that a format is read and written by recursion on
-- the data and ordered by the lexicographic order of lists.

namespace Chronicle

abbrev Bytes := List UInt8

namespace Bytes

-- The UTF-8 bytes of a text.
def ofText (text : String) : Bytes :=
  text.toUTF8.data.toList

-- The text with these UTF-8 bytes, if they are valid UTF-8.
def toText? (bytes : Bytes) : Option String :=
  String.fromUTF8? ⟨bytes.toArray⟩

-- The low `width` bytes of a number, least significant first.
def littleEndian : (width : Nat) → Nat → Bytes
  | 0, _ => []
  | width + 1, n => UInt8.ofNat n :: littleEndian width (n / 256)

-- The number whose bytes these are, least significant first.
def ofLittleEndian : Bytes → Nat
  | [] => 0
  | byte :: rest => byte.toNat + 256 * ofLittleEndian rest

def bigEndian (width n : Nat) : Bytes :=
  (littleEndian width n).reverse

def ofBigEndian (bytes : Bytes) : Nat :=
  ofLittleEndian bytes.reverse

-- The first `n` bytes and the rest, when there are that many.
def split? (n : Nat) (bytes : Bytes) : Option (Bytes × Bytes) :=
  let front := bytes.take n
  if front.length = n then some (front, bytes.drop n) else none

theorem length_littleEndian (width n : Nat) : (littleEndian width n).length = width := by
  induction width generalizing n with
  | zero => rfl
  | succ width ih => simp [littleEndian, ih]

theorem length_bigEndian (width n : Nat) : (bigEndian width n).length = width := by
  simp [bigEndian, length_littleEndian]

-- Writing keeps the number modulo the width.
theorem ofLittleEndian_littleEndian (width n : Nat) :
    ofLittleEndian (littleEndian width n) = n % Nat.pow 256 width := by
  induction width generalizing n with
  | zero => simp [littleEndian, ofLittleEndian, Nat.mod_one]
  | succ width ih =>
      have hb : (UInt8.ofNat n).toNat = n % 256 := UInt8.toNat_ofNat'
      have hp : Nat.pow 256 (width + 1) = 256 * Nat.pow 256 width := Nat.pow_succ'
      rw [littleEndian, ofLittleEndian, ih, hb, hp, Nat.mod_mul]

theorem ofBigEndian_bigEndian (width n : Nat) :
    ofBigEndian (bigEndian width n) = n % Nat.pow 256 width := by
  simp only [ofBigEndian, bigEndian, List.reverse_reverse, ofLittleEndian_littleEndian]

theorem split?_eq_some {n : Nat} {bytes front rest : Bytes} :
    split? n bytes = some (front, rest) ↔ bytes = front ++ rest ∧ front.length = n := by
  simp only [split?]
  constructor
  · split
    · rename_i h
      intro he
      cases he
      exact ⟨(List.take_append_drop n bytes).symm, h⟩
    · intro he; cases he
  · rintro ⟨rfl, rfl⟩
    simp

end Bytes

end Chronicle
