import Chronicle.Proofs.Bytes
import Chronicle.Wire.Element

-- Written elements are read back, one after the other.

namespace Chronicle.Wire

-- A number takes as many bytes as it has digits of seven bits; where the last
-- of them stands in the last place there is room for, it is a single bit.
theorem readVarint?_varint {room n : Nat} (rest : Bytes) (h : n < 2 * Nat.pow 128 room) :
    readVarint? (room + 1) (varint n ++ rest) = some (n, rest) := by
  induction room generalizing n with
  | zero =>
      have hn : n < 2 := by simpa using h
      have hbyte : (UInt8.ofNat n).toNat = n := by rw [UInt8.toNat_ofNat']; omega
      rw [varint, if_pos (by omega)]
      simp only [List.cons_append, List.nil_append, readVarint?, hbyte]
      rw [if_pos (by omega), if_neg (by omega)]
  | succ room ih =>
      have hp : Nat.pow 128 (room + 1) = Nat.pow 128 room * 128 := Nat.pow_succ 128 room
      rw [hp] at h
      rw [varint]
      by_cases hsmall : n < 128
      · have hbyte : (UInt8.ofNat n).toNat = n := by rw [UInt8.toNat_ofNat']; omega
        rw [if_pos hsmall]
        simp only [List.cons_append, List.nil_append, readVarint?, hbyte]
        rw [if_pos hsmall, if_neg (by omega)]
      · have hbyte : (UInt8.ofNat (n % 128 + 128)).toNat = n % 128 + 128 := by
          rw [UInt8.toNat_ofNat']; omega
        have hhigh := ih (n := n / 128) (Nat.div_lt_of_lt_mul (by omega))
        rw [if_neg hsmall, List.cons_append, readVarint?, hbyte, if_neg (by omega), hhigh]
        simp only [Option.bind_eq_bind, Option.bind_some, Option.some.injEq, Prod.mk.injEq,
          and_true]
        omega

theorem varint?_varint {n : Nat} (rest : Bytes) (h : n < twoTo 64) :
    varint? (varint n ++ rest) = some (n, rest) :=
  readVarint?_varint rest h

theorem key?_key {number code : Nat} {type : WireType} (rest : Bytes) (hpos : 0 < number)
    (hnumber : number < twoTo 29) (hcode : code < 8) (htype : WireType.ofNat? code = some type) :
    key? (key number code ++ rest) = some ((number, type), rest) := by
  have hnumber' : number < 536870912 := hnumber
  have hword : number * 8 + code < twoTo 32 := by
    have htwo : twoTo 32 = 4294967296 := rfl
    omega
  have hlong : number * 8 + code < twoTo 64 := Nat.lt_trans hword (by decide)
  have hdiv : (number * 8 + code) / 8 = number := by omega
  have hmod : (number * 8 + code) % 8 = code := by omega
  simp only [key?, key, varint?_varint rest hlong, Option.bind_eq_bind, Option.bind_some, hdiv,
    hmod, htype]
  rw [if_neg (by omega)]

-- The bytes hold these elements and nothing else.
def Holds (depth : Nat) (bytes : Bytes) (elements : List Element) : Prop :=
  ∀ fuel, bytes.length ≤ fuel → elementsWithin depth fuel bytes = some elements

theorem Holds.elements? {depth : Nat} {bytes : Bytes} {elements : List Element}
    (h : Holds depth bytes elements) : elements? depth bytes = some elements :=
  h bytes.length (Nat.le_refl _)

theorem holds_nil (depth : Nat) : Holds depth [] [] := by
  intro fuel _
  cases fuel <;> rfl

theorem holds_cons {depth number : Nat} {type : WireType} {bytes tail rest : Bytes}
    {content : Content} {elements : List Element} (hkey : key? bytes = some ((number, type), tail))
    (hcontent : content? type tail = some (content, rest)) (h : Holds depth rest elements) :
    Holds depth bytes (⟨number, content⟩ :: elements) := by
  intro fuel hfuel
  have htail := length_key?_lt hkey
  have hrest := length_content?_le hcontent
  cases fuel with
  | zero => omega
  | succ fuel =>
      have hnext : elementsWithin depth fuel rest = some elements := h fuel (by omega)
      cases bytes with
      | nil => simp at htail
      | cons byte bytes =>
          cases type with
          | startGroup => simp [content?] at hcontent
          | endGroup => simp [content?] at hcontent
          | _ => simp [elementsWithin, hkey, hcontent, hnext]

section Writing

variable {depth number : Nat} {rest : Bytes} {elements : List Element}

theorem holds_ofVarint {n : Nat} (hpos : 0 < number) (hnumber : number < twoTo 29)
    (hn : n < twoTo 64) (h : Holds depth rest elements) :
    Holds depth (Element.ofVarint number n ++ rest) (⟨number, .varint n⟩ :: elements) := by
  rw [Element.ofVarint, List.append_assoc]
  refine holds_cons (key?_key _ hpos hnumber (by decide) rfl) ?_ h
  simp [content?, varint?_varint rest hn]

theorem holds_ofFixed32 {n : Nat} (hpos : 0 < number) (hnumber : number < twoTo 29)
    (hn : n < twoTo 32) (h : Holds depth rest elements) :
    Holds depth (Element.ofFixed32 number n ++ rest) (⟨number, .fixed32 n⟩ :: elements) := by
  rw [Element.ofFixed32, List.append_assoc]
  refine holds_cons (key?_key _ hpos hnumber (by decide) rfl) ?_ h
  simp [content?, Bytes.split?_append rest (Bytes.length_littleEndian 4 n),
    Bytes.ofLittleEndian_littleEndian_of_lt 4 hn]

theorem holds_ofFixed64 {n : Nat} (hpos : 0 < number) (hnumber : number < twoTo 29)
    (hn : n < twoTo 64) (h : Holds depth rest elements) :
    Holds depth (Element.ofFixed64 number n ++ rest) (⟨number, .fixed64 n⟩ :: elements) := by
  rw [Element.ofFixed64, List.append_assoc]
  refine holds_cons (key?_key _ hpos hnumber (by decide) rfl) ?_ h
  simp [content?, Bytes.split?_append rest (Bytes.length_littleEndian 8 n),
    Bytes.ofLittleEndian_littleEndian_of_lt 8 hn]

theorem holds_ofDelimited {bytes : Bytes} (hpos : 0 < number) (hnumber : number < twoTo 29)
    (hlength : bytes.length < twoTo 64) (h : Holds depth rest elements) :
    Holds depth (Element.ofDelimited number bytes ++ rest)
      (⟨number, .delimited bytes⟩ :: elements) := by
  rw [Element.ofDelimited, List.append_assoc, List.append_assoc]
  refine holds_cons (key?_key _ hpos hnumber (by decide) rfl) ?_ h
  simp [content?, varint?_varint _ hlength, Bytes.split?_append rest rfl]

theorem length_le_length_ofDelimited (number : Nat) (bytes : Bytes) :
    bytes.length ≤ (Element.ofDelimited number bytes).length := by
  simp only [Element.ofDelimited, List.length_append]
  omega

end Writing

end Chronicle.Wire
