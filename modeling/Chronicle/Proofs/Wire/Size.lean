import Chronicle.Proofs.Wire

-- How few bytes an element can take. What was read took at least as many, in
-- whatever form its numbers were written.

namespace Chronicle.Wire

theorem length_varint_of_lt {n : Nat} (h : n < 128) : (varint n).length = 1 := by
  rw [varint, if_pos h]
  rfl

theorem length_varint_of_ge {n : Nat} (h : 128 ≤ n) :
    (varint n).length = (varint (n / 128)).length + 1 := by
  rw [varint, if_neg (Nat.not_lt.mpr h), List.length_cons]

theorem length_varint_pos (n : Nat) : 0 < (varint n).length := by
  rcases Nat.lt_or_ge n 128 with h | h
  · rw [length_varint_of_lt h]
    exact Nat.one_pos
  · rw [length_varint_of_ge h]
    exact Nat.succ_pos _

theorem length_varint_le_of_le {n m : Nat} (h : n ≤ m) :
    (varint n).length ≤ (varint m).length := by
  induction m using Nat.strongRecOn generalizing n with
  | ind m ih =>
      rcases Nat.lt_or_ge n 128 with hn | hn
      · rw [length_varint_of_lt hn]
        exact length_varint_pos m
      · have hm : 128 ≤ m := Nat.le_trans hn h
        have hhigh := ih (m / 128) (by omega) (Nat.div_le_div_right h)
        rw [length_varint_of_ge hn, length_varint_of_ge hm]
        exact Nat.succ_le_succ hhigh

section Reading

-- A number may be written with more bytes than it needs, never with fewer.
theorem length_varint_le_of_readVarint? {room n : Nat} {bytes rest : Bytes}
    (h : readVarint? room bytes = some (n, rest)) :
    (varint n).length + rest.length ≤ bytes.length := by
  induction room generalizing bytes n rest with
  | zero => simp [readVarint?] at h
  | succ room ih =>
      cases bytes with
      | nil => simp [readVarint?] at h
      | cons byte tail =>
          rw [readVarint?] at h
          split at h
          · rename_i hbyte
            split at h
            · contradiction
            · cases h
              rw [length_varint_of_lt hbyte, List.length_cons]
              omega
          · obtain ⟨⟨high, rest'⟩, hread, heq⟩ := Option.bind_eq_some_iff.mp h
            cases heq
            have hhigh := ih hread
            have hmax := byte.toNat_lt
            rw [List.length_cons]
            rcases Nat.lt_or_ge (byte.toNat - 128 + 128 * high) 128 with hn | hn
            · have hpos := length_varint_pos high
              rw [length_varint_of_lt hn]
              omega
            · have hdiv : (byte.toNat - 128 + 128 * high) / 128 = high := by omega
              rw [length_varint_of_ge hn, hdiv]
              omega

theorem length_skipGroup_lt {fuel depth number : Nat} {bytes rest : Bytes}
    (h : skipGroup fuel depth number bytes = some rest) : rest.length < bytes.length := by
  induction fuel generalizing depth number bytes rest with
  | zero => simp [skipGroup] at h
  | succ fuel ih =>
      rw [skipGroup] at h
      obtain ⟨⟨⟨inner, type⟩, tail⟩, hkey, h⟩ := Option.bind_eq_some_iff.mp h
      have htail := length_key?_lt hkey
      have hcontent : ∀ {type : WireType},
          (if depth = 0 then none
            else (content? type tail).bind fun read => skipGroup fuel depth number read.2) =
            some rest → rest.length < bytes.length := by
        intro type h
        split at h
        · contradiction
        · obtain ⟨⟨content, rest'⟩, hread, h⟩ := Option.bind_eq_some_iff.mp h
          have hrest := length_content?_le hread
          have hend : rest.length < rest'.length := ih h
          omega
      cases type with
      | endGroup =>
          dsimp only at h
          split at h
          · cases h
            exact htail
          · contradiction
      | startGroup =>
          cases depth with
          | zero => contradiction
          | succ depth =>
              obtain ⟨rest', hinner, h⟩ := Option.bind_eq_some_iff.mp h
              have hskipped := ih hinner
              have hend := ih h
              omega
      | varint => exact hcontent h
      | fixed64 => exact hcontent h
      | delimited => exact hcontent h
      | fixed32 => exact hcontent h

end Reading

section Elements

-- The fewest bytes of a content, and of an element whose key takes one byte. A
-- group needs another key to close it.
def Content.size : Content → Nat
  | .varint _ => 1
  | .fixed64 _ => 8
  | .delimited bytes => (Wire.varint bytes.length).length + bytes.length
  | .fixed32 _ => 4
  | .group => 1

def Element.size : Element → Nat
  | ⟨_, content⟩ => 1 + content.size

def sizes (elements : List Element) : Nat :=
  elements.foldr (fun element total => element.size + total) 0

theorem sizes_cons (element : Element) (elements : List Element) :
    sizes (element :: elements) = element.size + sizes elements := rfl

theorem size_add_length_le {type : WireType} {bytes rest : Bytes} {content : Content}
    (h : content? type bytes = some (content, rest)) :
    content.size + rest.length ≤ bytes.length := by
  cases type with
  | varint =>
      obtain ⟨⟨n, rest'⟩, hread, heq⟩ := Option.bind_eq_some_iff.mp h
      cases heq
      have hlt := length_readVarint?_lt hread
      rw [Content.size]
      omega
  | fixed64 =>
      obtain ⟨⟨front, rest'⟩, hsplit, heq⟩ := Option.bind_eq_some_iff.mp h
      cases heq
      obtain ⟨rfl, hfront⟩ := Bytes.split?_eq_some.mp hsplit
      rw [Content.size, List.length_append]
      omega
  | delimited =>
      obtain ⟨⟨length, tail⟩, hread, h⟩ := Option.bind_eq_some_iff.mp h
      obtain ⟨⟨front, rest'⟩, hsplit, heq⟩ := Option.bind_eq_some_iff.mp h
      cases heq
      obtain ⟨rfl, rfl⟩ := Bytes.split?_eq_some.mp hsplit
      have hlength := length_varint_le_of_readVarint? hread
      rw [List.length_append] at hlength
      rw [Content.size]
      omega
  | fixed32 =>
      obtain ⟨⟨front, rest'⟩, hsplit, heq⟩ := Option.bind_eq_some_iff.mp h
      cases heq
      obtain ⟨rfl, hfront⟩ := Bytes.split?_eq_some.mp hsplit
      rw [Content.size, List.length_append]
      omega
  | startGroup => contradiction
  | endGroup => contradiction

theorem sizes_le_of_elementsWithin {depth fuel : Nat} {bytes : Bytes} {elements : List Element}
    (h : elementsWithin depth fuel bytes = some elements) : sizes elements ≤ bytes.length := by
  induction fuel generalizing bytes elements with
  | zero =>
      cases bytes with
      | nil =>
          cases h
          exact Nat.le_refl _
      | cons byte bytes => simp [elementsWithin] at h
  | succ fuel ih =>
      cases bytes with
      | nil =>
          cases h
          exact Nat.le_refl _
      | cons byte bytes =>
          rw [elementsWithin] at h
          · obtain ⟨⟨⟨number, type⟩, tail⟩, hkey, h⟩ := Option.bind_eq_some_iff.mp h
            have htail := length_key?_lt hkey
            have hcontent : ∀ {type : WireType},
                ((content? type tail).bind fun read =>
                  (elementsWithin depth fuel read.2).bind fun others =>
                    some (⟨number, read.1⟩ :: others)) = some elements →
                sizes elements ≤ (byte :: bytes).length := by
              intro type h
              obtain ⟨⟨content, rest⟩, hread, h⟩ := Option.bind_eq_some_iff.mp h
              obtain ⟨others, hothers, heq⟩ := Option.bind_eq_some_iff.mp h
              cases heq
              have hsize := size_add_length_le hread
              have hrest : sizes others ≤ rest.length := ih hothers
              rw [sizes_cons, Element.size]
              dsimp only
              omega
            cases type with
            | endGroup => contradiction
            | startGroup =>
                cases depth with
                | zero => contradiction
                | succ depth =>
                    obtain ⟨rest, hskip, h⟩ := Option.bind_eq_some_iff.mp h
                    obtain ⟨others, hothers, heq⟩ := Option.bind_eq_some_iff.mp h
                    cases heq
                    have hskipped := length_skipGroup_lt hskip
                    have hrest := ih hothers
                    rw [sizes_cons, Element.size, Content.size]
                    omega
            | varint => exact hcontent h
            | fixed64 => exact hcontent h
            | delimited => exact hcontent h
            | fixed32 => exact hcontent h
          · intro hnil
            contradiction

theorem sizes_le_of_elements? {depth : Nat} {bytes : Bytes} {elements : List Element}
    (h : elements? depth bytes = some elements) : sizes elements ≤ bytes.length :=
  sizes_le_of_elementsWithin h

-- What grows by no more than each element's size grows by no more than all
-- their sizes.
theorem measure_foldlM_le {σ : Type} (measure : σ → Nat) {add : σ → Element → Option σ}
    (hadd : ∀ {state element next}, add state element = some next →
      measure next ≤ measure state + element.size)
    {elements : List Element} {state last : σ} (h : elements.foldlM add state = some last) :
    measure last ≤ measure state + sizes elements := by
  induction elements generalizing state with
  | nil =>
      cases h
      exact Nat.le_refl _
  | cons element elements ih =>
      rw [List.foldlM_cons] at h
      obtain ⟨next, hnext, h⟩ := Option.bind_eq_some_iff.mp h
      have hfirst := hadd hnext
      have hrest := ih h
      rw [sizes_cons]
      omega

end Elements

section Writing

-- The numbers that are known are all below sixteen.
theorem length_key {number type : Nat} (hnumber : number < 16) (htype : type < 8) :
    (key number type).length = 1 :=
  length_varint_of_lt (by omega)

theorem length_ofFixed32 {number : Nat} (n : Nat) (h : number < 16) :
    (Element.ofFixed32 number n).length = 5 := by
  rw [Element.ofFixed32, List.length_append, length_key h (by decide), Bytes.length_littleEndian]

theorem length_ofFixed64 {number : Nat} (n : Nat) (h : number < 16) :
    (Element.ofFixed64 number n).length = 9 := by
  rw [Element.ofFixed64, List.length_append, length_key h (by decide), Bytes.length_littleEndian]

theorem length_ofDelimited {number : Nat} (bytes : Bytes) (h : number < 16) :
    (Element.ofDelimited number bytes).length =
      1 + ((varint bytes.length).length + bytes.length) := by
  rw [Element.ofDelimited, List.length_append, List.length_append, length_key h (by decide),
    Nat.add_assoc]

end Writing

end Chronicle.Wire
