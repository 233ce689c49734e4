import Chronicle.Proofs.Body
import Chronicle.Proofs.Wire.Size
import Mathlib.Tactic.SplitIfs

-- A body is written with no more bytes than it was read from. Each element adds
-- at most its own size to what the message read so far would be written with.

namespace Chronicle.Body

open Wire

theorem length_wordElement_le (number : Nat) (word : UInt32) (h : number < 16) :
    (wordElement number word).length ≤ 5 := by
  unfold wordElement
  split
  · exact Nat.zero_le _
  · exact Nat.le_of_eq (length_ofFixed32 _ h)

theorem length_textElement_le (number : Nat) {bytes : Bytes} {text : String} (h : number < 16)
    (htext : Bytes.toText? bytes = some text) :
    (textElement number text).length ≤ 1 + ((varint bytes.length).length + bytes.length) := by
  unfold textElement
  split
  · exact Nat.zero_le _
  · have hbytes := Bytes.ofText_of_toText? htext
    exact Nat.le_of_eq (by rw [length_ofDelimited _ h, hbytes])

section Instants

theorem Instant.length_encode (instant : Instant) :
    instant.encode.length =
      (if instant.micros = 0 then 0 else 9) + if instant.offset = none then 0 else 5 := by
  obtain ⟨micros, offset⟩ := instant
  rw [Instant.encode, List.length_append]
  congr 1
  · split
    · rfl
    · exact length_ofFixed64 _ (by decide)
  · cases offset with
    | none => rfl
    | some seconds => exact length_ofFixed32 _ (by decide)

theorem Instant.length_encode_addElement_le {instant next : Instant} {element : Element}
    (h : instant.addElement element = some next) :
    next.encode.length ≤ instant.encode.length + element.size := by
  obtain ⟨number, content⟩ := element
  unfold Instant.addElement at h
  split at h
  · rename_i hcontent
    cases h
    dsimp only at hcontent
    rw [Instant.length_encode, Instant.length_encode, Element.size, hcontent, Content.size]
    split_ifs <;> omega
  · contradiction
  · rename_i hcontent
    cases h
    dsimp only at hcontent
    rw [Instant.length_encode, Instant.length_encode, Element.size, hcontent, Content.size]
    split_ifs <;> omega
  · contradiction
  · cases h
    exact Nat.le_add_right _ _

theorem Instant.length_encode_merge?_le {depth : Nat} {instant next : Instant} {bytes : Bytes}
    (h : instant.merge? depth bytes = some next) :
    next.encode.length ≤ instant.encode.length + bytes.length := by
  obtain ⟨elements, helements, h⟩ := Option.bind_eq_some_iff.mp h
  have hgrowth := measure_foldlM_le (fun instant => instant.encode.length)
    Instant.length_encode_addElement_le h
  have hsizes := sizes_le_of_elements? helements
  omega

-- What an instant is put together from counts as much as the instant, which is
-- so short that its length takes one byte.
theorem Instant.length_ofDelimited_merge?_le (number : Nat) {depth count : Nat}
    {instant next : Instant} {bytes : Bytes} (hnumber : number < 16)
    (hcount : instant.encode.length ≤ count) (h : instant.merge? depth bytes = some next) :
    (Element.ofDelimited number next.encode).length ≤
      count + (1 + ((varint bytes.length).length + bytes.length)) := by
  have hmerge := Instant.length_encode_merge?_le h
  have hpos := length_varint_pos bytes.length
  have hshort : next.encode.length < 128 := by
    rw [Instant.length_encode]
    split_ifs <;> omega
  rw [length_ofDelimited _ hnumber, length_varint_of_lt hshort]
  omega

end Instants

section Fields

theorem Value.length_encode (value : Value) : value.encode.length = value.element.size := by
  cases value with
  | bool b =>
      have hvarint : (varint (if b then 1 else 0)).length = 1 := by
        cases b <;> exact length_varint_of_lt (by decide)
      rw [Value.encode, Element.ofVarint, List.length_append, length_key (by decide) (by decide),
        hvarint]
      rfl
  | int n => exact length_ofFixed64 _ (by decide)
  | uint n => exact length_ofFixed64 _ (by decide)
  | float x => exact length_ofFixed64 _ (by decide)
  | text s => exact length_ofDelimited _ (by decide)
  | bytes bs => exact length_ofDelimited _ (by decide)
  | timestamp t => exact length_ofDelimited _ (by decide)

def valueLength : Option Value → Nat
  | none => 0
  | some value => value.encode.length

theorem Field.length_encode (field : Field) :
    field.encode.length = (wordElement 1 field.tag).length + (textElement 2 field.name).length +
      valueLength field.value := by
  rw [Field.encode, List.length_append, List.length_append]
  congr 1
  cases field.value <;> rfl

theorem Field.length_encode_addElement_le {depth : Nat} {field next : Field} {element : Element}
    (h : field.addElement depth element = some next) :
    next.encode.length ≤ field.encode.length + element.size := by
  -- A value takes the place of another one, which matters only if it is put
  -- together from it.
  have hset : ∀ value : Value, value.encode.length ≤ valueLength field.value + element.size →
      (Field.encode { field with value := some value }).length ≤
        field.encode.length + element.size := by
    intro value hvalue
    have hsome : valueLength (some value) = value.encode.length := rfl
    rw [Field.length_encode, Field.length_encode]
    dsimp only
    omega
  have hfresh : ∀ value : Value, value.element.size ≤ element.size →
      (Field.encode { field with value := some value }).length ≤
        field.encode.length + element.size := by
    intro value hvalue
    rw [← value.length_encode] at hvalue
    exact hset value (Nat.le_trans hvalue (Nat.le_add_left _ _))
  obtain ⟨number, content⟩ := element
  unfold Field.addElement at h
  dsimp only at h
  split at h
  · rename_i n
    cases h
    have htag := length_wordElement_le 1 (UInt32.ofNat n) (by decide)
    rw [Field.length_encode, Field.length_encode, Element.size, Content.size]
    dsimp only
    omega
  · obtain ⟨name, hname, heq⟩ := Option.bind_eq_some_iff.mp h
    cases heq
    have hlength := length_textElement_le 2 (by decide) hname
    rw [Field.length_encode, Field.length_encode, Element.size, Content.size]
    dsimp only
    omega
  · cases h
    exact hfresh _ (Nat.le_refl _)
  · cases h
    exact hfresh _ (Nat.le_refl _)
  · cases h
    exact hfresh _ (Nat.le_refl _)
  · cases h
    exact hfresh _ (Nat.le_refl _)
  · obtain ⟨text, htext, heq⟩ := Option.bind_eq_some_iff.mp h
    cases heq
    rw [← Bytes.ofText_of_toText? htext] at hfresh ⊢
    exact hfresh _ (Nat.le_refl _)
  · cases h
    exact hfresh _ (Nat.le_refl _)
  · obtain ⟨instant, hinstant, heq⟩ := Option.bind_eq_some_iff.mp h
    cases heq
    have hold : (Value.instantOr field.value).encode.length ≤ valueLength field.value := by
      unfold Value.instantOr
      split
      · rename_i held hvalue
        rw [hvalue]
        exact length_le_length_ofDelimited 9 held.encode
      · exact Nat.zero_le _
    exact hset _ (Instant.length_ofDelimited_merge?_le _ (by decide) hold hinstant)
  · split at h
    · contradiction
    · cases h
      exact Nat.le_add_right _ _

theorem Field.length_encode_le_of_decode? {depth : Nat} {bytes : Bytes} {field : Field}
    (h : Field.decode? depth bytes = some field) : field.encode.length ≤ bytes.length := by
  obtain ⟨elements, helements, h⟩ := Option.bind_eq_some_iff.mp h
  have hgrowth := measure_foldlM_le (fun field => field.encode.length)
    Field.length_encode_addElement_le h
  have hsizes := sizes_le_of_elements? helements
  have hempty : (Field.encode ⟨0, "", none⟩).length = 0 := rfl
  omega

end Fields

def timestampLength : Option Instant → Nat
  | none => 0
  | some instant => (Element.ofDelimited 4 instant.encode).length

def fieldsLength (fields : List Field) : Nat :=
  (fields.flatMap fun field => Element.ofDelimited 5 field.encode).length

theorem length_encode (body : Body) :
    body.encode.length = (textElement 1 body.kind).length + (wordElement 2 body.version).length +
      (textElement 3 body.entity).length + timestampLength body.timestamp +
      fieldsLength body.fields := by
  rw [encode, List.length_append, List.length_append, List.length_append, List.length_append]
  congr 2
  cases body.timestamp <;> rfl

-- The order of the fields makes no difference.
theorem fieldsLength_of_perm {fields others : List Field} (h : fields.Perm others) :
    fieldsLength fields = fieldsLength others :=
  (h.flatMap_right _).length_eq

theorem length_encode_addElement_le {depth : Nat} {body next : Body} {element : Element}
    (h : body.addElement depth element = some next) :
    next.encode.length ≤ body.encode.length + element.size := by
  obtain ⟨number, content⟩ := element
  unfold addElement at h
  dsimp only at h
  rw [length_encode, length_encode]
  split at h
  · obtain ⟨kind, hkind, heq⟩ := Option.bind_eq_some_iff.mp h
    cases heq
    have hlength := length_textElement_le 1 (by decide) hkind
    rw [Element.size, Content.size]
    dsimp only
    omega
  · rename_i n
    cases h
    have hversion := length_wordElement_le 2 (UInt32.ofNat n) (by decide)
    rw [Element.size, Content.size]
    dsimp only
    omega
  · obtain ⟨entity, hentity, heq⟩ := Option.bind_eq_some_iff.mp h
    cases heq
    have hlength := length_textElement_le 3 (by decide) hentity
    rw [Element.size, Content.size]
    dsimp only
    omega
  · obtain ⟨instant, hinstant, heq⟩ := Option.bind_eq_some_iff.mp h
    cases heq
    have hold : (body.timestamp.getD ⟨0, none⟩).encode.length ≤ timestampLength body.timestamp := by
      cases body.timestamp with
      | none => exact Nat.zero_le _
      | some held => exact length_le_length_ofDelimited 4 held.encode
    have hmerge := Instant.length_ofDelimited_merge?_le 4 (by decide) hold hinstant
    have hsome : timestampLength (some instant) =
        (Element.ofDelimited 4 instant.encode).length := rfl
    rw [Element.size, Content.size]
    dsimp only
    omega
  · obtain ⟨field, hfield, heq⟩ := Option.bind_eq_some_iff.mp h
    cases heq
    have hlength := Field.length_encode_le_of_decode? hfield
    have hvarint := length_varint_le_of_le hlength
    have hcons : fieldsLength (field :: body.fields) =
        1 + ((varint field.encode.length).length + field.encode.length) +
          fieldsLength body.fields := by
      rw [fieldsLength, List.flatMap_cons, List.length_append, length_ofDelimited _ (by decide)]
      rfl
    rw [Element.size, Content.size]
    dsimp only
    omega
  · split at h
    · contradiction
    · cases h
      exact Nat.le_add_right _ _

-- Bytes that are read as a body are at least as many as it is written with.
theorem length_encode_le_of_decode? {bytes : Bytes} {body : Body} (h : decode? bytes = some body) :
    body.encode.length ≤ bytes.length := by
  obtain ⟨elements, helements, h⟩ := Option.bind_eq_some_iff.mp h
  obtain ⟨reversed, hread, heq⟩ := Option.bind_eq_some_iff.mp h
  cases heq
  have hgrowth := measure_foldlM_le (fun body : Body => body.encode.length)
    length_encode_addElement_le hread
  have hsizes := sizes_le_of_elements? helements
  have hempty : (encode ⟨"", 0, "", none, []⟩).length = 0 := rfl
  have hfields := fieldsLength_of_perm (List.reverse_perm reversed.fields)
  have horder : (encode { reversed with fields := reversed.fields.reverse }).length =
      reversed.encode.length := by
    rw [length_encode, length_encode, hfields]
  omega

end Chronicle.Body
