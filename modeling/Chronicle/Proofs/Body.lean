import Chronicle.Body
import Chronicle.Proofs.Wire

-- Every body is read back from its bytes, whether or not it stands for a record.
-- What is written is first seen as a list of elements; reading folds over them.

namespace Chronicle.Body

open Wire

theorem ofBits64_toNat (n : Int64) : ofBits64 n.toUInt64.toNat = n := by
  simp [ofBits64]

theorem ofBits32_toNat (n : Int32) : ofBits32 n.toUInt32.toNat = n := by
  simp [ofBits32]

def textElements (number : Nat) (text : String) : List Element :=
  if text.isEmpty then [] else [⟨number, .delimited (Bytes.ofText text)⟩]

def wordElements (number : Nat) (word : UInt32) : List Element :=
  if word = 0 then [] else [⟨number, .fixed32 word.toNat⟩]

def Instant.microsElements (instant : Instant) : List Element :=
  if instant.micros = 0 then [] else [⟨1, .fixed64 instant.micros.toUInt64.toNat⟩]

def Instant.offsetElements (instant : Instant) : List Element :=
  match instant.offset with
  | none => []
  | some seconds => [⟨2, .fixed32 seconds.toUInt32.toNat⟩]

def Value.element : Value → Element
  | .bool b => ⟨3, .varint (if b then 1 else 0)⟩
  | .int n => ⟨4, .fixed64 n.toUInt64.toNat⟩
  | .uint n => ⟨5, .fixed64 n.toNat⟩
  | .float x => ⟨6, .fixed64 x.bits.toNat⟩
  | .text s => ⟨7, .delimited (Bytes.ofText s)⟩
  | .bytes bs => ⟨8, .delimited bs⟩
  | .timestamp t => ⟨9, .delimited t.encode⟩

def Field.valueElements (field : Field) : List Element :=
  match field.value with
  | none => []
  | some value => [value.element]

def timestampElements (body : Body) : List Element :=
  match body.timestamp with
  | none => []
  | some instant => [⟨4, .delimited instant.encode⟩]

def fieldElements (fields : List Field) : List Element :=
  fields.map fun field => ⟨5, .delimited field.encode⟩

section Writing

variable {depth : Nat} {rest : Bytes} {elements : List Element}

theorem size_le_length_textElement (number : Nat) (text : String) :
    (Bytes.ofText text).length ≤ (textElement number text).length := by
  unfold textElement
  split
  · rename_i h
    simp [String.isEmpty_iff.mp h, Bytes.length_ofText]
  · exact length_le_length_ofDelimited _ _

theorem holds_textElement {number : Nat} {text : String} (hpos : 0 < number)
    (hnumber : number < twoTo 29) (hlength : (Bytes.ofText text).length < twoTo 64)
    (h : Holds depth rest elements) :
    Holds depth (textElement number text ++ rest) (textElements number text ++ elements) := by
  unfold textElement textElements
  split
  · exact h
  · exact holds_ofDelimited hpos hnumber hlength h

theorem holds_wordElement {number : Nat} {word : UInt32} (hpos : 0 < number)
    (hnumber : number < twoTo 29) (h : Holds depth rest elements) :
    Holds depth (wordElement number word ++ rest) (wordElements number word ++ elements) := by
  unfold wordElement wordElements
  split
  · exact h
  · exact holds_ofFixed32 hpos hnumber word.toNat_lt h

theorem Instant.holds_encode (depth : Nat) (instant : Instant) :
    Holds depth instant.encode (instant.microsElements ++ instant.offsetElements) := by
  have hoffset : Holds depth
      (match instant.offset with
        | none => []
        | some seconds => Element.ofFixed32 2 seconds.toUInt32.toNat) instant.offsetElements := by
    unfold offsetElements
    split
    · exact holds_nil depth
    · rename_i seconds _
      have hword : seconds.toUInt32.toNat < twoTo 32 := seconds.toUInt32.toNat_lt
      have helement : Holds depth (Element.ofFixed32 2 seconds.toUInt32.toNat ++ [])
          [⟨2, .fixed32 seconds.toUInt32.toNat⟩] :=
        holds_ofFixed32 (by decide) (by decide) hword (holds_nil depth)
      simpa using helement
  unfold Instant.encode microsElements
  split
  · exact hoffset
  · exact holds_ofFixed64 (by decide) (by decide) instant.micros.toUInt64.toNat_lt hoffset

-- The bytes inside a value, none of which may be too many to be counted.
def Value.size : Value → Nat
  | .text s => (Bytes.ofText s).length
  | .bytes bs => bs.length
  | .timestamp t => t.encode.length
  | _ => 0

theorem Value.size_le_length_encode (value : Value) : value.size ≤ value.encode.length := by
  cases value with
  | text s => exact length_le_length_ofDelimited _ _
  | bytes bs => exact length_le_length_ofDelimited _ _
  | timestamp t => exact length_le_length_ofDelimited _ _
  | _ => exact Nat.zero_le _

theorem Value.holds_encode {value : Value} (hsize : value.size < twoTo 64)
    (h : Holds depth rest elements) :
    Holds depth (value.encode ++ rest) (value.element :: elements) := by
  cases value with
  | bool b => exact holds_ofVarint (by decide) (by decide) (by cases b <;> decide) h
  | int n => exact holds_ofFixed64 (by decide) (by decide) n.toUInt64.toNat_lt h
  | uint n => exact holds_ofFixed64 (by decide) (by decide) n.toNat_lt h
  | float x => exact holds_ofFixed64 (by decide) (by decide) x.bits.toNat_lt h
  | text s => exact holds_ofDelimited (by decide) (by decide) hsize h
  | bytes bs => exact holds_ofDelimited (by decide) (by decide) hsize h
  | timestamp t => exact holds_ofDelimited (by decide) (by decide) hsize h

theorem Field.holds_encode (depth : Nat) {field : Field}
    (hlength : field.encode.length < twoTo 64) :
    Holds depth field.encode
      (wordElements 1 field.tag ++ (textElements 2 field.name ++ field.valueElements)) := by
  have hparts : field.encode = wordElement 1 field.tag ++ (textElement 2 field.name ++
      match field.value with
      | none => []
      | some value => value.encode) := List.append_assoc _ _ _
  have hname : (Bytes.ofText field.name).length < twoTo 64 := by
    have hle := size_le_length_textElement 2 field.name
    rw [hparts] at hlength
    simp only [List.length_append] at hlength
    omega
  have hvalue : Holds depth
      (match field.value with
        | none => []
        | some value => value.encode) field.valueElements := by
    unfold valueElements
    cases hv : field.value with
    | none => exact holds_nil depth
    | some value =>
        have hle := value.size_le_length_encode
        rw [hparts, hv] at hlength
        simp only [List.length_append] at hlength
        simpa using Value.holds_encode (by omega) (holds_nil depth)
  rw [hparts]
  exact holds_wordElement (by decide) (by decide)
    (holds_textElement (by decide) (by decide) hname hvalue)

theorem holds_fields {fields : List Field}
    (hlength : ∀ field ∈ fields, field.encode.length < twoTo 64) :
    Holds depth (fields.flatMap fun field => Element.ofDelimited 5 field.encode)
      (fieldElements fields) := by
  induction fields with
  | nil => exact holds_nil depth
  | cons field fields ih =>
      have hrest := ih fun other h => hlength other (List.mem_cons_of_mem _ h)
      exact holds_ofDelimited (by decide) (by decide) (hlength field List.mem_cons_self) hrest

-- No part of a body is longer than the body.
theorem length_field_le {body : Body} {field : Field} (h : field ∈ body.fields) :
    field.encode.length ≤ body.encode.length := by
  have hfield := length_le_length_ofDelimited 5 field.encode
  have hsum : (Element.ofDelimited 5 field.encode).length ≤
      (body.fields.flatMap fun field => Element.ofDelimited 5 field.encode).length := by
    obtain ⟨before, after, hfields⟩ := List.append_of_mem h
    simp only [hfields, List.flatMap_append, List.flatMap_cons, List.length_append]
    omega
  rw [encode, List.length_append]
  omega

theorem holds_encode (depth : Nat) {body : Body} (hlength : body.encode.length < twoTo 64) :
    Holds depth body.encode
      (textElements 1 body.kind ++ (wordElements 2 body.version ++ (textElements 3 body.entity ++
        (body.timestampElements ++ fieldElements body.fields)))) := by
  have hfields : Holds depth (body.fields.flatMap fun field => Element.ofDelimited 5 field.encode)
      (fieldElements body.fields) :=
    holds_fields fun field h => Nat.lt_of_le_of_lt (length_field_le h) hlength
  have hkind := size_le_length_textElement 1 body.kind
  have hentity := size_le_length_textElement 3 body.entity
  have htimestamp : Holds depth
      ((match body.timestamp with
        | none => []
        | some instant => Element.ofDelimited 4 instant.encode) ++
          body.fields.flatMap fun field => Element.ofDelimited 5 field.encode)
      (body.timestampElements ++ fieldElements body.fields) := by
    unfold timestampElements
    cases ht : body.timestamp with
    | none => exact hfields
    | some instant =>
        have hle := length_le_length_ofDelimited 4 instant.encode
        rw [encode, ht] at hlength
        simp only [List.length_append] at hlength
        exact holds_ofDelimited (by decide) (by decide) (by omega) hfields
  rw [encode] at hlength ⊢
  simp only [List.length_append] at hlength
  simp only [List.append_assoc]
  exact holds_textElement (by decide) (by decide) (by omega)
    (holds_wordElement (by decide) (by decide)
      (holds_textElement (by decide) (by decide) (by omega) htimestamp))

end Writing

section Reading

theorem Instant.foldlM_elements (instant : Instant) :
    (instant.microsElements ++ instant.offsetElements).foldlM addElement ⟨0, none⟩ =
      some instant := by
  obtain ⟨micros, offset⟩ := instant
  by_cases hmicros : micros = 0 <;> cases offset <;>
    simp [microsElements, offsetElements, hmicros, addElement, ofBits64_toNat, ofBits32_toNat]

theorem Instant.merge?_encode (depth : Nat) (instant : Instant) :
    Instant.merge? depth ⟨0, none⟩ instant.encode = some instant := by
  rw [merge?, (Instant.holds_encode depth instant).elements?]
  exact foldlM_elements instant

-- A written value replaces the absent one.
theorem Field.addElement_value (depth : Nat) (tag : UInt32) (name : String) (value : Value) :
    addElement depth ⟨tag, name, none⟩ value.element = some ⟨tag, name, some value⟩ := by
  cases value with
  | bool b => cases b <;> simp [addElement, Value.element]
  | int n => simp [addElement, Value.element, ofBits64_toNat]
  | uint n => simp [addElement, Value.element]
  | float x => simp [addElement, Value.element, Binary64.ofNatBits]
  | text s => simp [addElement, Value.element, Bytes.toText?_ofText]
  | bytes bs => simp [addElement, Value.element]
  | timestamp t => simp [addElement, Value.element, Value.instantOr, Instant.merge?_encode]

theorem Field.foldlM_elements (depth : Nat) (field : Field) :
    (wordElements 1 field.tag ++ (textElements 2 field.name ++ field.valueElements)).foldlM
      (addElement depth) ⟨0, "", none⟩ = some field := by
  obtain ⟨tag, name, value⟩ := field
  have htag : (wordElements 1 tag).foldlM (addElement depth) ⟨0, "", none⟩ =
      some ⟨tag, "", none⟩ := by
    by_cases h : tag = 0 <;> simp [wordElements, h, addElement]
  have hname : (textElements 2 name).foldlM (addElement depth) ⟨tag, "", none⟩ =
      some ⟨tag, name, none⟩ := by
    by_cases h : name = "" <;> simp [textElements, h, addElement, Bytes.toText?_ofText]
  have hvalue : (Field.valueElements ⟨tag, name, value⟩).foldlM (addElement depth)
      ⟨tag, name, none⟩ = some ⟨tag, name, value⟩ := by
    cases value with
    | none => rfl
    | some value => simp [valueElements, addElement_value]
  simp only [List.foldlM_append, htag, hname, hvalue, Option.bind_eq_bind, Option.bind_some]

theorem Field.decode?_encode (depth : Nat) {field : Field}
    (hlength : field.encode.length < twoTo 64) :
    Field.decode? depth field.encode = some field := by
  rw [Field.decode?, (Field.holds_encode depth hlength).elements?]
  exact Field.foldlM_elements depth field

-- Fields are gathered in reverse behind those that are there already.
theorem foldlM_fieldElements (depth : Nat) (body : Body) {fields : List Field}
    (hlength : ∀ field ∈ fields, field.encode.length < twoTo 64) :
    (fieldElements fields).foldlM (addElement depth) body =
      some { body with fields := fields.reverse ++ body.fields } := by
  induction fields generalizing body with
  | nil => rfl
  | cons field fields ih =>
      have hfield := Field.decode?_encode (depth - 1) (hlength field List.mem_cons_self)
      have hrest := ih { body with fields := field :: body.fields }
        fun other h => hlength other (List.mem_cons_of_mem _ h)
      simp only [fieldElements, List.map_cons, List.foldlM_cons] at hrest ⊢
      simp [addElement, hfield, hrest]

theorem foldlM_elements (depth : Nat) {body : Body} (hlength : body.encode.length < twoTo 64) :
    (textElements 1 body.kind ++ (wordElements 2 body.version ++ (textElements 3 body.entity ++
      (body.timestampElements ++ fieldElements body.fields)))).foldlM
        (addElement depth) ⟨"", 0, "", none, []⟩ =
      some { body with fields := body.fields.reverse } := by
  have hfields : ∀ field ∈ body.fields, field.encode.length < twoTo 64 :=
    fun field h => Nat.lt_of_le_of_lt (length_field_le h) hlength
  obtain ⟨kind, version, entity, timestamp, fields⟩ := body
  have hkind : (textElements 1 kind).foldlM (addElement depth) ⟨"", 0, "", none, []⟩ =
      some ⟨kind, 0, "", none, []⟩ := by
    by_cases h : kind = "" <;> simp [textElements, h, addElement, Bytes.toText?_ofText]
  have hversion : (wordElements 2 version).foldlM (addElement depth) ⟨kind, 0, "", none, []⟩ =
      some ⟨kind, version, "", none, []⟩ := by
    by_cases h : version = 0 <;> simp [wordElements, h, addElement]
  have hentity : (textElements 3 entity).foldlM (addElement depth)
      ⟨kind, version, "", none, []⟩ = some ⟨kind, version, entity, none, []⟩ := by
    by_cases h : entity = "" <;> simp [textElements, h, addElement, Bytes.toText?_ofText]
  have htimestamp : (timestampElements ⟨kind, version, entity, timestamp, fields⟩).foldlM
      (addElement depth) ⟨kind, version, entity, none, []⟩ =
      some ⟨kind, version, entity, timestamp, []⟩ := by
    cases timestamp with
    | none => rfl
    | some instant => simp [timestampElements, addElement, Instant.merge?_encode]
  simp only [List.foldlM_append, hkind, hversion, hentity, htimestamp,
    foldlM_fieldElements depth _ hfields, Option.bind_eq_bind, Option.bind_some, List.append_nil]

theorem decode?_encode {body : Body} (hlength : body.encode.length < twoTo 64) :
    decode? body.encode = some body := by
  simp [decode?, (holds_encode maxDepth hlength).elements?, foldlM_elements maxDepth hlength]

end Reading

end Chronicle.Body
