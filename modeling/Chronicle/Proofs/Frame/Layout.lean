import Chronicle.Proofs.Frame

-- The message in a frame as its slots are declared: whether something is written
-- for a slot depends on the kind of slot and on nothing else. A frame of any message
-- is read back as that message, also where it makes no sense as a record.

namespace Chronicle

namespace Wire

def Element.encode (element : Element) : Bytes :=
  match element.content with
  | .varint n => ofVarint element.number n
  | .fixed64 n => ofFixed64 element.number n
  | .delimited bytes => ofDelimited element.number bytes
  | .fixed32 n => ofFixed32 element.number n
  -- A group opens and closes with its number.
  | .group => key element.number 3 ++ key element.number 4

-- What a slot without an element stands for.
def Content.isDefault : Content → Bool
  | .varint n => n == 0
  | .fixed64 n => n == 0
  | .delimited bytes => bytes.isEmpty
  | .fixed32 n => n == 0
  | .group => false

-- The content of a slot, by the kind of the slot.
inductive Presence where
  -- Always has a value, which is left out when it is the default.
  | implicit (content : Content)
  -- May have no value; any value is written, the default too.
  | explicit (content : Option Content)
  | repeated (contents : List Content)

def Presence.contents : Presence → List Content
  | .implicit content => if content.isDefault then [] else [content]
  | .explicit content => content.toList
  | .repeated contents => contents

-- The slots of a message with their numbers.
abbrev Message := List (Nat × Presence)

namespace Message

def elements (message : Message) : List Element :=
  message.flatMap fun slot => slot.2.contents.map fun content => ⟨slot.1, content⟩

def encode (message : Message) : Bytes := (elements message).flatMap Element.encode

@[simp] theorem elements_nil : elements [] = [] := rfl

@[simp] theorem elements_cons (slot : Nat × Presence) (message : Message) :
    elements (slot :: message) =
      (slot.2.contents.map fun content => ⟨slot.1, content⟩) ++ elements message := rfl

theorem encode_cons (slot : Nat × Presence) (message : Message) :
    encode (slot :: message) =
      (slot.2.contents.flatMap fun content => Element.encode ⟨slot.1, content⟩) ++
        encode message := by
  rw [encode, elements_cons, List.flatMap_append, List.flatMap_map, encode]

end Message

end Wire

namespace Body

open Wire

-- A text and a number of a slot that always has a value.
def textSlot (text : String) : Presence := .implicit (.delimited (Bytes.ofText text))

def wordSlot (word : UInt32) : Presence := .implicit (.fixed32 word.toNat)

def Instant.message (instant : Instant) : Message :=
  [(1, .implicit (.fixed64 instant.micros.toUInt64.toNat)),
    (2, .explicit (instant.offset.map fun seconds => .fixed32 seconds.toUInt32.toNat))]

-- One of the slots 3 to 9 holds the value, if there is one.
def Value.slot : Value → Nat × Content
  | .bool b => (3, .varint (if b then 1 else 0))
  | .int n => (4, .fixed64 n.toUInt64.toNat)
  | .uint n => (5, .fixed64 n.toNat)
  | .float x => (6, .fixed64 x.bits.toNat)
  | .text s => (7, .delimited (Bytes.ofText s))
  | .bytes bs => (8, .delimited bs)
  | .timestamp t => (9, .delimited t.message.encode)

def Field.message (field : Field) : Message :=
  (1, wordSlot field.tag) :: (2, textSlot field.name) ::
    match field.value with
    | none => []
    | some value => [(value.slot.1, .explicit (some value.slot.2))]

def message (body : Body) : Message :=
  [(1, textSlot body.kind), (2, wordSlot body.version), (3, textSlot body.entity),
    (4, .explicit (body.timestamp.map fun instant => .delimited instant.message.encode)),
    (5, .repeated (body.fields.map fun field => .delimited field.message.encode))]

theorem contents_textSlot (text : String) :
    (textSlot text).contents = if text = "" then [] else [.delimited (Bytes.ofText text)] := by
  simp [textSlot, Presence.contents, Content.isDefault, List.isEmpty_iff, Bytes.ofText_eq_nil]

theorem contents_wordSlot (word : UInt32) :
    (wordSlot word).contents = if word = 0 then [] else [.fixed32 word.toNat] := by
  have hzero : word.toNat = 0 ↔ word = 0 := by rw [← UInt32.toNat_inj]; rfl
  simp [wordSlot, Presence.contents, Content.isDefault, hzero]

theorem contents_micros (micros : Int64) :
    (Presence.implicit (.fixed64 micros.toUInt64.toNat)).contents =
      if micros = 0 then [] else [.fixed64 micros.toUInt64.toNat] := by
  have hzero : micros.toUInt64.toNat = 0 ↔ micros = 0 := by
    constructor
    · intro h
      have hword : micros.toUInt64 = 0 := UInt64.toNat_inj.mp h
      rw [← Int64.toInt64_toUInt64 micros, hword]
      rfl
    · rintro rfl
      rfl
  simp [Presence.contents, Content.isDefault, hzero]

theorem textElement_eq (number : Nat) (text : String) :
    textElement number text =
      (textSlot text).contents.flatMap fun content => Element.encode ⟨number, content⟩ := by
  rw [textElement, contents_textSlot]
  by_cases h : text = "" <;> simp [h, Element.encode]

theorem wordElement_eq (number : Nat) (word : UInt32) :
    wordElement number word =
      (wordSlot word).contents.flatMap fun content => Element.encode ⟨number, content⟩ := by
  rw [wordElement, contents_wordSlot]
  by_cases h : word = 0 <;> simp [h, Element.encode]

theorem Instant.encode_eq (instant : Instant) : instant.encode = instant.message.encode := by
  obtain ⟨micros, offset⟩ := instant
  simp only [Instant.encode, Instant.message, Message.encode_cons, contents_micros]
  by_cases h : micros = 0 <;> cases offset <;>
    simp [h, Presence.contents, Element.encode, Message.encode]

theorem Value.encode_eq (value : Value) :
    value.encode = Element.encode ⟨value.slot.1, value.slot.2⟩ := by
  cases value with
  | timestamp t => simp [Value.encode, Value.slot, Element.encode, Instant.encode_eq]
  | _ => rfl

theorem Field.encode_eq (field : Field) : field.encode = field.message.encode := by
  obtain ⟨tag, name, value⟩ := field
  simp only [Field.encode, Field.message, Message.encode_cons, wordElement_eq, textElement_eq,
    List.append_assoc]
  cases value with
  | none => rfl
  | some value => simp [Message.encode, Presence.contents, Value.encode_eq]

theorem encode_eq (body : Body) : body.encode = body.message.encode := by
  obtain ⟨kind, version, entity, timestamp, fields⟩ := body
  have hfields : (fields.flatMap fun field => Element.ofDelimited 5 field.encode) =
      (Presence.repeated (fields.map fun field =>
        .delimited field.message.encode)).contents.flatMap fun content =>
          Element.encode ⟨5, content⟩ := by
    simp [Presence.contents, Element.encode, Field.encode_eq, List.flatMap_map]
  have hend : Message.encode [] = [] := rfl
  simp only [encode, message, Message.encode_cons, wordElement_eq, textElement_eq, hfields, hend,
    List.append_assoc, List.append_nil]
  cases timestamp with
  | none => rfl
  | some instant => simp [Presence.contents, Element.encode, Instant.encode_eq]

-- An instant of defaults is there, and so are a field without a value and a false one.
example : (Body.mk "" 0 "" none []).encode = [] ∧
    (Body.mk "" 0 "" (some ⟨0, none⟩) [⟨0, "", none⟩, ⟨0, "", some (.bool false)⟩]).encode =
      [34, 0, 42, 0, 42, 2, 24, 0] := by cbv

-- The elements that are written for the slots are those that are found.
theorem elements_message (body : Body) :
    body.message.elements =
      textElements 1 body.kind ++ (wordElements 2 body.version ++ (textElements 3 body.entity ++
        (body.timestampElements ++ fieldElements body.fields))) := by
  have htext : ∀ number text, textElements number text =
      (textSlot text).contents.map fun content => ⟨number, content⟩ := by
    intro number text
    rw [textElements, contents_textSlot]
    by_cases h : text = "" <;> simp [h]
  have hword : ∀ number word, wordElements number word =
      (wordSlot word).contents.map fun content => ⟨number, content⟩ := by
    intro number word
    rw [wordElements, contents_wordSlot]
    by_cases h : word = 0 <;> simp [h]
  obtain ⟨kind, version, entity, timestamp, fields⟩ := body
  cases timestamp <;>
    simp [message, htext, hword, timestampElements, fieldElements, Presence.contents,
      Instant.encode_eq, Field.encode_eq]

end Body

namespace Frame

-- A message is framed exactly when it is not too long, and then all of it is kept:
-- what is there is found again, and what is absent is not.
structure Keeps (body : Body) : Prop where
  framed_iff : (∃ bytes, pack body = .ok bytes) ↔ body.message.encode.length ≤ 16 * 1024 * 1024
  refused : ∀ error, pack body = .error error →
    error = .tooLarge body.message.encode.length (16 * 1024 * 1024)
  read_back : ∀ bytes, pack body = .ok bytes → unpack bytes = .ok body
  parts : ∀ bytes, pack body = .ok bytes → ∃ inner, unwrap bytes = .ok inner ∧
    Wire.elements? Body.maxDepth inner = some body.message.elements
  told_apart : ∀ bytes, pack body = .ok bytes → ∀ other, pack other = .ok bytes → other = body

theorem pack_eq_ok {body : Body} {bytes : Bytes} :
    pack body = .ok bytes ↔ body.encode.length ≤ maxBody ∧ bytes = wrap body.encode := by
  rw [pack]
  split_ifs with hlong
  · simp [Nat.not_le.mpr hlong]
  · simp [Nat.not_lt.mp hlong, eq_comm]

theorem unpack_of_pack {body : Body} {bytes : Bytes} (h : pack body = .ok bytes) :
    unpack bytes = .ok body := by
  obtain ⟨hlength, rfl⟩ := pack_eq_ok.mp h
  exact unpack_wrap hlength

-- Every message there is, whatever its slots hold.
theorem keeps_pack (body : Body) : Keeps body := by
  refine ⟨?_, ?_, fun bytes => unpack_of_pack, ?_, ?_⟩
  · have hlimit : maxBody = 16 * 1024 * 1024 := rfl
    simp only [pack_eq_ok, exists_and_left, exists_eq, and_true, hlimit, Body.encode_eq]
  · intro error herror
    rw [pack] at herror
    split_ifs at herror
    rw [← Except.error.inj herror, ← Body.encode_eq]
    rfl
  · intro bytes hbytes
    obtain ⟨hlength, rfl⟩ := pack_eq_ok.mp hbytes
    refine ⟨body.encode, unwrap_wrap hlength, ?_⟩
    rw [Body.elements_message]
    exact (Body.holds_encode _ (Nat.lt_of_le_of_lt hlength (by decide))).elements?
  · intro bytes hbytes other hother
    have hsame := (unpack_of_pack hother).symm.trans (unpack_of_pack hbytes)
    exact Except.ok.inj hsame

end Frame

end Chronicle
