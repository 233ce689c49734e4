import Chronicle.Import.Importer
import Chronicle.Proofs.Payload
import Chronicle.Proofs.RecordKey
import Chronicle.Proofs.Schema

-- What an entry of a document becomes under a schema: a record that fits the
-- schema, of an entity that can be part of a key.

namespace Chronicle

namespace Decimal

theorem placePoint_ne_empty {wholeSuffix : String} (h : wholeSuffix ≠ "") (digits : String)
    (point : Int) : placePoint wholeSuffix digits point ≠ "" := by
  unfold placePoint
  by_cases hsmall : point ≤ 0
  · simp [hsmall, String.append_eq_empty_iff]
  · by_cases hwhole : (digits.toList.length : Int) ≤ point
    · simp only [hsmall, hwhole, if_true, if_false, ne_eq, String.append_eq_empty_iff, not_and]
      exact fun _ => h
    · simp [hsmall, hwhole, String.append_eq_empty_iff]

theorem withExponent_ne_empty (digits : String) (point : Int) : withExponent digits point ≠ "" := by
  simp [withExponent, String.append_eq_empty_iff]

theorem render_json_ne_empty (x : Binary64) : json.render x ≠ "" := by
  have hsuffix : json.wholeSuffix ≠ "" := by decide
  have hmagnitude : json.magnitude x ≠ "" := by
    unfold Notation.magnitude
    split
    · simp [String.append_eq_empty_iff]
    · dsimp only [json]
      split
      · exact placePoint_ne_empty hsuffix _ _
      · exact withExponent_ne_empty _ _
  unfold Notation.render
  split
  · decide
  · split
    · rw [ne_eq, String.append_eq_empty_iff, not_and]
      exact fun _ => hmagnitude
    · split <;> decide

end Decimal

theorem JsonNumber.render_ne_empty (n : JsonNumber) : n.render ≠ "" := by
  cases n with
  | float x => exact Decimal.render_json_ne_empty x
  | int n =>
      cases n with
      | ofNat n => exact Nat.repr_ne_empty
      | negSucc n => simp [render, toString, Int.repr, String.append_eq_empty_iff]

namespace Import

-- A record under a schema, as a store takes it.
structure Conforms (schema : Schema) (record : Record) : Prop where
  kind_eq : record.kind = schema.kind
  version_eq : record.version = schema.version
  check_eq : schema.check record.payload = .ok ()
  isEntity : RecordKey.IsEntity record.entity

-- A default of a source is of the type of its slot.
def Source.IsTyped (source : Source) : Prop :=
  ∀ value, source.default = some value → value.type = source.slot.type

namespace Importer

variable {importer : Importer} {config : Config} {schema : Schema} {entry : Json}

theorem entityText_ne_empty {tree : Json} {text : String} (h : entityText? tree = some text) :
    text ≠ "" := by
  cases tree with
  | string s =>
      by_cases hblank : Text.trim s.toList = []
      · simp [entityText?, hblank] at h
      · simp only [entityText?, hblank, if_false, Option.some.injEq] at h
        subst h
        rintro rfl
        exact hblank rfl
  | number n =>
      cases h
      exact n.render_ne_empty
  | null => contradiction
  | bool b => contradiction
  | array items => contradiction
  | object members => contradiction

theorem entity_eq_ok {text : String} (h : entity config entry = .ok text) :
    RecordKey.IsEntity text := by
  unfold entity at h
  cases hfound : (entry.lookup config.entity).bind entityText? with
  | none => simp [hfound] at h
  | some found =>
      obtain ⟨tree, _, htext⟩ := Option.bind_eq_some_iff.mp hfound
      by_cases hlong : RecordKey.maxEntity < found.utf8ByteSize
      · simp [hfound, hlong] at h
      · simp only [hfound, hlong, if_false, Except.ok.injEq] at h
        subst h
        exact ⟨entityText_ne_empty htext, Nat.not_lt.mp hlong⟩

theorem type_of_convert {type : FieldType} {tree : Json} {value : Value}
    (h : importer.convert? type tree = some value) : value.type = type := by
  unfold convert? at h
  by_cases htype : type = .timestamp
  · rw [if_pos htype] at h
    obtain ⟨timestamp, _, rfl⟩ := Option.map_eq_some_iff.mp h
    exact htype.symm
  · rw [if_neg htype] at h
    obtain ⟨read, _, hcoerce⟩ := Option.bind_eq_some_iff.mp h
    exact Value.type_coerce? hcoerce

section Sources

variable {slot : Slot} {source : Source} {sources : List Source}

-- A default comes from the configuration, made to fit the slot, or from the slot.
theorem source_eq_ok (hslot : ∀ value, slot.default = some value → value.type = slot.type)
    (h : Importer.source config slot = .ok source) : source.slot = slot ∧ source.IsTyped := by
  unfold Importer.source at h
  cases hdefault : config.defaults.get? slot.name with
  | none =>
      simp only [hdefault, Except.ok.injEq] at h
      subst h
      exact ⟨rfl, hslot⟩
  | some value =>
      cases hcoerced : value.coerce? slot.type with
      | none => simp [hdefault, hcoerced] at h
      | some coerced =>
          simp only [hdefault, hcoerced, Except.ok.injEq] at h
          subst h
          refine ⟨rfl, fun value hvalue => ?_⟩
          cases hvalue
          exact Value.type_coerce? hcoerced

theorem slot_of_mem_sources (hnormal : schema.Normal)
    (h : Importer.sources config schema = .ok sources) (hmem : source ∈ sources) :
    source.slot ∈ schema.slots ∧ source.IsTyped := by
  obtain ⟨⟨⟩, _, hsources⟩ := bind_eq_ok.mp h
  obtain ⟨slot, hslot, hsource⟩ := exists_of_mem_mapM hsources hmem
  obtain ⟨hsame, htyped⟩ := source_eq_ok (hnormal.typed slot hslot) hsource
  exact ⟨by rwa [hsame], htyped⟩

theorem exists_source (hnormal : schema.Normal)
    (h : Importer.sources config schema = .ok sources) (hmem : slot ∈ schema.slots) :
    ∃ source ∈ sources, source.slot = slot := by
  obtain ⟨⟨⟩, _, hsources⟩ := bind_eq_ok.mp h
  obtain ⟨source, hsource, hok⟩ := exists_mem_of_mapM hsources hmem
  exact ⟨source, hsource, (source_eq_ok (hnormal.typed slot hmem) hok).1⟩

end Sources

section Fields

variable {source : Source} {field : Field}

theorem field?_eq_some (htyped : source.IsTyped)
    (h : importer.field? entry source = .ok (some field)) :
    source.slot.tag = field.tag ∧ source.slot.name = field.name ∧
      source.slot.type = field.value.type := by
  simp only [field?] at h
  split at h
  · split at h
    · rename_i value hvalue
      cases h
      exact ⟨rfl, rfl, (type_of_convert hvalue).symm⟩
    · contradiction
  · split at h
    · rename_i value hvalue
      cases h
      exact ⟨rfl, rfl, (htyped value hvalue).symm⟩
    · split at h <;> cases h

theorem required_of_field?_eq_none (h : importer.field? entry source = .ok none) :
    source.slot.required = false := by
  simp only [field?] at h
  split at h
  · split at h <;> cases h
  · split at h
    · cases h
    · split at h
      · contradiction
      · rename_i hrequired
        exact Bool.eq_false_iff.mpr hrequired

theorem slotless_of_mem_extraFields {consumed : List String} {members : List (String × Json)}
    (h : field ∈ extraFields config schema consumed members) :
    field.tag = Field.untagged ∧ schema.byName? field.name = none := by
  unfold extraFields at h
  split at h
  · obtain ⟨member, _, hextra⟩ := List.mem_filterMap.mp h
    simp only [extraField?] at hextra
    split at hextra
    · contradiction
    · rename_i hfree
      cases hextra
      simp only [Bool.or_eq_true, not_or, Option.not_isSome_iff_eq_none] at hfree
      exact ⟨rfl, hfree.2⟩
  · contradiction

end Fields

-- Fields that come from slots and fields without a slot pass the check together,
-- and no required field is missing.
theorem conforms_of_record {sources : List Source} {record : Record} (hnormal : schema.Normal)
    (hsources : Importer.sources importer.config schema = .ok sources)
    (h : importer.record schema sources entry = .ok record) : Conforms schema record := by
  cases entry with
  | object members =>
      simp only [Importer.record] at h
      obtain ⟨entity, hentity, h⟩ := bind_eq_ok.mp h
      obtain ⟨timestamp, _, h⟩ := bind_eq_ok.mp h
      obtain ⟨fields, hfields, h⟩ := bind_eq_ok.mp h
      cases h
      refine ⟨rfl, rfl, Schema.check_eq_ok.mpr ⟨?_, ?_⟩, entity_eq_ok hentity⟩
      · intro field hfield
        rcases List.mem_append.mp (Payload.mem_of_ofList hfield) with hslot | hextra
        · obtain ⟨found, hfound, hsome⟩ := List.mem_filterMap.mp hslot
          rw [id_eq] at hsome
          subst hsome
          obtain ⟨source, hsource, hok⟩ := exists_of_mem_mapM hfields hfound
          obtain ⟨hslot, htyped⟩ := slot_of_mem_sources hnormal hsources hsource
          obtain ⟨htag, hname, htype⟩ := field?_eq_some htyped hok
          exact hnormal.agrees_self.checkField_eq_ok hslot htag hname htype
        · obtain ⟨htag, hname⟩ := slotless_of_mem_extraFields hextra
          refine (Schema.checkField_of_no_slot hname).mpr (Schema.byTag?_eq_none_iff.mpr ?_)
          rw [htag]
          exact hnormal.orderly.tagged
      · intro slot hslot hrequired
        obtain ⟨source, hsource, rfl⟩ := exists_source hnormal hsources hslot
        obtain ⟨found, hfound, hok⟩ := exists_mem_of_mapM hfields hsource
        cases found with
        | none =>
            rw [required_of_field?_eq_none hok] at hrequired
            contradiction
        | some field =>
            have htyped := (slot_of_mem_sources hnormal hsources hsource).2
            refine Payload.contains_ofList.mpr ⟨field, ?_, (field?_eq_some htyped hok).2.1.symm⟩
            exact List.mem_append_left _ (List.mem_filterMap.mpr ⟨some field, hfound, rfl⟩)
  | null => contradiction
  | bool b => contradiction
  | number n => contradiction
  | string s => contradiction
  | array items => contradiction

end Importer

end Import

end Chronicle
