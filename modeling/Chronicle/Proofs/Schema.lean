import Chronicle.Proofs.Keyed
import Chronicle.Proofs.Outcome
import Chronicle.Proofs.Payload
import Chronicle.Schema

-- What it means that a payload fits a schema, that a schema obeys the rules and
-- that one schema only appends to another.

namespace Chronicle

namespace Value

theorem type_ofInt? {n : Int} {value : Value} (h : ofInt? n = some value) : value.type = .int := by
  unfold ofInt? at h
  split at h
  · cases h
    rfl
  · contradiction

theorem type_ofNat? {n : Int} {value : Value} (h : ofNat? n = some value) : value.type = .uint := by
  unfold ofNat? at h
  split at h
  · cases h
    rfl
  · contradiction

theorem type_floatOfInt? {n : Int} {value : Value} (h : floatOfInt? n = some value) :
    value.type = .float := by
  unfold floatOfInt? at h
  split at h
  · cases h
    rfl
  · contradiction

theorem type_coerce? {value coerced : Value} {type : FieldType}
    (h : value.coerce? type = some coerced) : coerced.type = type := by
  unfold coerce? at h
  split at h
  · rename_i hsame
    cases h
    exact hsame
  · split at h
    · exact type_ofNat? h
    · exact type_ofInt? h
    · exact type_floatOfInt? h
    · exact type_floatOfInt? h
    · obtain ⟨n, _, hn⟩ := Option.bind_eq_some_iff.mp h
      exact type_ofInt? hn
    · obtain ⟨n, _, hn⟩ := Option.bind_eq_some_iff.mp h
      exact type_ofNat? hn
    · cases h
      rfl
    · obtain ⟨t, _, rfl⟩ := Option.map_eq_some_iff.mp h
      rfl
    · contradiction

end Value

namespace Schema

-- The rules for the slots of a schema.
structure Orderly (slots : List Slot) : Prop where
  tagged : ∀ slot ∈ slots, slot.tag ≠ Field.untagged
  named : ∀ slot ∈ slots, slot.name ≠ ""
  distinct : slots.Pairwise fun first second =>
    first.tag ≠ second.tag ∧ first.name ≠ second.name

theorem orderly_of_checkSlots {seen slots : List Slot} (h : checkSlots seen slots = .ok ()) :
    Orderly slots ∧
      ∀ slot ∈ slots, ∀ other ∈ seen, other.tag ≠ slot.tag ∧ other.name ≠ slot.name := by
  induction slots generalizing seen with
  | nil => exact ⟨⟨by simp, by simp, .nil⟩, by simp⟩
  | cons slot rest ih =>
      rw [checkSlots] at h
      split at h
      · contradiction
      · rename_i htag
        split at h
        · contradiction
        · rename_i htags
          split at h
          · contradiction
          · rename_i hnames
            simp only [List.any_eq_true, decide_eq_true_eq, not_exists, not_and] at htags
            simp only [Bool.or_eq_true, List.any_eq_true, decide_eq_true_eq, not_or, not_exists,
              not_and, String.isEmpty_iff] at hnames
            obtain ⟨hrest, hseen⟩ := ih h
            refine ⟨⟨?_, ?_, ?_⟩, ?_⟩
            · exact List.forall_mem_cons.mpr ⟨htag, hrest.tagged⟩
            · exact List.forall_mem_cons.mpr ⟨hnames.1, hrest.named⟩
            · exact List.pairwise_cons.mpr
                ⟨fun other hother => hseen other hother slot List.mem_cons_self, hrest.distinct⟩
            · refine List.forall_mem_cons.mpr ⟨?_, ?_⟩
              · exact fun other hother => ⟨htags other hother, hnames.2 other hother⟩
              · intro later hlater other hother
                exact hseen later hlater other (List.mem_cons_of_mem _ hother)

-- A schema as a registry keeps it.
structure Normal (schema : Schema) : Prop where
  kind_ne : schema.kind ≠ ""
  version_ne : schema.version ≠ 0
  orderly : Orderly schema.slots
  typed : ∀ slot ∈ schema.slots, ∀ value, slot.default = some value → value.type = slot.type

-- A slot but for the value of its default.
def outline (slot : Slot) : Slot :=
  { slot with default := slot.default.map fun _ => .bool false }

theorem normalizeSlot_eq_ok {slot normal : Slot} (h : normalizeSlot slot = .ok normal) :
    outline normal = outline slot ∧
      ∀ value, normal.default = some value → value.type = normal.type := by
  unfold normalizeSlot at h
  split at h
  · rename_i hdefault
    cases h
    exact ⟨rfl, fun value he => by simp [hdefault] at he⟩
  · rename_i value hdefault
    split at h
    · rename_i coerced hcoerced
      cases h
      refine ⟨by simp [outline, hdefault], fun value he => ?_⟩
      cases he
      exact Value.type_coerce? hcoerced
    · contradiction

theorem outline_of_mapM {slots normal : List Slot}
    (h : slots.map normalizeSlot = normal.map Except.ok) :
    normal.map outline = slots.map outline ∧
      ∀ slot ∈ normal, ∀ value, slot.default = some value → value.type = slot.type := by
  induction slots generalizing normal with
  | nil =>
      have hnil : normal = [] := List.map_eq_nil_iff.mp h.symm
      subst hnil
      exact ⟨rfl, by simp⟩
  | cons slot slots ih =>
      cases normal with
      | nil => simp at h
      | cons first rest =>
          simp only [List.map_cons, List.cons.injEq] at h
          obtain ⟨houtline, htyped⟩ := normalizeSlot_eq_ok h.1
          obtain ⟨houtlines, hrest⟩ := ih h.2
          exact ⟨by rw [List.map_cons, List.map_cons, houtline, houtlines],
            List.forall_mem_cons.mpr ⟨htyped, hrest⟩⟩

-- The rules do not look at the values of defaults.
theorem orderly_of_outline {slots normal : List Slot}
    (h : normal.map outline = slots.map outline) (horderly : Orderly slots) : Orderly normal := by
  have htagged : ∀ o ∈ slots.map outline, o.tag ≠ Field.untagged :=
    List.forall_mem_map.mpr horderly.tagged
  have hnamed : ∀ o ∈ slots.map outline, o.name ≠ "" := List.forall_mem_map.mpr horderly.named
  have hdistinct : (slots.map outline).Pairwise fun o o' => o.tag ≠ o'.tag ∧ o.name ≠ o'.name :=
    List.pairwise_map.mpr horderly.distinct
  rw [← h] at htagged hnamed hdistinct
  exact ⟨fun slot hslot => htagged (outline slot) (List.mem_map_of_mem hslot),
    fun slot hslot => hnamed (outline slot) (List.mem_map_of_mem hslot),
    List.pairwise_map.mp hdistinct⟩

theorem normalize_cases {schema normal : Schema} (h : schema.normalize = .ok normal) :
    schema.kind ≠ "" ∧ schema.version ≠ 0 ∧ checkSlots [] schema.slots = .ok () ∧
      ∃ slots, schema.slots.mapM normalizeSlot = .ok slots ∧
        normal = { schema with slots := slots } := by
  have hkind : schema.kind.isEmpty = false := by
    cases hempty : schema.kind.isEmpty with
    | false => rfl
    | true => simp [normalize, hempty] at h
  have hversion : schema.version ≠ 0 := by
    intro hzero
    simp [normalize, hkind, hzero] at h
  simp only [normalize, hkind, hversion, if_false, Bool.false_eq_true] at h
  obtain ⟨⟨⟩, hcheck, h⟩ := bind_eq_ok.mp h
  obtain ⟨slots, hslots, h⟩ := bind_eq_ok.mp h
  cases h
  have hnonempty : schema.kind ≠ "" := by
    rintro hnil
    rw [hnil] at hkind
    contradiction
  exact ⟨hnonempty, hversion, hcheck, slots, hslots, rfl⟩

theorem normalize_eq_ok {schema normal : Schema} (h : schema.normalize = .ok normal) :
    normal.Normal ∧ normal.kind = schema.kind ∧ normal.version = schema.version ∧
      normal.slots.map outline = schema.slots.map outline := by
  obtain ⟨hkind, hversion, hcheck, slots, hslots, rfl⟩ := normalize_cases h
  obtain ⟨houtline, htyped⟩ := outline_of_mapM (mapM_eq_ok.mp hslots)
  have horderly := orderly_of_outline houtline (orderly_of_checkSlots hcheck).1
  exact ⟨⟨hkind, hversion, horderly, htyped⟩, rfl, rfl, houtline⟩

section Lookup

variable {schema : Schema} {slot : Slot}

theorem Normal.nodup_tags (h : schema.Normal) : (schema.slots.map (·.tag)).Nodup :=
  List.pairwise_map.mpr (h.orderly.distinct.imp And.left)

theorem Normal.nodup_names (h : schema.Normal) : (schema.slots.map (·.name)).Nodup :=
  List.pairwise_map.mpr (h.orderly.distinct.imp And.right)

theorem Normal.byTag?_eq_some_iff (h : schema.Normal) {tag : UInt32} :
    schema.byTag? tag = some slot ↔ slot ∈ schema.slots ∧ slot.tag = tag :=
  find?_key_eq_some_iff h.nodup_tags

theorem Normal.byName?_eq_some_iff (h : schema.Normal) {name : String} :
    schema.byName? name = some slot ↔ slot ∈ schema.slots ∧ slot.name = name :=
  find?_key_eq_some_iff h.nodup_names

theorem mem_of_byTag? {tag : UInt32} (h : schema.byTag? tag = some slot) :
    slot ∈ schema.slots ∧ slot.tag = tag :=
  ⟨List.mem_of_find?_eq_some h, by simpa using List.find?_some h⟩

theorem mem_of_byName? {name : String} (h : schema.byName? name = some slot) :
    slot ∈ schema.slots ∧ slot.name = name :=
  ⟨List.mem_of_find?_eq_some h, by simpa using List.find?_some h⟩

theorem byTag?_eq_none_iff {tag : UInt32} :
    schema.byTag? tag = none ↔ ∀ slot ∈ schema.slots, slot.tag ≠ tag := by
  simp [byTag?]

theorem byName?_eq_none_iff {name : String} :
    schema.byName? name = none ↔ ∀ slot ∈ schema.slots, slot.name ≠ name := by
  simp [byName?]

end Lookup

section Check

variable {schema : Schema} {payload : Payload} {field : Field}

theorem check_eq_ok :
    schema.check payload = .ok () ↔
      (∀ field ∈ payload.toList, schema.checkField field = .ok ()) ∧
      ∀ slot ∈ schema.slots, slot.required = true → payload.contains slot.name = true := by
  have hrequired : ∀ slot, checkRequired payload slot = .ok () ↔
      (slot.required = true → payload.contains slot.name = true) := by
    intro slot
    unfold checkRequired
    cases slot.required <;> cases payload.contains slot.name <;> simp
  rw [check, bind_eq_ok]
  constructor
  · rintro ⟨⟨⟩, hfields, hslots⟩
    exact ⟨forM_eq_ok.mp hfields, fun slot hslot => (hrequired slot).mp
      (forM_eq_ok.mp hslots slot hslot)⟩
  · rintro ⟨hfields, hslots⟩
    exact ⟨(), forM_eq_ok.mpr hfields, forM_eq_ok.mpr fun slot hslot =>
      (hrequired slot).mpr (hslots slot hslot)⟩

theorem checkField_of_slot {slot : Slot} (hslot : schema.byName? field.name = some slot) :
    schema.checkField field = .ok () ↔ slot.tag = field.tag ∧ slot.type = field.value.type := by
  rw [checkField, hslot]
  by_cases htag : slot.tag = field.tag
  · by_cases htype : slot.type = field.value.type <;> simp [htag, htype]
  · simp [htag]

theorem checkField_of_no_slot (hslot : schema.byName? field.name = none) :
    schema.checkField field = .ok () ↔ schema.byTag? field.tag = none := by
  rw [checkField, hslot]
  cases schema.byTag? field.tag <;> simp

-- What has a slot by its name has it by its tag.
theorem Normal.knows_iff (h : schema.Normal) (hfield : schema.checkField field = .ok ()) :
    schema.knows field = true ↔ ∃ slot, schema.byName? field.name = some slot := by
  constructor
  · intro hknows
    rw [knows, Bool.and_eq_true] at hknows
    obtain ⟨_, hslot⟩ := hknows
    cases htag : schema.byTag? field.tag with
    | none => simp [htag] at hslot
    | some slot =>
        have hname : slot.name = field.name := by simpa [htag] using hslot
        exact ⟨slot, h.byName?_eq_some_iff.mpr ⟨(mem_of_byTag? htag).1, hname⟩⟩
  · rintro ⟨slot, hslot⟩
    obtain ⟨hmem, hname⟩ := mem_of_byName? hslot
    obtain ⟨htag, _⟩ := (checkField_of_slot hslot).mp hfield
    have htagged : field.tag ≠ Field.untagged := by
      rw [← htag]
      exact h.orderly.tagged slot hmem
    have hfound : schema.byTag? field.tag = some slot :=
      h.byTag?_eq_some_iff.mpr ⟨hmem, htag⟩
    simp [knows, htagged, hfound, hname]

-- What fits a schema still does so without the fields that the schema does not know.
theorem Normal.check_filter_knows (h : schema.Normal) (hcheck : schema.check payload = .ok ()) :
    schema.check (payload.filter schema.knows) = .ok () := by
  obtain ⟨hfields, hrequired⟩ := check_eq_ok.mp hcheck
  refine check_eq_ok.mpr ⟨fun field hfield => hfields field (List.mem_filter.mp hfield).1, ?_⟩
  intro slot hslot hneeded
  obtain ⟨field, hmem, hname⟩ := Payload.contains_iff.mp (hrequired slot hslot hneeded)
  have hknown : schema.knows field = true :=
    (h.knows_iff (hfields field hmem)).mpr ⟨slot, h.byName?_eq_some_iff.mpr ⟨hslot, hname.symm⟩⟩
  exact Payload.contains_iff.mpr ⟨field, List.mem_filter.mpr ⟨hmem, hknown⟩, hname⟩

end Check

section Extends

-- Where two schemas name a tag or a field alike, they mean the same field.
def Agrees (first second : Schema) : Prop :=
  ∀ slot ∈ first.slots, ∀ other ∈ second.slots, slot.tag = other.tag ∨ slot.name = other.name →
    slot.tag = other.tag ∧ slot.name = other.name ∧ slot.type = other.type

theorem Agrees.symm {first second : Schema} (h : first.Agrees second) : second.Agrees first := by
  intro slot hslot other hother heq
  obtain ⟨htag, hname, htype⟩ := h other hother slot hslot (heq.imp Eq.symm Eq.symm)
  exact ⟨htag.symm, hname.symm, htype.symm⟩

theorem Normal.agrees_self {schema : Schema} (h : schema.Normal) : schema.Agrees schema := by
  rintro slot hslot other hother (htag | hname)
  · cases List.inj_on_of_nodup_map h.nodup_tags hslot hother htag
    exact ⟨rfl, rfl, rfl⟩
  · cases List.inj_on_of_nodup_map h.nodup_names hslot hother hname
    exact ⟨rfl, rfl, rfl⟩

theorem checkKept_eq_ok {schema : Schema} {version : UInt32} {old : Slot} :
    schema.checkKept version old = .ok () ↔
      (∀ slot, schema.byTag? old.tag = some slot → slot.name = old.name ∧ slot.type = old.type) ∧
      ∀ slot, schema.byName? old.name = some slot → slot.tag = old.tag := by
  unfold checkKept
  cases schema.byTag? old.tag with
  | none =>
      cases schema.byName? old.name with
      | none => simp
      | some named => by_cases htag : named.tag = old.tag <;> simp [htag]
  | some tagged =>
      by_cases hkept : tagged.name = old.name ∧ tagged.type = old.type
      · cases schema.byName? old.name with
        | none => simp [hkept]
        | some named =>
            by_cases htag : named.tag = old.tag <;> simp [hkept, htag]
      · have hlost : tagged.name ≠ old.name ∨ tagged.type ≠ old.type := not_and_or.mp hkept
        simp [hlost, hkept]

-- The two checks, by tag and by name, together exclude every conflict.
theorem Normal.checkExtends_eq_ok {schema older : Schema} (hnormal : schema.Normal) :
    schema.checkExtends older = .ok () ↔ schema.Agrees older := by
  rw [checkExtends, forM_eq_ok]
  constructor
  · intro h slot hslot old hold heq
    obtain ⟨htags, hnames⟩ := checkKept_eq_ok.mp (h old hold)
    have htag : slot.tag = old.tag := by
      rcases heq with htag | hname
      · exact htag
      · exact hnames slot (hnormal.byName?_eq_some_iff.mpr ⟨hslot, hname⟩)
    obtain ⟨hname, htype⟩ := htags slot (hnormal.byTag?_eq_some_iff.mpr ⟨hslot, htag⟩)
    exact ⟨htag, hname, htype⟩
  · intro h old hold
    refine checkKept_eq_ok.mpr ⟨?_, ?_⟩
    · intro slot hbyTag
      obtain ⟨hslot, htag⟩ := mem_of_byTag? hbyTag
      exact (h slot hslot old hold (.inl htag)).2
    · intro slot hbyName
      obtain ⟨hslot, hname⟩ := mem_of_byName? hbyName
      exact (h slot hslot old hold (.inr hname)).1

-- What fits a slot of a schema fits every schema that agrees with it.
theorem Agrees.checkField_eq_ok {first second : Schema} (h : first.Agrees second) {slot : Slot}
    (hslot : slot ∈ first.slots) {field : Field} (htag : slot.tag = field.tag)
    (hname : slot.name = field.name) (htype : slot.type = field.value.type) :
    second.checkField field = .ok () := by
  cases hother : second.byName? field.name with
  | some other =>
      obtain ⟨hmem, hotherName⟩ := mem_of_byName? hother
      obtain ⟨hsameTag, _, hsameType⟩ :=
        h slot hslot other hmem (.inr (hname.trans hotherName.symm))
      exact (checkField_of_slot hother).mpr ⟨hsameTag.symm.trans htag, hsameType.symm.trans htype⟩
  | none =>
      refine (checkField_of_no_slot hother).mpr (byTag?_eq_none_iff.mpr ?_)
      intro other hmem hotherTag
      obtain ⟨_, hsameName, _⟩ := h slot hslot other hmem (.inl (htag.trans hotherTag.symm))
      exact byName?_eq_none_iff.mp hother other hmem (hsameName.symm.trans hname)

end Extends

end Schema

end Chronicle
