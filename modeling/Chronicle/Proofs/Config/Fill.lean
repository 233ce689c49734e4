import Chronicle.Proofs.Config.Listing

-- What the upgrades of a configuration add to a payload: for every name that it lacks,
-- the default of the lowest later version that has one.

namespace Chronicle

namespace Config

-- A slot whose default, as a value of the type of the slot, makes a field.
structure Offers (slot : Slot) (field : Field) : Prop where
  tag : slot.tag = field.tag
  name : slot.name = field.name
  default : ∃ value, slot.default = some value ∧ value.coerce? slot.type = some field.value

section Defaults

variable {schema normal : Schema} {payload : Payload} {field : Field} {defaults : List Field}

theorem normalizeSlot_cases {slot other : Slot} (h : Schema.normalizeSlot slot = .ok other) :
    other = { slot with default := slot.default.bind fun value => value.coerce? slot.type } ∧
      (slot.default.isSome → other.default.isSome) := by
  unfold Schema.normalizeSlot at h
  cases hdefault : slot.default with
  | none =>
      simp only [hdefault] at h
      cases h
      cases slot
      cases hdefault
      simp
  | some value =>
      simp only [hdefault] at h
      cases hcoerced : value.coerce? slot.type with
      | none => simp [hcoerced] at h
      | some coerced =>
          simp only [hcoerced] at h
          cases h
          simp [hcoerced]

-- What a slot offers in a schema is the default of the slot in the normal form.
theorem mem_defaultFields_of_normalize (h : schema.normalize = .ok normal) :
    field ∈ defaultFields normal ↔ ∃ slot ∈ schema.slots, Offers slot field := by
  obtain ⟨_, _, _, slots, hslots, rfl⟩ := Schema.normalize_cases h
  rw [mem_defaultFields]
  constructor
  · rintro ⟨other, hother, value, hvalue, rfl⟩
    obtain ⟨slot, hslot, hnormal⟩ := exists_of_mem_mapM hslots hother
    cases (normalizeSlot_cases hnormal).1
    obtain ⟨given, hgiven, hcoerced⟩ := Option.bind_eq_some_iff.mp hvalue
    exact ⟨slot, hslot, rfl, rfl, given, hgiven, hcoerced⟩
  · rintro ⟨slot, hslot, htag, hname, given, hgiven, hcoerced⟩
    obtain ⟨other, hother, hnormal⟩ := exists_mem_of_mapM hslots hslot
    cases (normalizeSlot_cases hnormal).1
    refine ⟨_, hother, field.value, ?_, ?_⟩
    · exact Option.bind_eq_some_iff.mpr ⟨given, hgiven, hcoerced⟩
    · cases field
      cases htag
      cases hname
      rfl

-- No default of a schema is lost in its normal form.
theorem exists_default_of_normalize (h : schema.normalize = .ok normal) {name : String} :
    (∃ field ∈ defaultFields normal, field.name = name) ↔
      ∃ slot ∈ schema.slots, slot.name = name ∧ slot.default.isSome := by
  constructor
  · rintro ⟨field, hfield, rfl⟩
    obtain ⟨slot, hslot, hoffers⟩ := (mem_defaultFields_of_normalize h).mp hfield
    obtain ⟨value, hvalue, _⟩ := hoffers.default
    exact ⟨slot, hslot, hoffers.name, by simp [hvalue]⟩
  · rintro ⟨slot, hslot, rfl, hdefault⟩
    obtain ⟨_, _, _, slots, hslots, rfl⟩ := Schema.normalize_cases h
    obtain ⟨other, hother, hnormal⟩ := exists_mem_of_mapM hslots hslot
    obtain ⟨heq, hkept⟩ := normalizeSlot_cases hnormal
    obtain ⟨value, hvalue⟩ := Option.isSome_iff_exists.mp (hkept hdefault)
    refine ⟨⟨other.tag, other.name, value⟩, ?_, ?_⟩
    · exact mem_defaultFields.mpr ⟨other, hother, value, hvalue, rfl⟩
    · rw [heq]

theorem nodup_names_defaultFields (h : normal.Normal) :
    ((defaultFields normal).map (·.name)).Nodup := by
  rw [defaultFields]
  apply List.pairwise_map.mpr
  refine List.Pairwise.filterMap _ ?_ h.orderly.distinct
  intro first second hdistinct field hfield other hother
  obtain ⟨value, _, rfl⟩ := Option.map_eq_some_iff.mp hfield
  obtain ⟨value', _, rfl⟩ := Option.map_eq_some_iff.mp hother
  exact hdistinct.2

-- Defaults of different names do not get in the way of each other.
theorem mem_fillDefaults (hnames : (defaults.map (·.name)).Nodup) :
    field ∈ (fillDefaults defaults payload).toList ↔
      field ∈ payload.toList ∨ (field ∈ defaults ∧ payload.contains field.name = false) := by
  induction defaults generalizing payload with
  | nil => simp [fillDefaults]
  | cons added rest ih =>
      rw [List.map_cons, List.nodup_cons] at hnames
      have hstep : fillDefaults (added :: rest) payload =
          fillDefaults rest (fillDefault payload added) := rfl
      have hlater : field ∈ rest → ((fillDefault payload added).contains field.name = false ↔
          payload.contains field.name = false) := by
        intro hmem
        have hne : added.name ≠ field.name := by
          intro hname
          apply hnames.1
          rw [hname]
          exact List.mem_map_of_mem hmem
        have hsame : (fillDefault payload added).contains field.name = true ↔
            payload.contains field.name = true ∨ added.name = field.name := contains_fillDefault
        rw [← Bool.not_eq_true, ← Bool.not_eq_true, hsame]
        simp [hne]
      rw [hstep, ih hnames.2, mem_fillDefault, List.mem_cons]
      constructor
      · rintro ((hold | ⟨rfl, habsent⟩) | ⟨hmem, habsent⟩)
        · exact .inl hold
        · exact .inr ⟨.inl rfl, habsent⟩
        · exact .inr ⟨.inr hmem, (hlater hmem).mp habsent⟩
      · rintro (hold | ⟨rfl | hmem, habsent⟩)
        · exact .inl (.inl hold)
        · exact .inl (.inr ⟨rfl, habsent⟩)
        · exact .inr ⟨hmem, (hlater hmem).mpr habsent⟩

end Defaults

section Versions

variable {head : Schema} {later : List Schema} {payload : Payload} {field : Field}

-- The lowest of some versions that has a default for a name has this one.
def Lowest (later : List Schema) (field : Field) : Prop :=
  ∃ schema ∈ later, field ∈ defaultFields schema ∧
    ∀ other ∈ later, other.version < schema.version →
      ∀ given ∈ defaultFields other, given.name ≠ field.name

theorem lowest_cons (hbelow : ∀ schema ∈ later, head.version < schema.version) :
    Lowest (head :: later) field ↔ field ∈ defaultFields head ∨
      ((∀ given ∈ defaultFields head, given.name ≠ field.name) ∧ Lowest later field) := by
  constructor
  · rintro ⟨schema, hschema, hfield, hnone⟩
    rcases List.mem_cons.mp hschema with rfl | hschema
    · exact .inl hfield
    · refine .inr ⟨hnone head List.mem_cons_self (hbelow schema hschema), schema, hschema,
        hfield, ?_⟩
      exact fun other hother => hnone other (List.mem_cons_of_mem _ hother)
  · rintro (hfield | ⟨hhead, schema, hschema, hfield, hnone⟩)
    · refine ⟨head, List.mem_cons_self, hfield, ?_⟩
      intro other hother hlt
      rcases List.mem_cons.mp hother with rfl | hother
      · exact absurd hlt (UInt32.lt_irrefl _)
      · exact absurd hlt (UInt32.lt_asymm (hbelow other hother))
    · refine ⟨schema, List.mem_cons_of_mem _ hschema, hfield, ?_⟩
      intro other hother hlt
      rcases List.mem_cons.mp hother with rfl | hother
      · exact hhead
      · exact hnone other hother hlt

-- By induction on the versions: what an earlier one has filled in is there for all later
-- ones, so the lowest version wins.
theorem mem_fillAll (hnormal : ∀ schema ∈ later, schema.Normal)
    (hascending : later.Pairwise fun first second => first.version < second.version) :
    field ∈ (fillAll later payload).toList ↔
      field ∈ payload.toList ∨ (payload.contains field.name = false ∧ Lowest later field) := by
  induction later generalizing payload with
  | nil => simp [fillAll, Lowest]
  | cons head rest ih =>
      obtain ⟨hbelow, hrest⟩ := List.pairwise_cons.mp hascending
      have hnames := nodup_names_defaultFields (hnormal head List.mem_cons_self)
      have hstep : fillAll (head :: rest) payload =
          fillAll rest (fillDefaults (defaultFields head) payload) := rfl
      have habsent : (fillDefaults (defaultFields head) payload).contains field.name = false ↔
          payload.contains field.name = false ∧
            ∀ given ∈ defaultFields head, given.name ≠ field.name := by
        rw [← Bool.not_eq_true, contains_fillDefaults, not_or, Bool.not_eq_true]
        simp
      rw [hstep, ih (fun schema hschema => hnormal schema (List.mem_cons_of_mem _ hschema)) hrest,
        mem_fillDefaults hnames, habsent, lowest_cons hbelow]
      constructor
      · rintro ((hold | ⟨hgiven, hname⟩) | ⟨⟨hname, hnone⟩, hlowest⟩)
        · exact .inl hold
        · exact .inr ⟨hname, .inl hgiven⟩
        · exact .inr ⟨hname, .inr ⟨hnone, hlowest⟩⟩
      · rintro (hold | ⟨hname, hgiven | ⟨hnone, hlowest⟩⟩)
        · exact .inl (.inl hold)
        · exact .inl (.inr ⟨hgiven, hname⟩)
        · exact .inr ⟨⟨hname, hnone⟩, hlowest⟩

-- Every name that a default is there for is there in the end.
theorem contains_fillAll {name : String} :
    (fillAll later payload).contains name = true ↔ payload.contains name = true ∨
      ∃ schema ∈ later, ∃ given ∈ defaultFields schema, given.name = name := by
  induction later generalizing payload with
  | nil => simp [fillAll]
  | cons head rest ih =>
      have hstep : fillAll (head :: rest) payload =
          fillAll rest (fillDefaults (defaultFields head) payload) := rfl
      rw [hstep, ih, contains_fillDefaults, List.exists_mem_cons_iff, or_assoc]

end Versions

-- The way of a record from its version up to the latest one of its kind.
structure Ascent (registry : Registry) (record : Record) (schema : Schema)
    (later : List (UInt32 × Schema)) (latest : Schema) : Prop where
  latest_eq : registry.latest? record.kind = some latest
  le_latest : ∀ version newer, registry.schema? record.kind version = some newer →
    version ≤ latest.version
  ascending : Ascending ((record.version, schema) :: later)
  mem_later : ∀ version newer, (version, newer) ∈ later ↔
    record.version < version ∧ registry.schema? record.kind version = some newer
  upgrade : registry.upgrade record = .ok { record with
    version := latest.version, payload := fillAll (later.map (·.2)) record.payload }
  fits : schema.check record.payload = .ok () →
    (latest.check (fillAll (later.map (·.2)) record.payload) = .ok () ↔
      ∀ field ∈ record.payload.toList, schema.byName? field.name = none →
        latest.checkField field = .ok ())

-- Every version that is known is bridged all the way up.
theorem exists_ascent {config : Config} {registry : Registry}
    (hregistry : config.registry = .ok registry) {record : Record} {schema : Schema}
    (hschema : registry.schema? record.kind record.version = some schema) :
    ∃ later latest, Ascent registry record schema later latest := by
  obtain ⟨hbuilt, hbridged⟩ := bridged_registryOf hregistry
  obtain ⟨lineage, hlineage, hupgrade⟩ := hbuilt.wellFormed.upgrade_eq hschema
  have hknown : ∀ {version newer}, registry.schema? record.kind version = some newer ↔
      (version, newer) ∈ lineage.versions.toList := by
    intro version newer
    rw [Registry.schema?_eq_some_iff_mem, Registry.lineageOf, hlineage]
    rfl
  have hwhole := hbuilt.wellFormed.of_get? hlineage
  obtain ⟨before, later, latest, hlist, hahead, hlatest, hlatestVersion, hlast⟩ :=
    hwhole.exists_later (SortedMap.get?_eq_some_iff.mpr (hknown.mp hschema))
  have hmem : ∀ entry ∈ (record.version, schema) :: later, entry ∈ lineage.versions.toList := by
    intro entry hentry
    rw [hlist]
    exact List.mem_append_right _ hentry
  have hascending : Ascending (before ++ (record.version, schema) :: later) := by
    rw [← hlist]
    exact lineage.versions.ascending
  obtain ⟨_, hfrom, hbefore⟩ := List.pairwise_append.mp hascending
  have hchain : ((record.version, schema) :: later).IsChain lineage.Bridge := by
    have hall := hbridged record.kind lineage hlineage
    rw [Lineage.Bridged, hlist] at hall
    exact hall.right_of_append
  refine ⟨later, latest, ?_, ?_, hfrom, ?_, ?_, ?_⟩
  · rw [Registry.latest?, hlineage]
    exact hlatest
  · intro version newer hnewer
    rw [← hlatestVersion]
    exact hwhole.le_latestVersion (hknown.mp hnewer)
  · intro version newer
    rw [hknown, hlist]
    constructor
    · intro hentry
      exact ⟨(List.pairwise_cons.mp hfrom).1 _ hentry,
        List.mem_append_right _ (List.mem_cons_of_mem _ hentry)⟩
    · rintro ⟨hlt, hentry⟩
      rcases List.mem_append.mp hentry with hearlier | hentry
      · exact absurd hlt (UInt32.lt_asymm (hbefore _ hearlier _ List.mem_cons_self))
      · rcases List.mem_cons.mp hentry with hself | hentry
        · cases hself
          exact absurd hlt (UInt32.lt_irrefl _)
        · exact hentry
  · have hclimb : lineage.climb record.kind (later.map (·.1)) record.version record.payload =
        .ok (fillAll (later.map (·.2)) record.payload) :=
      Lineage.climb_of_isChain hchain record.payload
    rw [hupgrade, hahead, hclimb, hlatestVersion]
    rfl
  · intro hcheck
    exact Lineage.check_fillAll_iff hchain
      (fun entry hentry => hwhole.normal entry (hmem entry hentry))
      (fun entry hentry other hother =>
        hwhole.agrees entry (hmem entry hentry) other (hmem other hother)) hlast hcheck

-- The field that a list of schemas gives a name above a version: the default of the
-- lowest version that has one for it.
structure Gives (schemas : List Schema) (kind : String) (version : UInt32) (schema : Schema)
    (field : Field) : Prop where
  listed : schema ∈ schemas
  kind_eq : schema.kind = kind
  later : version < schema.version
  offered : ∃ slot ∈ schema.slots, Offers slot field
  lowest : ∀ other ∈ schemas, other.kind = kind → version < other.version →
    other.version < schema.version → ∀ slot ∈ other.slots, slot.name = field.name →
      slot.default = none

-- What becomes of a record at a version that is listed: all that it has is kept, and
-- what is added are defaults.
structure Fills (schemas : List Schema) (record upgraded : Record) : Prop where
  kind_eq : upgraded.kind = record.kind
  entity_eq : upgraded.entity = record.entity
  timestamp_eq : upgraded.timestamp = record.timestamp
  latest : ∃ latest ∈ schemas, latest.kind = record.kind ∧ upgraded.version = latest.version ∧
    ∀ other ∈ schemas, other.kind = record.kind → other.version ≤ latest.version
  mem_iff : ∀ field, field ∈ upgraded.payload.toList ↔ field ∈ record.payload.toList ∨
    (record.payload.contains field.name = false ∧
      ∃ schema, Gives schemas record.kind record.version schema field)
  filled : ∀ schema ∈ schemas, schema.kind = record.kind → record.version < schema.version →
    ∀ slot ∈ schema.slots, slot.default.isSome → upgraded.payload.contains slot.name = true

section Ascent

variable {registry : Registry} {schemas : List Schema} {record : Record} {schema latest : Schema}
  {later : List (UInt32 × Schema)}

-- The versions of the way are those that are listed above the record's.
theorem Ascent.mem_map_later (h : Ascent registry record schema later latest)
    (hholds : Holds registry schemas) {normal : Schema} :
    normal ∈ later.map (·.2) ↔
      ∃ listed ∈ schemas, listed.kind = record.kind ∧ record.version < listed.version ∧
        listed.normalize = .ok normal := by
  constructor
  · intro hmem
    obtain ⟨⟨version, newer⟩, hentry, rfl⟩ := List.mem_map.mp hmem
    obtain ⟨hlt, hnewer⟩ := (h.mem_later version newer).mp hentry
    obtain ⟨listed, hlisted, hplace, hnormal⟩ := hholds.listed _ _ _ hnewer
    have hkind : listed.kind = record.kind := congrArg Prod.fst hplace
    have hversion : listed.version = version := congrArg Prod.snd hplace
    rw [← hversion] at hlt
    exact ⟨listed, hlisted, hkind, hlt, hnormal⟩
  · rintro ⟨listed, hlisted, hkind, hlt, hnormal⟩
    obtain ⟨other, hother, hfound⟩ := hholds.normal listed hlisted
    cases hother.symm.trans hnormal
    rw [hkind] at hfound
    exact List.mem_map_of_mem ((h.mem_later _ _).mpr ⟨hlt, hfound⟩)

theorem Ascent.lowest_iff (h : Ascent registry record schema later latest)
    (hholds : Holds registry schemas) {field : Field} :
    Lowest (later.map (·.2)) field ↔
      ∃ schema, Gives schemas record.kind record.version schema field := by
  constructor
  · rintro ⟨normal, hmem, hfield, hlowest⟩
    obtain ⟨listed, hlisted, hkind, hlt, hnormal⟩ := (h.mem_map_later hholds).mp hmem
    have hversion : normal.version = listed.version := (Schema.normalize_eq_ok hnormal).2.2.1
    refine ⟨listed, hlisted, hkind, hlt, (mem_defaultFields_of_normalize hnormal).mp hfield, ?_⟩
    intro other hother hotherKind hotherLt hbelow slot hslot hname
    obtain ⟨otherNormal, hotherNormal, _⟩ := hholds.normal other hother
    have hotherVersion : otherNormal.version = other.version :=
      (Schema.normalize_eq_ok hotherNormal).2.2.1
    have hotherMem : otherNormal ∈ later.map (·.2) :=
      (h.mem_map_later hholds).mpr ⟨other, hother, hotherKind, hotherLt, hotherNormal⟩
    have hnone := hlowest otherNormal hotherMem (by rwa [hversion, hotherVersion])
    by_contra hdefault
    obtain ⟨given, hgiven, hsame⟩ := (exists_default_of_normalize hotherNormal).mpr
      ⟨slot, hslot, hname, Option.isSome_iff_ne_none.mpr hdefault⟩
    exact hnone given hgiven hsame
  · rintro ⟨listed, hgives⟩
    obtain ⟨normal, hnormal, _⟩ := hholds.normal listed hgives.listed
    have hversion : normal.version = listed.version := (Schema.normalize_eq_ok hnormal).2.2.1
    refine ⟨normal, (h.mem_map_later hholds).mpr
      ⟨listed, hgives.listed, hgives.kind_eq, hgives.later, hnormal⟩,
      (mem_defaultFields_of_normalize hnormal).mpr hgives.offered, ?_⟩
    intro otherNormal hotherMem hbelow given hgiven hsame
    obtain ⟨other, hother, hotherKind, hotherLt, hotherNormal⟩ :=
      (h.mem_map_later hholds).mp hotherMem
    have hotherVersion : otherNormal.version = other.version :=
      (Schema.normalize_eq_ok hotherNormal).2.2.1
    obtain ⟨slot, hslot, hname, hdefault⟩ :=
      (exists_default_of_normalize hotherNormal).mp ⟨given, hgiven, hsame⟩
    have hnone := hgives.lowest other hother hotherKind hotherLt
      (by rwa [← hversion, ← hotherVersion]) slot hslot hname
    rw [hnone] at hdefault
    contradiction

theorem Ascent.fills (h : Ascent registry record schema later latest) (hbuilt : registry.Built)
    (hholds : Holds registry schemas) :
    Fills schemas record { record with
      version := latest.version, payload := fillAll (later.map (·.2)) record.payload } := by
  refine ⟨rfl, rfl, rfl, ?_, ?_, ?_⟩
  · obtain ⟨_, hfound⟩ := hbuilt.wellFormed.of_latest? h.latest_eq
    obtain ⟨listed, hlisted, hplace, _⟩ := hholds.listed _ _ _ hfound
    have hkind : listed.kind = record.kind := congrArg Prod.fst hplace
    have hversion : listed.version = latest.version := congrArg Prod.snd hplace
    refine ⟨listed, hlisted, hkind, hversion.symm, ?_⟩
    intro other hother hsame
    obtain ⟨normal, _, hnormal⟩ := hholds.normal other hother
    rw [hversion]
    rw [hsame] at hnormal
    exact h.le_latest _ _ hnormal
  · intro field
    have hnormal : ∀ newer ∈ later.map (·.2), newer.Normal := by
      intro newer hnewer
      obtain ⟨listed, _, _, _, hnormal⟩ := (h.mem_map_later hholds).mp hnewer
      exact (Schema.normalize_eq_ok hnormal).1
    have hkeys : ∀ entry ∈ later, entry.2.version = entry.1 := by
      intro entry hentry
      have hfound := ((h.mem_later entry.1 entry.2).mp hentry).2
      exact (hbuilt.wellFormed.of_schema? hfound).2.2
    have hascending : (later.map (·.2)).Pairwise fun first second =>
        first.version < second.version := by
      apply List.pairwise_map.mpr
      refine (List.pairwise_cons.mp h.ascending).2.imp_of_mem ?_
      intro first second hfirst hsecond hlt
      rwa [hkeys first hfirst, hkeys second hsecond]
    rw [mem_fillAll hnormal hascending, h.lowest_iff hholds]
  · intro listed hlisted hkind hlt slot hslot hdefault
    obtain ⟨normal, hnormal, _⟩ := hholds.normal listed hlisted
    obtain ⟨given, hgiven, hname⟩ :=
      (exists_default_of_normalize hnormal).mpr ⟨slot, hslot, rfl, hdefault⟩
    have hmem : normal ∈ later.map (·.2) :=
      (h.mem_map_later hholds).mpr ⟨listed, hlisted, hkind, hlt, hnormal⟩
    exact contains_fillAll.mpr (.inr ⟨normal, hmem, given, hgiven, hname⟩)

end Ascent

-- Every record at a version that is listed is upgraded, and all that the upgrades do is
-- to fill in.
theorem upgrade_fills {config : Config} {registry : Registry}
    (hregistry : config.registry = .ok registry) {record : Record}
    (hlisted : ∃ schema ∈ config.schemas, schema.place = (record.kind, record.version)) :
    ∃ upgraded, registry.upgrade record = .ok upgraded ∧
      Fills config.schemas record upgraded := by
  obtain ⟨schema, hschema, hplace⟩ := hlisted
  have hbuilt := (bridged_registryOf hregistry).1
  have hholds := holds_registryOf hregistry
  obtain ⟨normal, _, hfound⟩ := hholds.normal schema hschema
  have hkind : schema.kind = record.kind := congrArg Prod.fst hplace
  have hversion : schema.version = record.version := congrArg Prod.snd hplace
  rw [hkind, hversion] at hfound
  obtain ⟨later, latest, hascent⟩ := exists_ascent hregistry hfound
  exact ⟨_, hascent.upgrade, hascent.fills hbuilt hholds⟩

-- Chores whose third version adds the minutes that they take. The fourth expects them to
-- take longer.
def chores : Config :=
  { tasks with schemas :=
      [⟨"chore", 4, [⟨1, "title", .text, true, none⟩,
          ⟨2, "minutes", .uint, false, some (.int 240)⟩]⟩,
        ⟨"chore", 1, [⟨1, "title", .text, true, none⟩]⟩,
        ⟨"chore", 3, [⟨1, "title", .text, true, none⟩,
          ⟨2, "minutes", .uint, false, some (.int 90)⟩]⟩] }

def choreRegistry : Registry :=
  (addSchemas ∅ none [chores.schemas[1], chores.schemas[2], chores.schemas[0]]).toOption.getD ∅

theorem registry_chores : chores.registry = .ok choreRegistry := by
  have hperm : chores.schemas.Perm [chores.schemas[1], chores.schemas[2], chores.schemas[0]] := by
    decide
  have hsorted : sortSchemas [chores.schemas[1], chores.schemas[2], chores.schemas[0]] =
      [chores.schemas[1], chores.schemas[2], chores.schemas[0]] :=
    List.mergeSort_of_pairwise (by decide)
  rw [registry, registryOf_of_perm hperm (by decide), registryOf, hsorted]
  rfl

-- The minutes of the third version are filled in, and the fourth leaves them.
theorem upgrade_of_chore :
    let record : Record := ⟨"chore", "e", ⟨5, none⟩, 1, .ofList [⟨1, "title", .text "sow"⟩]⟩
    chores.registry = .ok choreRegistry ∧
    (∃ schema ∈ chores.schemas, schema.place = (record.kind, record.version)) ∧
    ∃ upgraded, choreRegistry.upgrade record = .ok upgraded ∧
      Fills chores.schemas record upgraded ∧ upgraded.version = 4 ∧
      upgraded.payload.toList = [⟨1, "title", .text "sow"⟩, ⟨2, "minutes", .uint 90⟩] := by
  intro record
  have hlisted : ∃ schema ∈ chores.schemas, schema.place = (record.kind, record.version) := by
    decide
  obtain ⟨upgraded, hupgrade, hfills⟩ := upgrade_fills registry_chores hlisted
  have hresult : (choreRegistry.upgrade record).map (fun other =>
      (other.version, other.payload.toList)) =
        .ok (4, [⟨1, "title", .text "sow"⟩, ⟨2, "minutes", .uint 90⟩]) := by
    decide +kernel
  rw [hupgrade] at hresult
  obtain ⟨hversion, hpayload⟩ := Prod.ext_iff.mp (Except.ok.inj hresult)
  exact ⟨registry_chores, hlisted, upgraded, hupgrade, hfills, hversion, hpayload⟩

end Config

end Chronicle
