import Chronicle.Proofs.Config.Bridge

-- Upgrades that fill in defaults, along any number of versions: what they add to
-- a payload, and when the result fits the latest version.

namespace Chronicle

namespace Config

section Defaults

variable {payload : Payload} {field : Field} {defaults : List Field} {name : String}

theorem mem_fillDefault {added : Field} :
    field ∈ (fillDefault payload added).toList ↔
      field ∈ payload.toList ∨ (field = added ∧ payload.contains added.name = false) := by
  unfold fillDefault
  cases hcontains : payload.contains added.name with
  | true => simp
  | false =>
      have hother := Payload.contains_eq_false_iff.mp hcontains
      simp only [Bool.false_eq_true, if_false, Payload.mem_insert, and_true]
      constructor
      · rintro (rfl | ⟨hmem, _⟩)
        · exact .inr rfl
        · exact .inl hmem
      · rintro (hmem | rfl)
        · exact .inr ⟨hmem, hother field hmem⟩
        · exact .inl rfl

theorem mem_fillDefaults_of_mem (h : field ∈ payload.toList) :
    field ∈ (fillDefaults defaults payload).toList := by
  induction defaults generalizing payload with
  | nil => exact h
  | cons added rest ih => exact ih (mem_fillDefault.mpr (.inl h))

-- What is not among the fields of the payload is a default.
theorem mem_or_mem_of_fillDefaults (h : field ∈ (fillDefaults defaults payload).toList) :
    field ∈ payload.toList ∨ field ∈ defaults := by
  induction defaults generalizing payload with
  | nil => exact .inl h
  | cons added rest ih =>
      rcases ih h with hmem | hmem
      · rcases mem_fillDefault.mp hmem with hmem | ⟨rfl, _⟩
        · exact .inl hmem
        · exact .inr List.mem_cons_self
      · exact .inr (List.mem_cons_of_mem _ hmem)

theorem contains_fillDefault {added : Field} :
    (fillDefault payload added).contains name = true ↔
      payload.contains name = true ∨ added.name = name := by
  unfold fillDefault
  by_cases hcontains : payload.contains added.name = true
  · rw [if_pos hcontains]
    constructor
    · exact .inl
    · rintro (h | rfl)
      · exact h
      · exact hcontains
  · rw [if_neg hcontains, Payload.contains_insert]
    exact or_comm

-- Every name of the payload and every name of a default is there in the end.
theorem contains_fillDefaults :
    (fillDefaults defaults payload).contains name = true ↔
      payload.contains name = true ∨ ∃ field ∈ defaults, field.name = name := by
  induction defaults generalizing payload with
  | nil => simp [fillDefaults]
  | cons added rest ih =>
      have hstep : fillDefaults (added :: rest) payload =
          fillDefaults rest (fillDefault payload added) := rfl
      rw [hstep, ih, contains_fillDefault, List.exists_mem_cons_iff, or_assoc]

theorem contains_fillDefaults_of_contains (h : payload.contains name = true) :
    (fillDefaults defaults payload).contains name = true :=
  contains_fillDefaults.mpr (.inl h)

theorem contains_fillDefaults_of_mem (h : field ∈ defaults) :
    (fillDefaults defaults payload).contains field.name = true :=
  contains_fillDefaults.mpr (.inr ⟨field, h, rfl⟩)

theorem mem_defaultFields {schema : Schema} :
    field ∈ defaultFields schema ↔ ∃ slot ∈ schema.slots, ∃ value, slot.default = some value ∧
      field = ⟨slot.tag, slot.name, value⟩ := by
  rw [defaultFields, List.mem_filterMap]
  constructor
  · rintro ⟨slot, hslot, hfield⟩
    obtain ⟨value, hvalue, rfl⟩ := Option.map_eq_some_iff.mp hfield
    exact ⟨slot, hslot, value, hvalue, rfl⟩
  · rintro ⟨slot, hslot, value, hvalue, rfl⟩
    exact ⟨slot, hslot, Option.map_eq_some_iff.mpr ⟨value, hvalue, rfl⟩⟩

end Defaults

-- The defaults of later versions, filled in from version to version.
def fillAll (later : List Schema) (payload : Payload) : Payload :=
  later.foldl (fun payload schema => fillDefaults (defaultFields schema) payload) payload

section Versions

variable {later : List Schema} {payload : Payload} {field : Field}

theorem mem_fillAll_of_mem (h : field ∈ payload.toList) :
    field ∈ (fillAll later payload).toList := by
  induction later generalizing payload with
  | nil => exact h
  | cons schema rest ih => exact ih (mem_fillDefaults_of_mem h)

theorem mem_or_mem_of_fillAll (h : field ∈ (fillAll later payload).toList) :
    field ∈ payload.toList ∨ ∃ schema ∈ later, field ∈ defaultFields schema := by
  induction later generalizing payload with
  | nil => exact .inl h
  | cons schema rest ih =>
      rcases ih h with hmem | ⟨other, hother, hmem⟩
      · rcases mem_or_mem_of_fillDefaults hmem with hmem | hmem
        · exact .inl hmem
        · exact .inr ⟨schema, List.mem_cons_self, hmem⟩
      · exact .inr ⟨other, List.mem_cons_of_mem _ hother, hmem⟩

end Versions

end Config

namespace Lineage

variable {lineage : Lineage} {kind : String} {older : UInt32 × Schema}
  {later : List (UInt32 × Schema)}

-- The climb goes up the bridges. No step is missing.
theorem climb_of_isChain (h : (older :: later).IsChain lineage.Bridge) (payload : Payload) :
    lineage.climb kind (later.map (·.1)) older.1 payload =
      .ok (Config.fillAll (later.map (·.2)) payload) := by
  induction later generalizing older payload with
  | nil => rfl
  | cons newer rest ih =>
      obtain ⟨hbridge, hrest⟩ := List.isChain_cons_cons.mp h
      rw [List.map_cons, climb, hbridge.upgrade]
      exact ih hrest _

-- A field that a version requires was there before, or its default is filled in.
theorem contains_required_fillAll (h : (older :: later).IsChain lineage.Bridge)
    (hagrees : ∀ entry ∈ older :: later, ∀ other ∈ older :: later, entry.2.Agrees other.2)
    {payload : Payload}
    (hrequired : ∀ slot ∈ older.2.slots, slot.required = true →
      payload.contains slot.name = true) :
    ∀ slot ∈ ((older :: later).getLast (List.cons_ne_nil _ _)).2.slots, slot.required = true →
      (Config.fillAll (later.map (·.2)) payload).contains slot.name = true := by
  induction later generalizing older payload with
  | nil => exact hrequired
  | cons newer rest ih =>
      obtain ⟨hbridge, hrest⟩ := List.isChain_cons_cons.mp h
      rw [List.getLast_cons (List.cons_ne_nil _ _), List.map_cons]
      refine ih hrest (fun entry hentry other hother => hagrees entry
        (List.mem_cons_of_mem _ hentry) other (List.mem_cons_of_mem _ hother)) ?_
      intro slot hslot hslotRequired
      have hfillable := hbridge.fillable slot hslot
      cases hdefault : slot.default with
      | some value =>
          exact Config.contains_fillDefaults_of_mem
            (Config.mem_defaultFields.mpr ⟨slot, hslot, value, hdefault, rfl⟩)
      | none =>
          apply Config.contains_fillDefaults_of_contains
          cases hold : older.2.byTag? slot.tag with
          | none => simp [Config.isUnfillable, hslotRequired, hdefault, hold] at hfillable
          | some old =>
              have holdRequired : old.required = true := by
                simpa [Config.isUnfillable, hslotRequired, hdefault, hold] using hfillable
              obtain ⟨hmem, htag⟩ := Schema.mem_of_byTag? hold
              obtain ⟨_, hname, _⟩ := hagrees older List.mem_cons_self newer
                (List.mem_cons_of_mem _ List.mem_cons_self) old hmem slot hslot (.inl htag)
              rw [← hname]
              exact hrequired old hmem holdRequired

-- What is filled in fits the last version, so only fields that had no slot matter.
theorem check_fillAll_iff (hchain : (older :: later).IsChain lineage.Bridge)
    (hnormal : ∀ entry ∈ older :: later, entry.2.Normal)
    (hagrees : ∀ entry ∈ older :: later, ∀ other ∈ older :: later, entry.2.Agrees other.2)
    {last : UInt32 × Schema} (hlast : (older :: later).getLast (List.cons_ne_nil _ _) = last)
    {payload : Payload} (hcheck : older.2.check payload = .ok ()) :
    last.2.check (Config.fillAll (later.map (·.2)) payload) = .ok () ↔
      ∀ field ∈ payload.toList, older.2.byName? field.name = none →
        last.2.checkField field = .ok () := by
  obtain ⟨hfields, hrequired⟩ := Schema.check_eq_ok.mp hcheck
  have hfilled := contains_required_fillAll hchain hagrees hrequired
  have hlastMem : last ∈ older :: later := by
    rw [← hlast]
    exact List.getLast_mem _
  rw [hlast] at hfilled
  constructor
  · intro hfits field hfield _
    exact (Schema.check_eq_ok.mp hfits).1 field (Config.mem_fillAll_of_mem hfield)
  · intro hslotless
    refine Schema.check_eq_ok.mpr ⟨fun field hfield => ?_, hfilled⟩
    rcases Config.mem_or_mem_of_fillAll hfield with hold | ⟨newer, hnewer, hdefault⟩
    · cases hslot : older.2.byName? field.name with
      | none => exact hslotless field hold hslot
      | some slot =>
          obtain ⟨htag, htype⟩ := (Schema.checkField_of_slot hslot).mp (hfields field hold)
          obtain ⟨hslotMem, hname⟩ := Schema.mem_of_byName? hslot
          have hsame := hagrees older List.mem_cons_self last hlastMem
          exact hsame.checkField_eq_ok hslotMem htag hname htype
    · obtain ⟨entry, hentry, rfl⟩ := List.mem_map.mp hnewer
      obtain ⟨slot, hslot, value, hvalue, rfl⟩ := Config.mem_defaultFields.mp hdefault
      have hentryMem := List.mem_cons_of_mem older hentry
      have htype := (hnormal entry hentryMem).typed slot hslot value hvalue
      have hsame := hagrees entry hentryMem last hlastMem
      exact hsame.checkField_eq_ok hslot rfl rfl htype.symm

-- The versions from a version on, up to the latest.
theorem WellFormed.exists_later (h : lineage.WellFormed kind) {version : UInt32} {schema : Schema}
    (hversion : lineage.versions.get? version = some schema) :
    ∃ before later latest, lineage.versions.toList = before ++ (version, schema) :: later ∧
      Registry.ahead lineage version = later.map (·.1) ∧
      lineage.latest? = some latest ∧ lineage.latestVersion = latest.version ∧
      ((version, schema) :: later).getLast (List.cons_ne_nil _ _) = (latest.version, latest) := by
  obtain ⟨before, later, hlist⟩ := List.append_of_mem (SortedMap.get?_eq_some_iff.mp hversion)
  obtain ⟨_, latest, hends, hlatest, hlatestVersion⟩ := h.latest?
  have hascending := lineage.versions.ascending
  rw [hlist] at hascending
  obtain ⟨_, hfrom, hbefore⟩ := List.pairwise_append.mp hascending
  refine ⟨before, later, latest, hlist, ?_, hlatest, hlatestVersion, ?_⟩
  · have hearlier : ∀ entry ∈ before, ¬ version < entry.1 := fun entry hentry =>
      UInt32.lt_asymm (hbefore entry hentry _ List.mem_cons_self)
    have hlater : ∀ entry ∈ later, version < entry.1 := (List.pairwise_cons.mp hfrom).1
    have hself : ¬ version < version := UInt32.lt_irrefl version
    rw [Registry.ahead, SortedMap.keys, hlist, List.filter_map, List.filter_append,
      List.filter_cons]
    have hnone : before.filter ((fun other => decide (version < other)) ∘ (·.1)) = [] :=
      List.filter_eq_nil_iff.mpr fun entry hentry => by simpa using hearlier entry hentry
    have hall : later.filter ((fun other => decide (version < other)) ∘ (·.1)) = later :=
      List.filter_eq_self.mpr fun entry hentry => by simpa using hlater entry hentry
    rw [hnone, hall]
    simp [hself]
  · have hsame := hends.symm.trans hlist
    have hlast := congrArg List.getLast? hsame
    rw [List.getLast?_concat, List.getLast?_append_of_ne_nil _ (List.cons_ne_nil _ _),
      List.getLast?_eq_some_getLast (List.cons_ne_nil _ _)] at hlast
    exact (Option.some.inj hlast).symm

end Lineage

namespace Config

-- An upgrade never fails. What it gives fits the latest version, unless the record
-- had fields without a slot that sit ill with a slot of that version.
theorem upgrade_of_registry {config : Config} {registry : Registry}
    (hregistry : config.registry = .ok registry) {record : Record} {schema : Schema}
    (hschema : registry.schema? record.kind record.version = some schema)
    (hcheck : schema.check record.payload = .ok ()) :
    ∃ latest upgraded, registry.latest? record.kind = some latest ∧
      registry.upgrade record = .ok upgraded ∧ upgraded.version = latest.version ∧
      (latest.check upgraded.payload = .ok () ↔ ∀ field ∈ record.payload.toList,
        schema.byName? field.name = none → latest.checkField field = .ok ()) := by
  obtain ⟨hbuilt, hbridged⟩ := bridged_registryOf hregistry
  obtain ⟨lineage, hlineage, hupgrade⟩ := hbuilt.wellFormed.upgrade_eq hschema
  obtain ⟨_, hlineage', hversion⟩ := Registry.schema?_eq_some_iff.mp hschema
  cases hlineage.symm.trans hlineage'
  have hwhole := hbuilt.wellFormed.of_get? hlineage
  obtain ⟨before, later, latest, hlist, hahead, hlatest, hlatestVersion, hlast⟩ :=
    hwhole.exists_later hversion
  have hmem : ∀ entry ∈ (record.version, schema) :: later, entry ∈ lineage.versions.toList := by
    intro entry hentry
    rw [hlist]
    exact List.mem_append_right _ hentry
  have hchain : ((record.version, schema) :: later).IsChain lineage.Bridge := by
    have hall := hbridged record.kind lineage hlineage
    rw [Lineage.Bridged, hlist] at hall
    exact hall.right_of_append
  let payload := fillAll (later.map (·.2)) record.payload
  have hclimb : lineage.climb record.kind (later.map (·.1)) record.version record.payload =
      .ok payload := Lineage.climb_of_isChain hchain record.payload
  rw [hahead, hclimb] at hupgrade
  refine ⟨latest, { record with version := latest.version, payload := payload }, ?_, ?_, rfl, ?_⟩
  · rw [Registry.latest?, hlineage]
    exact hlatest
  · rw [hupgrade, hlatestVersion]
    rfl
  · exact Lineage.check_fillAll_iff hchain
      (fun entry hentry => hwhole.normal entry (hmem entry hentry))
      (fun entry hentry other hother =>
        hwhole.agrees entry (hmem entry hentry) other (hmem other hother)) hlast hcheck

-- Tasks whose second version adds the minutes that they take.
def tasks : Config :=
  { store := ⟨"tasks", .skip, .preserve, .default⟩
    logging := .default
    schemas :=
      [⟨"task", 1, [⟨1, "title", .text, true, none⟩]⟩,
        ⟨"task", 2, [⟨1, "title", .text, true, none⟩, ⟨2, "minutes", .int, true, some (.int 90)⟩]⟩]
    imports := ∅ }

def taskRegistry : Registry := (addSchemas ∅ none tasks.schemas).toOption.getD ∅

theorem registry_tasks : tasks.registry = .ok taskRegistry := by
  have hsorted : sortSchemas tasks.schemas = tasks.schemas :=
    List.mergeSort_of_pairwise (by decide)
  rw [registry, registryOf, hsorted]
  rfl

-- A task without minutes gets them, and keeps its note.
theorem upgrade_of_task :
    let record : Record := ⟨"task", "e", ⟨5, none⟩, 1,
      .ofList [⟨1, "title", .text "sow"⟩, ⟨0, "note", .bool true⟩]⟩
    (∃ schema, taskRegistry.schema? record.kind record.version = some schema ∧
      schema.check record.payload = .ok () ∧
      ∀ field ∈ record.payload.toList, schema.byName? field.name = none → field.name = "note") ∧
    ∃ latest upgraded, taskRegistry.latest? record.kind = some latest ∧
      taskRegistry.upgrade record = .ok upgraded ∧ upgraded.version = latest.version ∧
      latest.check upgraded.payload = .ok () := by
  intro record
  have hschema : taskRegistry.schema? record.kind record.version = some tasks.schemas[0] := by
    decide
  have hcheck : tasks.schemas[0].check record.payload = .ok () := by decide
  refine ⟨⟨tasks.schemas[0], hschema, hcheck, by decide⟩, ?_⟩
  obtain ⟨latest, upgraded, hlatest, hupgrade, hversion, hfits⟩ :=
    upgrade_of_registry registry_tasks hschema hcheck
  have hnewest : taskRegistry.latest? record.kind = some tasks.schemas[1] := by decide
  cases hlatest.symm.trans hnewest
  exact ⟨_, upgraded, hnewest, hupgrade, hversion, hfits.mpr (by decide)⟩

-- A field that had no slot can have the name of a new one.
theorem not_fits_of_upgrade :
    ¬ ∀ (config : Config) (registry : Registry) (record : Record) (schema : Schema),
      config.registry = .ok registry →
      registry.schema? record.kind record.version = some schema →
      schema.check record.payload = .ok () →
      ∃ latest upgraded, registry.latest? record.kind = some latest ∧
        registry.upgrade record = .ok upgraded ∧ latest.check upgraded.payload = .ok () := by
  intro h
  let record : Record := ⟨"task", "e", ⟨5, none⟩, 1,
    .ofList [⟨1, "title", .text "sow"⟩, ⟨0, "minutes", .text "many"⟩]⟩
  obtain ⟨latest, upgraded, hlatest, hupgrade, hfits⟩ :=
    h tasks taskRegistry record tasks.schemas[0] registry_tasks (by decide) (by decide)
  have hnewest : taskRegistry.latest? record.kind = some tasks.schemas[1] := by decide
  cases hlatest.symm.trans hnewest
  have hill : (taskRegistry.upgrade record).map (fun upgraded =>
      tasks.schemas[1].check upgraded.payload) = .ok (.error (.tagConflict "minutes" 2 0)) := by
    decide
  rw [hupgrade] at hill
  cases hfits.symm.trans (Except.ok.inj hill)

end Config

end Chronicle
