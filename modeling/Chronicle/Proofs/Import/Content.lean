import Chronicle.Proofs.Import.Lowering
import Chronicle.Proofs.Import.Partition
import Chronicle.Proofs.Payload.Steps
import Chronicle.Proofs.Registry
import Mathlib.Data.List.Forall2

-- What the payload of an accepted entry holds: a field for each slot that the entry or a
-- default gives a value, and the members that nothing speaks for. All of them have
-- different names, so none is put in the place of another.

namespace Chronicle

-- A value as it is kept without a type: a scalar by itself, anything else as text.
inductive Value.Plain : Json → Value → Prop where
  | scalar {tree : Json} {value : Value} (read : Value.ofJson? tree = some value) : Plain tree value
  | array (items : List Json) : Plain (.array items) (.text (Json.array items).render)
  | object (members : List (String × Json)) :
      Plain (.object members) (.text (Json.object members).render)

theorem Value.plain_iff {tree : Json} {value : Value} (h : tree ≠ .null) :
    Value.Plain tree value ↔ value = Value.ofJson tree := by
  constructor
  · intro hplain
    cases hplain with
    | scalar read => rw [Value.ofJson, read]
    | array items => rfl
    | object members => rfl
  · rintro rfl
    cases tree with
    | null => exact absurd rfl h
    | array items => exact .array items
    | object members => exact .object members
    | bool b => exact .scalar rfl
    | number n => exact .scalar rfl
    | string s => exact .scalar rfl

namespace Import.Importer

-- Where the value of a slot is looked up.
def pathOf (config : Config) (slot : Slot) : String :=
  (config.fields.get? slot.name).getD slot.name

-- Nothing is found at a path, or null.
def Lacks (entry : Json) (path : String) : Prop :=
  ∀ tree, entry.lookup path = some tree → tree = .null

-- The value of a slot, if it has one: what is found, else the default of the
-- configuration, else the one of the schema.
inductive Gives (importer : Importer) (entry : Json) (slot : Slot) : Option Value → Prop where
  | found {tree : Json} {value : Value}
      (lookup : entry.lookup (pathOf importer.config slot) = some tree) (present : tree ≠ .null)
      (converted : importer.convert? slot.type tree = some value) :
      Gives importer entry slot (some value)
  | configured {raw value : Value} (lacks : Lacks entry (pathOf importer.config slot))
      (set : importer.config.defaults.get? slot.name = some raw)
      (coerced : raw.coerce? slot.type = some value) : Gives importer entry slot (some value)
  | default {value : Value} (lacks : Lacks entry (pathOf importer.config slot))
      (unset : importer.config.defaults.get? slot.name = none)
      (given : slot.default = some value) : Gives importer entry slot (some value)
  | nothing (lacks : Lacks entry (pathOf importer.config slot))
      (unset : importer.config.defaults.get? slot.name = none)
      (absent : slot.default = none) (optional : slot.required = false) :
      Gives importer entry slot none

-- The field of a slot.
def GivesField (importer : Importer) (entry : Json) (slot : Slot) (field : Option Field) : Prop :=
  ∃ given, Gives importer entry slot given ∧
    field = given.map fun value => ⟨slot.tag, slot.name, value⟩

-- No field of the schema has the name, and no path begins with it.
structure Spare (config : Config) (schema : Schema) (name : String) : Prop where
  entity : Json.root config.entity ≠ name
  timestamp : Json.root config.timestamp ≠ name
  unnamed : ∀ slot ∈ schema.slots, slot.name ≠ name
  unmapped : ∀ slot ∈ schema.slots, Json.root (pathOf config slot) ≠ name

-- A member of an entry that is kept without a slot.
structure Keeps (importer : Importer) (schema : Schema) (entry : Json) (field : Field) : Prop where
  preserve : importer.config.unknownFields = .preserve
  spare : Spare importer.config schema field.name
  tag_eq : field.tag = Field.untagged
  member : ∃ tree, entry.member? field.name = some tree ∧ tree ≠ .null ∧
    Value.Plain tree field.value

-- A payload that has been filled from an entry, first with the fields of the slots in
-- their order and then with the members that are kept.
structure Fills (importer : Importer) (schema : Schema) (entry : Json)
    (found : List (Option Field)) (extra : List Field) (payload : Payload) : Prop where
  slots : List.Forall₂ (GivesField importer entry) schema.slots found
  members : ∀ field, field ∈ extra ↔ Keeps importer schema entry field
  payload_eq : payload = Payload.ofList (found.filterMap id ++ extra)
  perm : payload.toList.Perm (found.filterMap id ++ extra)
  fresh : ∀ before field after, found.filterMap id ++ extra = before ++ field :: after →
    (Payload.ofList before).field? field.name = none

-- The payload of a candidate's record is filled from its entry, and no other can be.
structure Determines (importer : Importer) (schema : Schema) (candidate : Candidate)
    (record : Record) : Prop where
  admits : importer.Admits schema candidate record
  fills : ∃ found extra, Fills importer schema candidate.entry found extra record.payload
  unique : ∀ found extra payload, Fills importer schema candidate.entry found extra payload →
    payload = record.payload

variable {importer : Importer} {schema : Schema} {entry : Json}

theorem present?_eq_some_iff {found : Option Json} {tree : Json} :
    present? found = some tree ↔ found = some tree ∧ tree ≠ .null := by
  unfold present?
  split
  · simp [eq_comm]
  · rename_i hnull
    exact ⟨fun h => ⟨h, fun htree => hnull (htree ▸ h)⟩, And.left⟩

theorem present?_eq_none_iff {path : String} :
    present? (entry.lookup path) = none ↔ Lacks entry path := by
  unfold present? Lacks
  split
  · rename_i heq
    simp [heq, eq_comm]
  · rename_i hnull
    constructor
    · intro hnone tree htree
      rw [hnone] at htree
      contradiction
    · intro hlacks
      rw [Option.eq_none_iff_forall_ne_some]
      intro tree htree
      exact hnull (hlacks tree htree ▸ htree)

section Slots

variable {config : Config} {slot : Slot} {source : Source} {sources : List Source}
  {field : Option Field}

-- What is known of the source of a slot.
structure IsSourceOf (config : Config) (slot : Slot) (source : Source) : Prop where
  slot_eq : source.slot = slot
  path_eq : source.path = pathOf config slot
  default : (config.defaults.get? slot.name = none ∧ source.default = slot.default) ∨
    ∃ raw value, config.defaults.get? slot.name = some raw ∧ raw.coerce? slot.type = some value ∧
      source.default = some value

theorem isSourceOf_of_source (h : Importer.source config slot = .ok source) :
    IsSourceOf config slot source := by
  unfold Importer.source at h
  dsimp only at h
  split at h
  · rename_i hunset
    cases h
    exact ⟨rfl, rfl, .inl ⟨hunset, rfl⟩⟩
  · rename_i raw hset
    split at h
    · rename_i value hcoerced
      cases h
      exact ⟨rfl, rfl, .inr ⟨raw, value, hset, hcoerced, rfl⟩⟩
    · contradiction

theorem gives_of_found {tree : Json} {given : Option Value}
    (hlookup : entry.lookup (pathOf importer.config slot) = some tree) (hpresent : tree ≠ .null) :
    Gives importer entry slot given ↔
      ∃ value, importer.convert? slot.type tree = some value ∧ given = some value := by
  constructor
  · intro h
    cases h with
    | found lookup _ converted =>
        cases hlookup.symm.trans lookup
        exact ⟨_, converted, rfl⟩
    | configured lacks _ _ => exact absurd (lacks tree hlookup) hpresent
    | default lacks _ _ => exact absurd (lacks tree hlookup) hpresent
    | nothing lacks _ _ _ => exact absurd (lacks tree hlookup) hpresent
  · rintro ⟨value, hconverted, rfl⟩
    exact .found hlookup hpresent hconverted

theorem gives_of_lacks {given : Option Value} (h : IsSourceOf importer.config slot source)
    (hlacks : Lacks entry (pathOf importer.config slot)) :
    Gives importer entry slot given ↔
      source.default = given ∧ (given = none → slot.required = false) := by
  constructor
  · intro hgives
    cases hgives with
    | found lookup present _ => exact absurd (hlacks _ lookup) present
    | configured _ set coerced =>
        rcases h.default with ⟨hunset, _⟩ | ⟨raw, value, hset, hcoerced, hdefault⟩
        · cases hunset.symm.trans set
        · cases hset.symm.trans set
          cases hcoerced.symm.trans coerced
          exact ⟨hdefault, nofun⟩
    | default _ unset given =>
        rcases h.default with ⟨_, hdefault⟩ | ⟨_, _, hset, _⟩
        · exact ⟨hdefault.trans given, nofun⟩
        · cases hset.symm.trans unset
    | nothing _ unset absent optional =>
        rcases h.default with ⟨_, hdefault⟩ | ⟨_, _, hset, _⟩
        · exact ⟨hdefault.trans absent, fun _ => optional⟩
        · cases hset.symm.trans unset
  · rintro ⟨rfl, hoptional⟩
    rcases h.default with ⟨hunset, hdefault⟩ | ⟨raw, value, hset, hcoerced, hdefault⟩
    · rw [hdefault] at hoptional ⊢
      cases hslot : slot.default with
      | some value => exact .default hlacks hunset hslot
      | none => exact .nothing hlacks hunset hslot (hoptional hslot)
    · rw [hdefault]
      exact .configured hlacks hset hcoerced

-- What is read for a slot is what it is given, and nothing else can be.
theorem field?_eq_ok_iff (h : IsSourceOf importer.config slot source) :
    importer.field? entry source = .ok field ↔ GivesField importer entry slot field := by
  unfold field? GivesField
  rw [h.path_eq, h.slot_eq]
  dsimp only
  cases hfound : present? (entry.lookup (pathOf importer.config slot)) with
  | some tree =>
      obtain ⟨hlookup, hpresent⟩ := present?_eq_some_iff.mp hfound
      simp only [gives_of_found hlookup hpresent]
      cases importer.convert? slot.type tree with
      | some value => simp [eq_comm]
      | none => simp
  | none =>
      simp only [gives_of_lacks h (present?_eq_none_iff.mp hfound)]
      cases source.default with
      | some value => simp [@eq_comm _ field]
      | none => cases slot.required <;> simp [@eq_comm _ field]

theorem forall₂_of_sources (h : Importer.sources config schema = .ok sources) :
    List.Forall₂ (IsSourceOf config) schema.slots sources := by
  obtain ⟨⟨⟩, _, hsources⟩ := bind_eq_ok.mp h
  exact (forall₂_of_mapM hsources).imp fun _ _ => isSourceOf_of_source

-- The fields that are read go with the slots one by one.
theorem forall₂_of_fields {slots : List Slot} {found : List (Option Field)}
    (hsources : List.Forall₂ (IsSourceOf importer.config) slots sources)
    (hfound : List.Forall₂ (fun source field => importer.field? entry source = .ok field)
      sources found) : List.Forall₂ (GivesField importer entry) slots found := by
  induction hsources generalizing found with
  | nil =>
      cases hfound
      exact .nil
  | cons hsource _ ih =>
      cases hfound with
      | cons hfield hrest => exact .cons ((field?_eq_ok_iff hsource).mp hfield) (ih hrest)

end Slots

section Names

variable {config : Config} {sources : List Source} {field : Field} {name : String}
  {members : List (String × Json)}

theorem names_found {slots : List Slot} {found : List (Option Field)}
    (h : List.Forall₂ (GivesField importer entry) slots found) :
    ((found.filterMap id).map (·.name)).Sublist (slots.map (·.name)) := by
  induction h with
  | nil => exact .slnil
  | cons hfield _ ih =>
      obtain ⟨given, _, rfl⟩ := hfield
      cases given with
      | none => exact ih.cons _
      | some value => exact ih.cons_cons _

theorem names_extraFields (consumed : List String) (members : List (String × Json)) :
    ((extraFields config schema consumed members).map (·.name)).Sublist (members.map (·.1)) := by
  unfold extraFields
  split
  · induction members with
    | nil => exact .slnil
    | cons member rest ih =>
        rw [List.filterMap_cons, List.map_cons]
        split
        · exact ih.cons _
        · rename_i field hfield
          have hname : field.name = member.1 := by
            simp only [extraField?] at hfield
            split at hfield
            · contradiction
            · cases hfield
              rfl
          rw [List.map_cons, hname]
          exact ih.cons_cons _
  · exact List.nil_sublist _

theorem roots_of_sources {slots : List Slot}
    (h : List.Forall₂ (IsSourceOf config) slots sources) :
    (sources.map fun source => Json.root source.path) =
      slots.map fun slot => Json.root (pathOf config slot) := by
  induction h with
  | nil => rfl
  | cons hsource _ ih => rw [List.map_cons, List.map_cons, hsource.path_eq, ih]

theorem spare_iff (h : List.Forall₂ (IsSourceOf config) schema.slots sources) :
    Spare config schema name ↔
      name ∉ consumed config sources ∧ schema.byName? name = none := by
  rw [consumed, roots_of_sources h, Schema.byName?_eq_none_iff]
  simp only [List.mem_cons, List.mem_map, not_or, not_exists, not_and]
  constructor
  · intro hspare
    exact ⟨⟨hspare.entity.symm, hspare.timestamp.symm, hspare.unmapped⟩, hspare.unnamed⟩
  · rintro ⟨⟨hentity, htimestamp, hunmapped⟩, hunnamed⟩
    exact ⟨Ne.symm hentity, Ne.symm htimestamp, hunnamed, hunmapped⟩

theorem extraField?_eq_some_iff {consumed : List String} {tree : Json} :
    extraField? schema consumed (name, tree) = some field ↔ tree ≠ .null ∧
      (name ∉ consumed ∧ schema.byName? name = none) ∧
        field = ⟨Field.untagged, name, Value.ofJson tree⟩ := by
  have hnull : tree.isNull = false ↔ tree ≠ .null := by cases tree <;> simp [Json.isNull]
  simp [extraField?, hnull, and_assoc, @eq_comm _ field]

-- What is kept is what the members of the entry say, each name once.
theorem mem_extraFields_iff (hascending : Ascending members)
    (hsources : List.Forall₂ (IsSourceOf importer.config) schema.slots sources) :
    field ∈ extraFields importer.config schema (consumed importer.config sources) members ↔
      Keeps importer schema (.object members) field := by
  unfold extraFields
  cases hunknown : importer.config.unknownFields with
  | drop =>
      refine ⟨fun h => absurd h List.not_mem_nil, fun h => ?_⟩
      cases hunknown.symm.trans h.preserve
  | preserve =>
      dsimp only
      rw [List.mem_filterMap]
      constructor
      · rintro ⟨⟨name, tree⟩, hmember, hextra⟩
        obtain ⟨hpresent, hspare, rfl⟩ := extraField?_eq_some_iff.mp hextra
        exact ⟨hunknown, (spare_iff hsources).mpr hspare, rfl, tree,
          (Entries.get?_eq_some_iff hascending).mpr hmember, hpresent,
          (Value.plain_iff hpresent).mpr rfl⟩
      · rintro ⟨_, hspare, htag, tree, hmember, hpresent, hplain⟩
        refine ⟨(field.name, tree), (Entries.get?_eq_some_iff hascending).mp hmember,
          extraField?_eq_some_iff.mpr ⟨hpresent, (spare_iff hsources).mp hspare, ?_⟩⟩
        rw [← (Value.plain_iff hpresent).mp hplain, ← htag]

end Names

section Filling

variable {sources : List Source} {record : Record} {slot : Slot} {given given' : Option Value}

theorem Gives.unique (h : Gives importer entry slot given)
    (h' : Gives importer entry slot given') : given = given' := by
  cases h with
  | found lookup present converted =>
      obtain ⟨value, hconverted, rfl⟩ := (gives_of_found lookup present).mp h'
      exact converted.symm.trans hconverted
  | configured lacks set coerced =>
      have hsource : IsSourceOf importer.config slot ⟨slot, _, some _⟩ :=
        ⟨rfl, rfl, .inr ⟨_, _, set, coerced, rfl⟩⟩
      exact ((gives_of_lacks hsource lacks).mp h').1
  | default lacks unset given =>
      have hsource : IsSourceOf importer.config slot ⟨slot, _, slot.default⟩ :=
        ⟨rfl, rfl, .inl ⟨unset, rfl⟩⟩
      exact given.symm.trans ((gives_of_lacks hsource lacks).mp h').1
  | nothing lacks unset absent _ =>
      have hsource : IsSourceOf importer.config slot ⟨slot, _, slot.default⟩ :=
        ⟨rfl, rfl, .inl ⟨unset, rfl⟩⟩
      exact absent.symm.trans ((gives_of_lacks hsource lacks).mp h').1

theorem Fills.unique {found found' : List (Option Field)} {extra extra' : List Field}
    {payload payload' : Payload} (h : Fills importer schema entry found extra payload)
    (h' : Fills importer schema entry found' extra' payload') : payload = payload' := by
  have hright : Relator.RightUnique (GivesField importer entry) := by
    rintro slot _ _ ⟨given, hgiven, rfl⟩ ⟨given', hgiven', rfl⟩
    rw [hgiven.unique hgiven']
  have hfound := List.right_unique_forall₂' hright h.slots h'.slots
  apply Payload.eq_of_mem_iff
  intro field
  rw [h.perm.mem_iff, h'.perm.mem_iff, List.mem_append, List.mem_append, h.members, h'.members,
    hfound]

-- Slots are named apart, members are named apart, and a member that is kept has the name
-- of no slot.
theorem nodup_names_fields {found : List (Option Field)} {members : List (String × Json)}
    {consumed : List String} (hnormal : schema.Normal) (hascending : Ascending members)
    (hfound : List.Forall₂ (GivesField importer entry) schema.slots found) :
    ((found.filterMap id ++ extraFields importer.config schema consumed members).map
      (·.name)).Nodup := by
  rw [List.map_append, List.nodup_append]
  refine ⟨hnormal.nodup_names.sublist (names_found hfound),
    hascending.nodup_keys.sublist (names_extraFields consumed members), ?_⟩
  rintro name hslot _ hextra rfl
  obtain ⟨slot, hmem, hname⟩ := List.mem_map.mp ((names_found hfound).subset hslot)
  obtain ⟨field, hfield, hsame⟩ := List.mem_map.mp hextra
  have hslotless := (slotless_of_mem_extraFields hfield).2
  rw [hsame, Schema.byName?_eq_none_iff] at hslotless
  exact hslotless slot hmem hname

theorem fills_of_record (hnormal : schema.Normal)
    (hsources : Importer.sources importer.config schema = .ok sources) (hordered : entry.Ordered)
    (h : importer.record schema sources entry = .ok record) :
    ∃ found extra, Fills importer schema entry found extra record.payload := by
  cases entry with
  | object members =>
      simp only [Importer.record] at h
      obtain ⟨entity, _, h⟩ := bind_eq_ok.mp h
      obtain ⟨timestamp, _, h⟩ := bind_eq_ok.mp h
      obtain ⟨found, hfound, h⟩ := bind_eq_ok.mp h
      cases h
      have hof := forall₂_of_sources hsources
      have hslots := forall₂_of_fields hof (forall₂_of_mapM hfound)
      have hnames : ((found.filterMap id ++ extraFields importer.config schema
          (consumed importer.config sources) members).map (·.name)).Nodup :=
        nodup_names_fields hnormal hordered.ascending hslots
      refine ⟨found, _, hslots, fun field => mem_extraFields_iff hordered.ascending hof, rfl,
        Payload.toList_ofList_perm hnames, ?_⟩
      intro before field after hsplit
      rw [hsplit] at hnames
      simpa [Payload.contains] using Payload.contains_ofList_of_nodup hnames
  | _ => contradiction

theorem admitted_validateFrom {seen : List (RecordKey × Nat)} (candidates : List Candidate) :
    ∃ admitted, admitted.Sublist candidates ∧
      List.Forall₂ (fun candidate record =>
        importer.record schema sources candidate.entry = .ok record) admitted
        (importer.validateFrom schema sources seen candidates).accepted := by
  induction candidates generalizing seen with
  | nil => exact ⟨[], .slnil, .nil⟩
  | cons candidate rest ih =>
      rw [validateFrom]
      cases hverdict : importer.verdict schema sources seen candidate.entry with
      | error reason =>
          obtain ⟨admitted, hsublist, hrecords⟩ := @ih seen
          exact ⟨admitted, hsublist.cons _, hrecords⟩
      | ok record =>
          obtain ⟨admitted, hsublist, hrecords⟩ :=
            @ih ((RecordKey.of record, candidate.index) :: seen)
          exact ⟨candidate :: admitted, hsublist.cons_cons _,
            .cons (verdict_eq_ok hverdict).1 hrecords⟩

theorem ordered_of_parse {document : String} {batch : Batch}
    (h : importer.parse document = .ok batch) :
    ∀ candidate ∈ batch.candidates, candidate.entry.Ordered := by
  obtain ⟨tree, notes, entries, rest, hdocument, htaken, rfl⟩ := parse_eq_ok h
  have hentries := (ordered_of_document? hdocument).of_take? htaken
  intro candidate hcandidate
  obtain ⟨⟨entry, index⟩, hentry, rfl⟩ := List.mem_map.mp hcandidate
  exact hentries.of_item (List.fst_mem_of_mem_zipIdx hentry)

-- Under a schema that a registry holds, whatever the documents.
theorem determines_validate {registry : Registry} {kind document : String} {version : UInt32}
    {reader : Importer} {batch : Batch} {validation : Validation} (hregistry : registry.Built)
    (hschema : registry.schema? kind version = some schema)
    (hbatch : reader.parse document = .ok batch)
    (h : importer.validate batch schema = .ok validation) :
    ∃ admitted, admitted.Sublist batch.candidates ∧
      List.Forall₂ (Determines importer schema) admitted validation.accepted := by
  have hnormal := (hregistry.wellFormed.of_schema? hschema).1
  obtain ⟨sources, hsources, rfl⟩ := validate_eq_ok h
  obtain ⟨admitted, hsublist, hrecords⟩ :=
    @admitted_validateFrom importer schema sources [] batch.candidates
  have hordered : ∀ candidate ∈ admitted, candidate.entry.Ordered := fun candidate hmem =>
    ordered_of_parse hbatch candidate (hsublist.subset hmem)
  refine ⟨admitted, hsublist, ?_⟩
  have hboth := (List.forall₂_and_left admitted _).mpr ⟨hordered, hrecords⟩
  refine hboth.imp fun candidate record ⟨hentry, hrecord⟩ => ?_
  obtain ⟨found, extra, hfills⟩ := fills_of_record hnormal hsources hentry hrecord
  exact ⟨(admits_iff hsources).mpr hrecord, ⟨found, extra, hfills⟩,
    fun _ _ _ hother => hother.unique hfills⟩

-- Films have a title, and a language and a length that may be left out.
def filmSchema : Schema :=
  ⟨"film", 1, [⟨1, "title", .text, true, none⟩, ⟨2, "language", .text, false, some (.text "en")⟩,
    ⟨3, "minutes", .uint, false, some (.uint 90)⟩]⟩

def filmRegistry : Registry := (Registry.register ∅ filmSchema).toOption.getD ∅

-- The title is found at its path, the language is configured, the length is null, and of
-- the other members one is kept as text.
theorem determines_film :
    let config := { Config.ofKind "film" with
      fields := SortedMap.ofList [("title", "film.name")]
      defaults := SortedMap.ofList [("language", .text "fr")] }
    let importer : Importer := ⟨config, ⟨none, Offset.utc⟩⟩
    let document := "\x7b\"records\":[\x7b\"entity\":\"odeon\",\"timestamp\":0," ++
      "\"film\":\x7b\"name\":\"Alien\"\x7d,\"minutes\":null,\"notes\":[1]\x7d]\x7d"
    filmRegistry.Built ∧ filmRegistry.schema? "film" 1 = some filmSchema ∧
    ∃ batch validation admitted, importer.parse document = .ok batch ∧
      importer.validate batch filmSchema = .ok validation ∧ admitted.Sublist batch.candidates ∧
      List.Forall₂ (Determines importer filmSchema) admitted validation.accepted ∧
      validation.accepted.map (·.payload.toList) =
        [[⟨0, "notes", .text "[1]"⟩, ⟨1, "title", .text "Alien"⟩, ⟨2, "language", .text "fr"⟩,
          ⟨3, "minutes", .uint 90⟩]] := by
  intro config importer document
  have hbuilt : filmRegistry.Built :=
    .register .empty (rfl : Registry.register ∅ filmSchema = .ok filmRegistry)
  have hschema : filmRegistry.schema? "film" 1 = some filmSchema := by decide
  have hlists : (importer.parse document >>= fun batch =>
      importer.validate batch filmSchema).map (fun validation =>
        validation.accepted.map (·.payload.toList)) =
      .ok [[⟨0, "notes", .text "[1]"⟩, ⟨1, "title", .text "Alien"⟩,
        ⟨2, "language", .text "fr"⟩, ⟨3, "minutes", .uint 90⟩]] := by
    decide +kernel
  obtain ⟨validation, hboth, hpayloads⟩ := map_eq_ok.mp hlists
  obtain ⟨batch, hbatch, hvalidate⟩ := bind_eq_ok.mp hboth
  obtain ⟨admitted, hsublist, hdetermines⟩ :=
    determines_validate hbuilt hschema hbatch hvalidate
  exact ⟨hbuilt, hschema, batch, validation, admitted, hbatch, hvalidate, hsublist, hdetermines,
    hpayloads⟩

end Filling

end Import.Importer

end Chronicle
