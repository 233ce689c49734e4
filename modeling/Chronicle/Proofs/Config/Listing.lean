import Chronicle.Proofs.Config.Upgrade
import Chronicle.Proofs.Registry.Calls

-- What a list of schemas makes of a registry: it holds what is listed and nothing
-- else, and the order of the list is of no account.

namespace Chronicle

namespace Registry

variable {registry next : Registry}

theorem enroll_of_register {schema : Schema} (h : registry.register schema = .ok next) :
    registry.enroll schema = (.ok (), next) := by
  obtain ⟨normal, hnormal, hnew, rfl⟩ := register_eq_ok h
  rcases registry.enroll_cases schema with ⟨error, hrefused⟩ | ⟨other, hother, _, htaken⟩
  · rw [register, hrefused] at h
    contradiction
  · cases hnormal.symm.trans hother
    exact htaken

end Registry

namespace Config

-- The schemas of a list in normal form, under their kinds and versions.
def Lists (schemas : List Schema) (kind : String) (version : UInt32) (normal : Schema) : Prop :=
  ∃ schema ∈ schemas, schema.place = (kind, version) ∧ schema.normalize = .ok normal

section Adding

variable {registry next : Registry} {previous : Option Schema} {schema : Schema}
  {schemas : List Schema}

theorem addSchema_cases (h : addSchema registry previous schema = .ok next) :
    ∃ registered, registry.register schema = .ok registered ∧
      (next = registered ∨ ∃ kind version upgrade,
        registered.registerUpgrade kind version upgrade = .ok next) := by
  obtain ⟨registered, hregister, hnext⟩ := bind_eq_ok.mp h
  refine ⟨registered, mapError_eq_ok.mp hregister, ?_⟩
  cases previous with
  | none =>
      cases hnext
      exact .inl rfl
  | some earlier =>
      by_cases hkind : earlier.kind = schema.kind
      · simp only [hkind, ne_eq, not_true, if_false] at hnext
        cases hfind : schema.slots.find? (isUnfillable earlier) with
        | some slot => simp [hfind] at hnext
        | none =>
            simp only [hfind] at hnext
            exact .inr ⟨_, _, _, mapError_eq_ok.mp hnext⟩
      · simp only [hkind, ne_eq, not_false_eq_true, if_true] at hnext
        cases hnext
        exact .inl rfl

-- A schema that is added finds its place free, and it is all that is new.
theorem schema?_of_addSchema (hbuilt : registry.Built)
    (h : addSchema registry previous schema = .ok next) :
    next.Built ∧ registry.schema? schema.kind schema.version = none ∧
      ∃ normal, schema.normalize = .ok normal ∧ ∀ kind version, next.schema? kind version =
        if schema.place = (kind, version) then some normal
        else registry.schema? kind version := by
  obtain ⟨registered, hregister, hnext⟩ := addSchema_cases h
  have henroll := Registry.enroll_of_register hregister
  obtain ⟨normal, hnormal, hstored⟩ := Registry.schema?_of_enroll henroll
  have hadmitted : registry.Admits schema :=
    hbuilt.wellFormed.enroll_eq_ok_iff.mp (congrArg Prod.fst henroll)
  have hfree : registry.schema? schema.kind schema.version = none := by
    obtain ⟨_, _, hall⟩ := hadmitted
    apply Option.eq_none_iff_forall_ne_some.mpr
    intro older holder
    exact UInt32.lt_irrefl _ (hall _ older holder).1
  have hplaces : ∀ kind version, registered.schema? kind version =
      if schema.place = (kind, version) then some normal
      else registry.schema? kind version := by
    intro kind version
    rw [hstored]
    apply if_congr _ rfl rfl
    simp [Schema.place, eq_comm]
  rcases hnext with rfl | ⟨kind, version, upgrade, hnext⟩
  · exact ⟨hbuilt.register hregister, hfree, normal, hnormal, hplaces⟩
  · refine ⟨(hbuilt.register hregister).registerUpgrade hnext, hfree, normal, hnormal, ?_⟩
    intro kind version
    rw [Registry.schema?_of_registerUpgrade hnext]
    exact hplaces kind version

-- By induction on the list: what is in its way would refuse a schema, so all places are
-- different.
theorem schema?_of_addSchemas (hbuilt : registry.Built)
    (h : addSchemas registry previous schemas = .ok next) :
    (schemas.map Schema.place).Nodup ∧
      (∀ schema ∈ schemas, registry.schema? schema.kind schema.version = none ∧
        ∃ normal, schema.normalize = .ok normal) ∧
      ∀ kind version normal, next.schema? kind version = some normal ↔
        registry.schema? kind version = some normal ∨ Lists schemas kind version normal := by
  induction schemas generalizing registry previous with
  | nil =>
      cases h
      refine ⟨List.nodup_nil, by simp, fun kind version normal => ?_⟩
      simp [Lists]
  | cons schema rest ih =>
      obtain ⟨added, hadd, hnext⟩ := bind_eq_ok.mp h
      obtain ⟨hadded, hfree, normal, hnormal, hplaces⟩ := schema?_of_addSchema hbuilt hadd
      obtain ⟨hdistinct, hothers, hrest⟩ := ih hadded hnext
      have hother : ∀ other ∈ rest, schema.place ≠ (other.kind, other.version) := by
        intro other hmem hplace
        have hnone := (hothers other hmem).1
        rw [hplaces, if_pos hplace] at hnone
        contradiction
      refine ⟨?_, ?_, ?_⟩
      · rw [List.map_cons, List.nodup_cons]
        refine ⟨?_, hdistinct⟩
        intro hmem
        obtain ⟨other, hrestMem, hplace⟩ := List.mem_map.mp hmem
        exact hother other hrestMem hplace.symm
      · intro other hmem
        rcases List.mem_cons.mp hmem with rfl | hmem
        · exact ⟨hfree, normal, hnormal⟩
        · obtain ⟨hnone, hnormalized⟩ := hothers other hmem
          rw [hplaces, if_neg (hother other hmem)] at hnone
          exact ⟨hnone, hnormalized⟩
      · intro kind version found
        rw [hrest, hplaces]
        by_cases hplace : schema.place = (kind, version)
        · have hnone : registry.schema? kind version = none := by
            cases hplace
            exact hfree
          have hunlisted : ¬ Lists rest kind version found := by
            rintro ⟨other, hmem, hsame, _⟩
            exact hother other hmem (hplace.trans hsame.symm)
          have hlists : Lists (schema :: rest) kind version found ↔ normal = found := by
            unfold Lists at hunlisted ⊢
            simp [hplace, hnormal, hunlisted]
          rw [if_pos hplace, hnone, hlists]
          simp [hunlisted]
        · rw [if_neg hplace]
          simp [Lists, hplace]

end Adding

-- A registry that holds all that is listed, in normal form, and nothing else.
structure Holds (registry : Registry) (schemas : List Schema) : Prop where
  distinct : (schemas.map Schema.place).Nodup
  normal : ∀ schema ∈ schemas, ∃ normal, schema.normalize = .ok normal ∧
    registry.schema? schema.kind schema.version = some normal
  listed : ∀ kind version normal, registry.schema? kind version = some normal →
    Lists schemas kind version normal

section Order

variable {registry : Registry} {schemas schemas' : List Schema}

theorem holds_registryOf (h : registryOf schemas = .ok registry) : Holds registry schemas := by
  have hperm : (sortSchemas schemas).Perm schemas := List.mergeSort_perm schemas isInOrder
  obtain ⟨hdistinct, hnormal, hplaces⟩ := schema?_of_addSchemas .empty h
  have hnone : ∀ kind version, (∅ : Registry).schema? kind version = none := fun _ _ => rfl
  refine ⟨(hperm.map Schema.place).nodup_iff.mp hdistinct, ?_, ?_⟩
  · intro schema hschema
    have hmem := hperm.mem_iff.mpr hschema
    obtain ⟨_, normal, hnormalize⟩ := hnormal schema hmem
    exact ⟨normal, hnormalize, (hplaces _ _ _).mpr (.inr ⟨schema, hmem, rfl, hnormalize⟩)⟩
  · intro kind version normal hschema
    rcases (hplaces kind version normal).mp hschema with hold | ⟨schema, hmem, hlisted⟩
    · rw [hnone] at hold
      contradiction
    · exact ⟨schema, hperm.mem_iff.mp hmem, hlisted⟩

-- Schemas for different places have one order only.
theorem sortSchemas_of_perm (hperm : schemas.Perm schemas')
    (hdistinct : (schemas.map Schema.place).Nodup) :
    sortSchemas schemas = sortSchemas schemas' := by
  have hsorted : (sortSchemas schemas).Perm schemas := List.mergeSort_perm schemas isInOrder
  have hsorted' : (sortSchemas schemas').Perm schemas' := List.mergeSort_perm schemas' isInOrder
  have hsame : (sortSchemas schemas).Perm (sortSchemas schemas') :=
    (hsorted.trans hperm).trans hsorted'.symm
  refine hsame.eq_of_pairwise ?_ (isInOrder_sortSchemas schemas) (isInOrder_sortSchemas schemas')
  intro first second hfirst hsecond h h'
  apply List.inj_on_of_nodup_map hdistinct
  · exact hsorted.mem_iff.mp hfirst
  · exact hperm.mem_iff.mpr (hsorted'.mem_iff.mp hsecond)
  · exact place_eq_of_isInOrder h h'

theorem registryOf_of_perm (hperm : schemas.Perm schemas')
    (hdistinct : (schemas.map Schema.place).Nodup) : registryOf schemas = registryOf schemas' := by
  rw [registryOf, registryOf, sortSchemas_of_perm hperm hdistinct]

-- What succeeds in one order has no two schemas for one place, so it succeeds in every
-- order.
theorem registryOf_eq_ok_of_perm (hperm : schemas.Perm schemas')
    (h : registryOf schemas = .ok registry) : registryOf schemas' = .ok registry := by
  rw [← registryOf_of_perm hperm (holds_registryOf h).distinct]
  exact h

end Order

-- Registries that answer alike.
structure Matches (first second : Registry) : Prop where
  kinds : first.kinds.keys = second.kinds.keys
  schema? : ∀ kind version, first.schema? kind version = second.schema? kind version
  upgrade : ∀ record, first.upgrade record = second.upgrade record

-- The order of the schemas is of no account to what a configuration gives. It shows in
-- an error only, when a schema is listed twice.
theorem registry_of_perm {config config' : Config} (hperm : config.schemas.Perm config'.schemas) :
    ((∃ registry, config.registry = .ok registry) ↔
      ∃ registry, config'.registry = .ok registry) ∧
    (∀ registry registry', config.registry = .ok registry → config'.registry = .ok registry' →
      Matches registry registry') ∧
    ((config.schemas.map Schema.place).Nodup → config.registry = config'.registry) := by
  refine ⟨⟨?_, ?_⟩, ?_, registryOf_of_perm hperm⟩
  · rintro ⟨registry, hregistry⟩
    exact ⟨registry, registryOf_eq_ok_of_perm hperm hregistry⟩
  · rintro ⟨registry, hregistry⟩
    exact ⟨registry, registryOf_eq_ok_of_perm hperm.symm hregistry⟩
  · intro registry registry' hregistry hregistry'
    have hsame : config'.registry = .ok registry := registryOf_eq_ok_of_perm hperm hregistry
    cases hsame.symm.trans hregistry'
    exact ⟨rfl, fun _ _ => rfl, fun _ => rfl⟩

-- Listed the other way round, the tasks come to the same registry, with both versions and
-- the upgrade between them. With the first version listed twice they come to none, in
-- neither order.
theorem registry_of_reversed_tasks :
    let reversed := { tasks with schemas := tasks.schemas.reverse }
    let doubled := { tasks with schemas := tasks.schemas[0] :: tasks.schemas }
    let record : Record := ⟨"task", "e", ⟨5, none⟩, 1, .ofList [⟨1, "title", .text "sow"⟩]⟩
    tasks.schemas.Perm reversed.schemas ∧ (tasks.schemas.map Schema.place).Nodup ∧
      tasks.registry = .ok taskRegistry ∧ reversed.registry = .ok taskRegistry ∧
      taskRegistry.kinds.keys = ["task"] ∧
      taskRegistry.schema? "task" 1 = some tasks.schemas[0] ∧
      taskRegistry.schema? "task" 2 = some tasks.schemas[1] ∧
      taskRegistry.upgrade record = .ok { record with
        version := 2, payload := record.payload.insert ⟨2, "minutes", .int 90⟩ } ∧
      doubled.registry = .error (.invalidSchema (.invalidSchema "task" 1 (.oldVersion 1))) ∧
      ∀ registry, { doubled with schemas := doubled.schemas.reverse }.registry ≠ .ok registry := by
  intro reversed doubled record
  have hperm : tasks.schemas.Perm reversed.schemas := (List.reverse_perm tasks.schemas).symm
  have hdistinct : (tasks.schemas.map Schema.place).Nodup := by decide
  have hsame := (registry_of_perm hperm).2.2 hdistinct
  have hsorted : sortSchemas doubled.schemas = doubled.schemas :=
    List.mergeSort_of_pairwise (by decide)
  have hdoubled : doubled.registry =
      .error (.invalidSchema (.invalidSchema "task" 1 (.oldVersion 1))) := by
    rw [registry, registryOf, hsorted]
    rfl
  refine ⟨hperm, hdistinct, registry_tasks, hsame ▸ registry_tasks, by decide, by decide,
    by decide, by decide, hdoubled, ?_⟩
  intro registry hregistry
  have hback : { doubled with schemas := doubled.schemas.reverse }.schemas.Perm doubled.schemas :=
    List.reverse_perm doubled.schemas
  obtain ⟨other, hother⟩ := (registry_of_perm hback).1.mp ⟨registry, hregistry⟩
  cases hdoubled.symm.trans hother

end Config

end Chronicle
