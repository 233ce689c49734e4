import Chronicle.Proofs.Registry

-- Registries at the end of any calls, those that fail included.

namespace Chronicle

namespace Registry

inductive Call where
  | register (schema : Schema)
  | registerUpgrade (kind : String) (version : UInt32) (upgrade : Upgrade)

-- What a call answers, and the registry as it leaves it.
def perform (registry : Registry) : Call → Except RecordError Unit × Registry
  | .register schema => registry.enroll schema
  | .registerUpgrade kind version upgrade => registry.link kind version upgrade

def run (calls : List Call) : Registry :=
  calls.foldl (fun registry call => (registry.perform call).2) ∅

-- The upgrade that starts from a version of a kind.
def upgrade? (registry : Registry) (kind : String) (version : UInt32) : Option Upgrade := do
  (← registry.kinds.get? kind).upgrades.get? version

-- The rules for everything that a registry holds.
structure Sound (registry : Registry) : Prop where
  keyed : ∀ kind version schema, registry.schema? kind version = some schema →
    schema.kind = kind ∧ schema.version = version
  normal : ∀ kind version schema, registry.schema? kind version = some schema → schema.Normal
  agrees : ∀ kind version schema version' schema', registry.schema? kind version = some schema →
    registry.schema? kind version' = some schema' → schema.Agrees schema'
  inhabited : ∀ kind ∈ registry.kinds.keys,
    ∃ version schema, registry.schema? kind version = some schema
  grounded : ∀ kind lineage, registry.kinds.get? kind = some lineage →
    ∀ version ∈ lineage.upgrades.keys, ∃ schema, registry.schema? kind version = some schema

-- A schema that obeys the rules, after all versions of its kind and at odds with
-- none of them.
def Admits (registry : Registry) (schema : Schema) : Prop :=
  ∃ normal, schema.normalize = .ok normal ∧
    ∀ version older, registry.schema? schema.kind version = some older →
      version < schema.version ∧ normal.Agrees older

-- What becomes of the upgrades: one that is taken in starts from its version from then on,
-- and neither another one nor a schema is touched. Schemas bring no upgrades.
structure Links (registry : Registry) : Prop where
  set : ∀ kind version upgrade next,
    registry.perform (.registerUpgrade kind version upgrade) = (.ok (), next) →
    next.schema? = registry.schema? ∧ ∀ other number, next.upgrade? other number =
      if other = kind ∧ number = version then some upgrade else registry.upgrade? other number
  kept : ∀ schema next, registry.perform (.register schema) = (.ok (), next) →
    next.upgrade? = registry.upgrade?

-- What the calls come to: one that fails leaves all as it was, and a schema that
-- is taken in is all that is new.
structure Answers (registry : Registry) : Prop where
  refused : ∀ call error next, registry.perform call = (.error error, next) → next = registry
  taken : ∀ schema, (registry.perform (.register schema)).1 = .ok () ↔ registry.Admits schema
  stored : ∀ schema next, registry.perform (.register schema) = (.ok (), next) →
    ∃ normal, schema.normalize = .ok normal ∧ ∀ kind version, next.schema? kind version =
      if kind = schema.kind ∧ version = schema.version then some normal
      else registry.schema? kind version
  upgraded : ∀ kind version upgrade,
    (registry.perform (.registerUpgrade kind version upgrade)).1 = .ok () ↔
      ∃ schema, registry.schema? kind version = some schema
  links : registry.Links

variable {registry next : Registry}

theorem registerUpgrade_of_link {kind : String} {version : UInt32} {upgrade : Upgrade}
    (h : registry.link kind version upgrade = (.ok (), next)) :
    registry.registerUpgrade kind version upgrade = .ok next := by
  rw [registerUpgrade, h]

theorem perform_cases (registry : Registry) (call : Call) :
    (∃ error, registry.perform call = (.error error, registry)) ∨
      ∃ next, registry.perform call = (.ok (), next) ∧ (registry.Built → next.Built) := by
  cases call with
  | register schema =>
      rcases registry.enroll_cases schema with hrefused | ⟨normal, _, _, htaken⟩
      · exact .inl hrefused
      · have hregister : registry.register schema = .ok ⟨registry.kinds.insert normal.kind
            ((registry.lineageOf normal.kind).withVersion normal)⟩ := by
          rw [register, htaken]
        exact .inr ⟨_, htaken, fun hbuilt => hbuilt.register hregister⟩
  | registerUpgrade kind version upgrade =>
      rcases registry.link_cases kind version upgrade with hrefused | ⟨lineage, _, _, htaken⟩
      · exact .inl hrefused
      · have hset := registerUpgrade_of_link htaken
        exact .inr ⟨_, htaken, fun hbuilt => hbuilt.registerUpgrade hset⟩

theorem Built.perform (h : registry.Built) (call : Call) : (registry.perform call).2.Built := by
  rcases registry.perform_cases call with ⟨error, hrefused⟩ | ⟨next, htaken, hnext⟩
  · rw [hrefused]
    exact h
  · rw [htaken]
    exact hnext h

theorem Built.foldl_perform (h : registry.Built) (calls : List Call) :
    (calls.foldl (fun registry call => (registry.perform call).2) registry).Built := by
  induction calls generalizing registry with
  | nil => exact h
  | cons call calls ih => exact ih (h.perform call)

theorem WellFormed.sound (h : registry.WellFormed) : registry.Sound := by
  refine ⟨?_, ?_, ?_, ?_, ?_⟩
  · intro kind version schema hschema
    exact (h.of_schema? hschema).2
  · intro kind version schema hschema
    exact (h.of_schema? hschema).1
  · intro kind version schema version' schema' hschema hschema'
    have hmem := schema?_eq_some_iff_mem.mp hschema
    have hmem' := schema?_eq_some_iff_mem.mp hschema'
    exact (h.consistent_lineageOf kind).agrees _ hmem _ hmem'
  · intro kind hkind
    obtain ⟨⟨kind, lineage⟩, hentry, rfl⟩ := List.mem_map.mp hkind
    have hlineage : registry.kinds.get? kind = some lineage :=
      SortedMap.get?_eq_some_iff.mpr hentry
    obtain ⟨⟨version, schema⟩, hmem⟩ := List.exists_mem_of_ne_nil _ (h _ hentry).nonempty
    exact ⟨version, schema,
      schema?_eq_some_iff.mpr ⟨lineage, hlineage, SortedMap.get?_eq_some_iff.mpr hmem⟩⟩
  · intro kind lineage hlineage version hversion
    obtain ⟨entry, hentry, rfl⟩ := List.mem_map.mp hversion
    obtain ⟨schema, hmem⟩ := SortedMap.contains_iff.mp ((h.of_get? hlineage).known entry hentry)
    exact ⟨schema,
      schema?_eq_some_iff.mpr ⟨lineage, hlineage, SortedMap.get?_eq_some_iff.mpr hmem⟩⟩

-- To be compared with every version there comes to the same as to be compared
-- with the latest number and with every version.
theorem WellFormed.enroll_eq_ok_iff (h : registry.WellFormed) {schema : Schema} :
    (registry.enroll schema).1 = .ok () ↔ registry.Admits schema := by
  constructor
  · intro hok
    rcases registry.enroll_cases schema with ⟨error, hrefused⟩ | ⟨normal, hnormal, hnew, _⟩
    · rw [hrefused] at hok
      cases hok
    · obtain ⟨hobeys, hkind, hversion, _⟩ := Schema.normalize_eq_ok hnormal
      refine ⟨normal, hnormal, ?_⟩
      intro version older holder
      rw [← hkind] at holder
      rw [← hversion]
      exact ((h.consistent_lineageOf normal.kind).checkNew_eq_ok hobeys).mp hnew _
        (schema?_eq_some_iff_mem.mp holder)
  · rintro ⟨normal, hnormal, hall⟩
    obtain ⟨hobeys, hkind, hversion, _⟩ := Schema.normalize_eq_ok hnormal
    have hnew : (registry.lineageOf normal.kind).checkNew normal = .ok () := by
      refine ((h.consistent_lineageOf normal.kind).checkNew_eq_ok hobeys).mpr ?_
      intro entry hentry
      rw [hversion]
      rw [hkind] at hentry
      exact hall entry.1 entry.2 (schema?_eq_some_iff_mem.mpr hentry)
    simp only [enroll, hnormal, fst_enter, hnew]

theorem schema?_of_enroll {schema : Schema} (h : registry.enroll schema = (.ok (), next)) :
    ∃ normal, schema.normalize = .ok normal ∧ ∀ kind version, next.schema? kind version =
      if kind = schema.kind ∧ version = schema.version then some normal
      else registry.schema? kind version := by
  rcases registry.enroll_cases schema with ⟨error, hrefused⟩ | ⟨normal, hnormal, _, htaken⟩
  · cases hrefused.symm.trans h
  · cases htaken.symm.trans h
    obtain ⟨_, hkind, hversion, _⟩ := Schema.normalize_eq_ok hnormal
    refine ⟨normal, hnormal, ?_⟩
    intro kind version
    rw [← hkind, ← hversion, schema?_insert]
    by_cases hsame : kind = normal.kind
    · subst hsame
      have hold : (registry.lineageOf normal.kind).versions.get? version =
          registry.schema? normal.kind version := (registry.schema?_eq_get? _ version).symm
      by_cases hnew : version = normal.version
      · simp [hnew, Lineage.withVersion, SortedMap.get?_insert_self]
      · simp [hnew, Lineage.withVersion, SortedMap.get?_insert_of_ne, hold]
    · simp [hsame]

theorem registerUpgrade_eq_ok_iff {kind : String} {version : UInt32} {upgrade : Upgrade} :
    (registry.perform (.registerUpgrade kind version upgrade)).1 = .ok () ↔
      ∃ schema, registry.schema? kind version = some schema := by
  rw [perform, link, schema?]
  cases registry.kinds.get? kind with
  | none => simp
  | some lineage =>
      cases hversion : lineage.versions.get? version <;> simp [SortedMap.contains, hversion]

section Links

variable {kind : String} {version : UInt32} {upgrade : Upgrade}

theorem upgrade?_eq_get? {lineage : Lineage} (hlineage : registry.kinds.get? kind = some lineage) :
    registry.upgrade? kind = lineage.upgrades.get? := by
  funext version
  rw [upgrade?, hlineage]
  rfl

theorem upgrade?_eq_lineageOf (registry : Registry) (kind : String) (version : UInt32) :
    registry.upgrade? kind version = (registry.lineageOf kind).upgrades.get? version := by
  unfold upgrade? lineageOf
  cases registry.kinds.get? kind <;> rfl

theorem upgrade?_insert (registry : Registry) (kind other : String) (lineage : Lineage)
    (version : UInt32) :
    upgrade? ⟨registry.kinds.insert kind lineage⟩ other version =
      if other = kind then lineage.upgrades.get? version
      else registry.upgrade? other version := by
  unfold upgrade?
  by_cases hsame : other = kind
  · subst hsame
    simp [SortedMap.get?_insert_self]
  · simp [hsame, SortedMap.get?_insert_of_ne]

theorem schema?_of_registerUpgrade
    (h : registry.registerUpgrade kind version upgrade = .ok next) (other : String)
    (number : UInt32) : next.schema? other number = registry.schema? other number := by
  obtain ⟨lineage, hlineage, _, rfl⟩ := registerUpgrade_eq_ok h
  rw [schema?_insert]
  by_cases hsame : other = kind
  · subst hsame
    rw [if_pos rfl, schema?, hlineage]
    rfl
  · rw [if_neg hsame]

theorem upgrade?_of_registerUpgrade
    (h : registry.registerUpgrade kind version upgrade = .ok next) (other : String)
    (number : UInt32) :
    next.upgrade? other number =
      if other = kind ∧ number = version then some upgrade
      else registry.upgrade? other number := by
  obtain ⟨lineage, hlineage, _, rfl⟩ := registerUpgrade_eq_ok h
  rw [upgrade?_insert]
  by_cases hsame : other = kind
  · subst hsame
    rw [if_pos rfl, upgrade?_eq_get? hlineage]
    by_cases hnumber : number = version
    · simp [hnumber, Lineage.withUpgrade, SortedMap.get?_insert_self]
    · simp [hnumber, Lineage.withUpgrade, SortedMap.get?_insert_of_ne]
  · simp [hsame]

theorem upgrade?_of_enroll {schema : Schema} (h : registry.enroll schema = (.ok (), next)) :
    next.upgrade? = registry.upgrade? := by
  rcases registry.enroll_cases schema with ⟨error, hrefused⟩ | ⟨normal, _, _, htaken⟩
  · cases hrefused.symm.trans h
  · cases htaken.symm.trans h
    funext other number
    rw [upgrade?_insert]
    by_cases hsame : other = normal.kind
    · subst hsame
      rw [if_pos rfl, upgrade?_eq_lineageOf]
      rfl
    · rw [if_neg hsame]

theorem links (registry : Registry) : registry.Links := by
  refine ⟨?_, fun schema next => upgrade?_of_enroll⟩
  intro kind version upgrade next h
  have hset := registerUpgrade_of_link h
  refine ⟨?_, upgrade?_of_registerUpgrade hset⟩
  funext other number
  exact schema?_of_registerUpgrade hset other number

end Links

theorem WellFormed.answers (h : registry.WellFormed) : registry.Answers := by
  refine ⟨?_, fun schema => h.enroll_eq_ok_iff, fun schema next => schema?_of_enroll,
    fun kind version upgrade => registerUpgrade_eq_ok_iff, registry.links⟩
  intro call error next hrefused
  rcases registry.perform_cases call with ⟨_, hkept⟩ | ⟨_, htaken, _⟩
  · cases hkept.symm.trans hrefused
    rfl
  · cases htaken.symm.trans hrefused

theorem sound_run (calls : List Call) : (run calls).Sound ∧ (run calls).Answers := by
  have hbuilt : (run calls).Built := Built.empty.foldl_perform calls
  exact ⟨hbuilt.wellFormed.sound, hbuilt.wellFormed.answers⟩

end Registry

end Chronicle
