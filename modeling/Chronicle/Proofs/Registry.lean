import Chronicle.Proofs.Schema
import Chronicle.Proofs.SortedMap
import Chronicle.Registry

-- Registries that were built step by step: what is in them obeys the rules, and
-- an upgrade of a record of a known version fails for want of a step only.

namespace Chronicle

namespace Lineage

-- Every version of a kind is kept under its number, and all of them mean the
-- same by a tag and by a name.
structure Consistent (lineage : Lineage) (kind : String) : Prop where
  keyed : ∀ entry ∈ lineage.versions.toList, entry.2.version = entry.1 ∧ entry.2.kind = kind
  normal : ∀ entry ∈ lineage.versions.toList, entry.2.Normal
  agrees : ∀ entry ∈ lineage.versions.toList, ∀ other ∈ lineage.versions.toList,
    entry.2.Agrees other.2
  known : ∀ entry ∈ lineage.upgrades.toList, lineage.versions.contains entry.1 = true

structure WellFormed (lineage : Lineage) (kind : String) : Prop
    extends Consistent lineage kind where
  nonempty : lineage.versions.toList ≠ []

theorem consistent_empty (kind : String) : empty.Consistent kind :=
  ⟨fun _ h => absurd h List.not_mem_nil, fun _ h => absurd h List.not_mem_nil,
    fun _ h => absurd h List.not_mem_nil, fun _ h => absurd h List.not_mem_nil⟩

variable {lineage : Lineage} {kind : String}

theorem checkNew_eq_ok {schema : Schema} :
    lineage.checkNew schema = .ok () ↔
      (∀ latest, lineage.latest? = some latest → latest.version < schema.version) ∧
      ∀ older ∈ lineage.versions.values, schema.checkExtends older = .ok () := by
  have hextends : lineage.versions.values.forM schema.checkExtends = .ok () ↔
      ∀ older ∈ lineage.versions.values, schema.checkExtends older = .ok () := forM_eq_ok
  unfold checkNew
  cases hlatest : lineage.latest? with
  | none => simpa using hextends
  | some latest =>
      by_cases hold : schema.version ≤ latest.version
      · have hnot : ¬ latest.version < schema.version := UInt32.not_lt.mpr hold
        simp [hold, hnot]
      · have hnew : latest.version < schema.version := UInt32.not_le.mp hold
        simpa [hold, hnew] using hextends

theorem WellFormed.latest? (h : lineage.WellFormed kind) :
    ∃ before latest, lineage.versions.toList = before ++ [(latest.version, latest)] ∧
      lineage.latest? = some latest ∧ lineage.latestVersion = latest.version := by
  obtain ⟨before, entry, hlist⟩ : ∃ before entry, lineage.versions.toList = before ++ [entry] :=
    ⟨_, _, (List.dropLast_append_getLast h.nonempty).symm⟩
  obtain ⟨version, latest⟩ := entry
  have hkey : latest.version = version := (h.keyed (version, latest) (by simp [hlist])).1
  have hlatest : lineage.latest? = some latest := by
    simp [Lineage.latest?, SortedMap.last?, hlist]
  refine ⟨before, latest, by rw [hkey]; exact hlist, hlatest, ?_⟩
  simp [latestVersion, hlatest]

theorem WellFormed.le_latestVersion (h : lineage.WellFormed kind) {entry : UInt32 × Schema}
    (hmem : entry ∈ lineage.versions.toList) : entry.1 ≤ lineage.latestVersion := by
  obtain ⟨before, latest, hlist, _, hversion⟩ := h.latest?
  have hascending := lineage.versions.ascending
  rw [hlist] at hascending hmem
  rw [hversion]
  rcases List.mem_append.mp hmem with hbefore | hlast
  · exact UInt32.le_of_lt
      ((List.pairwise_append.mp hascending).2.2 entry hbefore _ List.mem_cons_self)
  · rw [List.mem_singleton.mp hlast]
    exact UInt32.le_refl _

theorem WellFormed.le_latest_of_mem (h : lineage.WellFormed kind) {version : UInt32}
    (hmem : version ∈ lineage.versions.keys) : version ≤ lineage.latestVersion := by
  obtain ⟨entry, hentry, rfl⟩ := List.mem_map.mp hmem
  exact h.le_latestVersion hentry

theorem WellFormed.latestVersion_mem (h : lineage.WellFormed kind) :
    lineage.latestVersion ∈ lineage.versions.keys := by
  obtain ⟨before, latest, hlist, _, hversion⟩ := h.latest?
  rw [hversion, SortedMap.keys, hlist]
  simp

theorem Consistent.lt_of_checkNew (h : lineage.Consistent kind) {schema : Schema}
    (hnew : lineage.checkNew schema = .ok ()) :
    ∀ entry ∈ lineage.versions.toList, entry.1 < schema.version := by
  intro entry hmem
  have hwhole : lineage.WellFormed kind := ⟨h, List.ne_nil_of_mem hmem⟩
  obtain ⟨_, latest, _, hlatest, hversion⟩ := hwhole.latest?
  have hlt := (Lineage.checkNew_eq_ok.mp hnew).1 latest hlatest
  have hle := hwhole.le_latestVersion hmem
  rw [hversion] at hle
  exact Std.lt_of_le_of_lt hle hlt

-- A new version goes behind all others and agrees with each of them.
theorem Consistent.checkNew_eq_ok (h : lineage.Consistent kind) {schema : Schema}
    (hnormal : schema.Normal) :
    lineage.checkNew schema = .ok () ↔
      ∀ entry ∈ lineage.versions.toList, entry.1 < schema.version ∧ schema.Agrees entry.2 := by
  constructor
  · intro hnew entry hmem
    have hextends := (Lineage.checkNew_eq_ok.mp hnew).2 entry.2 (List.mem_map_of_mem hmem)
    exact ⟨h.lt_of_checkNew hnew entry hmem, hnormal.checkExtends_eq_ok.mp hextends⟩
  · intro hall
    refine Lineage.checkNew_eq_ok.mpr ⟨?_, ?_⟩
    · intro latest hlast
      obtain ⟨entry, hentry, rfl⟩ := Option.map_eq_some_iff.mp hlast
      have hmem := List.mem_of_getLast? hentry
      rw [(h.keyed entry hmem).1]
      exact (hall entry hmem).1
    · intro older holder
      obtain ⟨entry, hmem, rfl⟩ := List.mem_map.mp holder
      exact hnormal.checkExtends_eq_ok.mpr (hall entry hmem).2

def withVersion (lineage : Lineage) (schema : Schema) : Lineage :=
  { lineage with versions := lineage.versions.insert schema.version schema }

theorem Consistent.toList_withVersion (h : lineage.Consistent kind) {schema : Schema}
    (hnew : lineage.checkNew schema = .ok ()) :
    (lineage.withVersion schema).versions.toList =
      lineage.versions.toList ++ [(schema.version, schema)] :=
  Entries.insert_of_last schema (h.lt_of_checkNew hnew)

theorem Consistent.wellFormed_withVersion (h : lineage.Consistent kind) {schema : Schema}
    (hnormal : schema.Normal) (hkind : schema.kind = kind)
    (hnew : lineage.checkNew schema = .ok ()) : (lineage.withVersion schema).WellFormed kind := by
  have hbehind := (h.checkNew_eq_ok hnormal).mp hnew
  have hlist := h.toList_withVersion hnew
  have hmem : ∀ {entry : UInt32 × Schema}, entry ∈ (lineage.withVersion schema).versions.toList →
      entry ∈ lineage.versions.toList ∨ entry = (schema.version, schema) := by
    intro entry hmem
    rwa [hlist, List.mem_append, List.mem_singleton] at hmem
  refine ⟨⟨?_, ?_, ?_, ?_⟩, ?_⟩
  · intro entry hentry
    rcases hmem hentry with hold | rfl
    · exact h.keyed entry hold
    · exact ⟨rfl, hkind⟩
  · intro entry hentry
    rcases hmem hentry with hold | rfl
    · exact h.normal entry hold
    · exact hnormal
  · intro entry hentry other hother
    rcases hmem hentry with hold | rfl <;> rcases hmem hother with hold' | rfl
    · exact h.agrees entry hold other hold'
    · exact (hbehind entry hold).2.symm
    · exact (hbehind other hold').2
    · exact hnormal.agrees_self
  · intro entry hentry
    obtain ⟨old, hold⟩ := SortedMap.contains_iff.mp (h.known entry hentry)
    exact SortedMap.contains_iff.mpr ⟨old, by rw [hlist]; exact List.mem_append_left _ hold⟩
  · simp [hlist]

def withUpgrade (lineage : Lineage) (version : UInt32) (upgrade : Upgrade) : Lineage :=
  { lineage with upgrades := lineage.upgrades.insert version upgrade }

theorem WellFormed.withUpgrade (h : lineage.WellFormed kind) {version : UInt32}
    (hversion : lineage.versions.contains version = true) (upgrade : Upgrade) :
    (lineage.withUpgrade version upgrade).WellFormed kind := by
  refine ⟨⟨h.keyed, h.normal, h.agrees, ?_⟩, h.nonempty⟩
  intro entry hentry
  rcases SortedMap.mem_insert_iff.mp hentry with rfl | ⟨hold, _⟩
  · exact hversion
  · exact h.known entry hold

theorem climb_eq_error {ahead : List UInt32} {version : UInt32} {payload : Payload}
    {error : RecordError} (h : lineage.climb kind ahead version payload = .error error) :
    ∃ missing, error = .missingUpgrade kind missing := by
  induction ahead generalizing version payload with
  | nil => contradiction
  | cons next ahead ih =>
      unfold climb at h
      split at h
      · cases h
        exact ⟨version, rfl⟩
      · exact ih h

end Lineage

namespace Registry

def WellFormed (registry : Registry) : Prop :=
  ∀ entry ∈ registry.kinds.toList, entry.2.WellFormed entry.1

-- Registries that are empty or got a schema or an upgrade.
inductive Built : Registry → Prop where
  | empty : Built ∅
  | register {registry next : Registry} {schema : Schema} :
      Built registry → registry.register schema = .ok next → Built next
  | registerUpgrade {registry next : Registry} {kind : String} {version : UInt32}
      {upgrade : Upgrade} :
      Built registry → registry.registerUpgrade kind version upgrade = .ok next → Built next

variable {registry next : Registry} {kind : String} {version : UInt32}

theorem lineage_eq_ok {lineage : Lineage} :
    registry.lineage kind = .ok lineage ↔ registry.kinds.get? kind = some lineage := by
  unfold Registry.lineage
  cases registry.kinds.get? kind <;> simp

theorem WellFormed.of_get? (h : registry.WellFormed) {lineage : Lineage}
    (hkind : registry.kinds.get? kind = some lineage) : lineage.WellFormed kind :=
  h (kind, lineage) (SortedMap.get?_eq_some_iff.mp hkind)

theorem WellFormed.insert (h : registry.WellFormed) {lineage : Lineage}
    (hlineage : lineage.WellFormed kind) :
    WellFormed ⟨registry.kinds.insert kind lineage⟩ := by
  intro entry hentry
  rcases SortedMap.mem_insert_iff.mp hentry with rfl | ⟨hold, _⟩
  · exact hlineage
  · exact h entry hold

-- What a registry knows about a kind before it takes in a version of it.
def lineageOf (registry : Registry) (kind : String) : Lineage :=
  (registry.kinds.get? kind).getD Lineage.empty

theorem WellFormed.consistent_lineageOf (h : registry.WellFormed) (kind : String) :
    (registry.lineageOf kind).Consistent kind := by
  unfold lineageOf
  cases hkind : registry.kinds.get? kind with
  | none => exact Lineage.consistent_empty kind
  | some lineage => exact (h.of_get? hkind).toConsistent

-- A kind that is new gets a place with nothing in it.
theorem fst_enter (registry : Registry) (kind : String) :
    (registry.enter kind).1 = registry.lineageOf kind := by
  unfold enter lineageOf
  cases registry.kinds.get? kind <;> rfl

theorem insert_snd_enter (registry : Registry) (kind : String) (lineage : Lineage) :
    (registry.enter kind).2.kinds.insert kind lineage = registry.kinds.insert kind lineage := by
  unfold enter
  cases registry.kinds.get? kind with
  | none => exact SortedMap.insert_insert _ _ _ _
  | some found => rfl

-- The place of a new kind is filled at once, so that none is left empty.
theorem snd_enter_of_checkNew {schema : Schema} {defect : SchemaDefect}
    (h : (registry.lineageOf kind).checkNew schema = .error defect) :
    (registry.enter kind).2 = registry := by
  unfold enter
  cases hkind : registry.kinds.get? kind with
  | none =>
      rw [lineageOf, hkind] at h
      contradiction
  | some found => rfl

-- A schema is refused with nothing changed, or it is normal and comes to the
-- others of its kind.
theorem enroll_cases (registry : Registry) (schema : Schema) :
    (∃ error, registry.enroll schema = (.error error, registry)) ∨
    ∃ normal, schema.normalize = .ok normal ∧
      (registry.lineageOf normal.kind).checkNew normal = .ok () ∧
      registry.enroll schema = (.ok (), ⟨registry.kinds.insert normal.kind
        ((registry.lineageOf normal.kind).withVersion normal)⟩) := by
  unfold enroll
  cases hnormal : schema.normalize with
  | error defect => exact .inl ⟨_, rfl⟩
  | ok normal =>
      have hlineage := registry.fst_enter normal.kind
      dsimp only
      rw [hlineage]
      cases hnew : (registry.lineageOf normal.kind).checkNew normal with
      | error defect =>
          refine .inl ⟨_, Prod.ext rfl ?_⟩
          exact snd_enter_of_checkNew hnew
      | ok done =>
          refine .inr ⟨normal, rfl, hnew, Prod.ext rfl ?_⟩
          exact congrArg Registry.mk (registry.insert_snd_enter normal.kind _)

theorem register_eq_ok {schema : Schema} (h : registry.register schema = .ok next) :
    ∃ normal, schema.normalize = .ok normal ∧
      (registry.lineageOf normal.kind).checkNew normal = .ok () ∧
      next = ⟨registry.kinds.insert normal.kind
        ((registry.lineageOf normal.kind).withVersion normal)⟩ := by
  unfold register at h
  rcases registry.enroll_cases schema with ⟨error, hrefused⟩ | ⟨normal, hnormal, hnew, htaken⟩
  · rw [hrefused] at h
    contradiction
  · rw [htaken] at h
    cases h
    exact ⟨normal, hnormal, hnew, rfl⟩

-- An upgrade is refused with nothing changed, or its version is known.
theorem link_cases (registry : Registry) (kind : String) (version : UInt32) (upgrade : Upgrade) :
    (∃ error, registry.link kind version upgrade = (.error error, registry)) ∨
    ∃ lineage, registry.kinds.get? kind = some lineage ∧
      lineage.versions.contains version = true ∧
      registry.link kind version upgrade =
        (.ok (), ⟨registry.kinds.insert kind (lineage.withUpgrade version upgrade)⟩) := by
  unfold link
  cases registry.kinds.get? kind with
  | none => exact .inl ⟨_, rfl⟩
  | some lineage =>
      by_cases hversion : lineage.versions.contains version = true
      · exact .inr ⟨lineage, rfl, hversion, if_pos hversion⟩
      · exact .inl ⟨_, if_neg hversion⟩

theorem registerUpgrade_eq_ok {upgrade : Upgrade}
    (h : registry.registerUpgrade kind version upgrade = .ok next) :
    ∃ lineage, registry.kinds.get? kind = some lineage ∧
      lineage.versions.contains version = true ∧
      next = ⟨registry.kinds.insert kind (lineage.withUpgrade version upgrade)⟩ := by
  unfold registerUpgrade at h
  rcases registry.link_cases kind version upgrade with
    ⟨error, hrefused⟩ | ⟨lineage, hlineage, hversion, htaken⟩
  · rw [hrefused] at h
    contradiction
  · rw [htaken] at h
    cases h
    exact ⟨lineage, hlineage, hversion, rfl⟩

theorem WellFormed.register (h : registry.WellFormed) {schema : Schema}
    (hnext : registry.register schema = .ok next) : next.WellFormed := by
  obtain ⟨normal, hnormal, hnew, rfl⟩ := register_eq_ok hnext
  exact h.insert ((h.consistent_lineageOf normal.kind).wellFormed_withVersion
    (Schema.normalize_eq_ok hnormal).1 rfl hnew)

theorem WellFormed.registerUpgrade (h : registry.WellFormed) {upgrade : Upgrade}
    (hnext : registry.registerUpgrade kind version upgrade = .ok next) : next.WellFormed := by
  obtain ⟨lineage, hlineage, hversion, rfl⟩ := registerUpgrade_eq_ok hnext
  exact h.insert ((h.of_get? hlineage).withUpgrade hversion upgrade)

theorem Built.wellFormed (h : registry.Built) : registry.WellFormed := by
  induction h with
  | empty => exact fun entry hentry => absurd hentry List.not_mem_nil
  | register _ hnext ih => exact ih.register hnext
  | registerUpgrade _ hnext ih => exact ih.registerUpgrade hnext

section Lookup

variable {schema : Schema}

theorem schema?_eq_some_iff :
    registry.schema? kind version = some schema ↔
      ∃ lineage, registry.kinds.get? kind = some lineage ∧
        lineage.versions.get? version = some schema :=
  Option.bind_eq_some_iff

theorem schema?_eq_get? (registry : Registry) (kind : String) (version : UInt32) :
    registry.schema? kind version = (registry.lineageOf kind).versions.get? version := by
  unfold schema? lineageOf
  cases registry.kinds.get? kind <;> rfl

theorem schema?_eq_some_iff_mem :
    registry.schema? kind version = some schema ↔
      (version, schema) ∈ (registry.lineageOf kind).versions.toList := by
  rw [schema?_eq_get?, SortedMap.get?_eq_some_iff]

theorem schema?_insert (registry : Registry) (kind other : String) (lineage : Lineage)
    (version : UInt32) :
    schema? ⟨registry.kinds.insert kind lineage⟩ other version =
      if other = kind then lineage.versions.get? version else registry.schema? other version := by
  unfold schema?
  by_cases hsame : other = kind
  · subst hsame
    simp [SortedMap.get?_insert_self]
  · simp [hsame, SortedMap.get?_insert_of_ne]

theorem resolve_eq_ok :
    registry.resolve kind version = .ok schema ↔ registry.schema? kind version = some schema := by
  rw [schema?_eq_some_iff, resolve, bind_eq_ok]
  constructor
  · rintro ⟨lineage, hlineage, h⟩
    refine ⟨lineage, lineage_eq_ok.mp hlineage, ?_⟩
    cases hversion : lineage.versions.get? version with
    | none => simp [hversion] at h
    | some found => simpa [hversion] using h
  · rintro ⟨lineage, hlineage, hversion⟩
    exact ⟨lineage, lineage_eq_ok.mpr hlineage, by simp [hversion]⟩

theorem WellFormed.of_schema? (h : registry.WellFormed)
    (hschema : registry.schema? kind version = some schema) :
    schema.Normal ∧ schema.kind = kind ∧ schema.version = version := by
  obtain ⟨lineage, hlineage, hversion⟩ := schema?_eq_some_iff.mp hschema
  have hmem := SortedMap.get?_eq_some_iff.mp hversion
  obtain ⟨hkey, hkind⟩ := (h.of_get? hlineage).keyed _ hmem
  exact ⟨(h.of_get? hlineage).normal _ hmem, hkind, hkey⟩

end Lookup

section Upgrade

-- The versions of a kind that come after a version.
def ahead (lineage : Lineage) (version : UInt32) : List UInt32 :=
  lineage.versions.keys.filter fun other => version < other

-- None comes after the latest version, or after a number above it.
theorem ahead_eq_nil_iff {lineage : Lineage} (h : lineage.WellFormed kind) :
    ahead lineage version = [] ↔ lineage.latestVersion ≤ version := by
  rw [ahead, List.filter_eq_nil_iff]
  constructor
  · intro hnone
    simpa using hnone _ h.latestVersion_mem
  · intro hle other hother
    simpa using UInt32.le_trans (h.le_latest_of_mem hother) hle

theorem upgrade_eq_climb {record : Record} {lineage : Lineage}
    (hlineage : registry.kinds.get? record.kind = some lineage)
    (hversion : record.version ≤ lineage.latestVersion) :
    registry.upgrade record =
      (lineage.climb record.kind (ahead lineage record.version) record.version
        record.payload).map fun payload =>
          { record with version := lineage.latestVersion, payload := payload } := by
  rw [upgrade, lineage_eq_ok.mpr hlineage, ok_bind, if_neg (UInt32.not_lt.mpr hversion)]
  exact bind_ok_eq_map _ _

-- A record of a known version climbs to the latest one or lacks a step.
theorem WellFormed.upgrade_eq (h : registry.WellFormed) {record : Record} {schema : Schema}
    (hschema : registry.schema? record.kind record.version = some schema) :
    ∃ lineage, registry.kinds.get? record.kind = some lineage ∧
      registry.upgrade record =
        (lineage.climb record.kind (ahead lineage record.version) record.version
          record.payload).map fun payload =>
            { record with version := lineage.latestVersion, payload := payload } := by
  obtain ⟨lineage, hlineage, hversion⟩ := schema?_eq_some_iff.mp hschema
  have hle := (h.of_get? hlineage).le_latestVersion (SortedMap.get?_eq_some_iff.mp hversion)
  exact ⟨lineage, hlineage, upgrade_eq_climb hlineage hle⟩

theorem WellFormed.upgrade_eq_error (h : registry.WellFormed) {record : Record} {schema : Schema}
    (hschema : registry.schema? record.kind record.version = some schema) {error : RecordError}
    (herror : registry.upgrade record = .error error) :
    ∃ missing, error = .missingUpgrade record.kind missing := by
  obtain ⟨lineage, _, hupgrade⟩ := h.upgrade_eq hschema
  rw [hupgrade] at herror
  cases hclimb : lineage.climb record.kind (ahead lineage record.version) record.version
    record.payload with
  | ok payload => simp [hclimb, Except.map] at herror
  | error reason =>
      rw [hclimb] at herror
      cases herror
      exact Lineage.climb_eq_error hclimb

-- What has been upgraded is at the latest version, and nothing but its payload is new.
theorem WellFormed.upgrade_eq_ok (h : registry.WellFormed) {record upgraded : Record}
    {schema : Schema} (hschema : registry.schema? record.kind record.version = some schema)
    (hupgrade : registry.upgrade record = .ok upgraded) :
    ∃ latest payload, registry.latest? record.kind = some latest ∧
      upgraded = { record with version := latest.version, payload := payload } := by
  obtain ⟨lineage, hlineage, hclimb⟩ := h.upgrade_eq hschema
  obtain ⟨_, latest, _, hlatest, hversion⟩ := (h.of_get? hlineage).latest?
  rw [hclimb] at hupgrade
  obtain ⟨payload, _, hresult⟩ := map_eq_ok.mp hupgrade
  refine ⟨latest, payload, ?_, ?_⟩
  · rw [Registry.latest?, hlineage]
    exact hlatest
  · rw [← hresult, hversion]

-- A version that is not known shows in what is stored.
theorem isDecodeFailure_of_resolve {error : RecordError}
    (h : registry.resolve kind version = .error error) : error.isDecodeFailure = true := by
  unfold resolve lineage at h
  cases hkind : registry.kinds.get? kind with
  | none =>
      rw [hkind] at h
      cases h
      rfl
  | some lineage =>
      rw [hkind, ok_bind] at h
      cases hversion : lineage.versions.get? version with
      | none =>
          rw [hversion] at h
          cases h
          rfl
      | some schema =>
          rw [hversion] at h
          contradiction

theorem WellFormed.of_latest? (h : registry.WellFormed) {schema : Schema}
    (hlatest : registry.latest? kind = some schema) :
    schema.kind = kind ∧ registry.schema? kind schema.version = some schema := by
  obtain ⟨lineage, hlineage, hlast⟩ := Option.bind_eq_some_iff.mp hlatest
  obtain ⟨_, latest, hlist, hsame, _⟩ := (h.of_get? hlineage).latest?
  cases hsame.symm.trans hlast
  have hmem : (schema.version, schema) ∈ lineage.versions.toList := by simp [hlist]
  exact ⟨((h.of_get? hlineage).keyed _ hmem).2,
    schema?_eq_some_iff.mpr ⟨lineage, hlineage, SortedMap.get?_eq_some_iff.mpr hmem⟩⟩

-- From the latest version there is no step to take.
theorem WellFormed.upgrade_of_latest (h : registry.WellFormed) {record : Record} {schema : Schema}
    (hlatest : registry.latest? record.kind = some schema)
    (hversion : record.version = schema.version) : registry.upgrade record = .ok record := by
  have hschema := (h.of_latest? hlatest).2
  rw [← hversion] at hschema
  obtain ⟨lineage, hlineage, hupgrade⟩ := h.upgrade_eq hschema
  have hwhole := h.of_get? hlineage
  have hlast : lineage.latestVersion = record.version := by
    obtain ⟨_, latest, _, hsame, hlatestVersion⟩ := hwhole.latest?
    rw [Registry.latest?, hlineage] at hlatest
    cases hsame.symm.trans hlatest
    rw [hlatestVersion, hversion]
  have hahead : ahead lineage record.version = [] :=
    (ahead_eq_nil_iff hwhole).mpr (UInt32.le_of_eq hlast)
  rw [hupgrade, hahead, hlast]
  rfl

end Upgrade

end Registry

end Chronicle
