import Chronicle.Config
import Chronicle.Proofs.Registry
import Mathlib.Data.List.Chain

-- Registries that come from a configuration: every version is bridged to the one
-- after it by an upgrade that fills in the defaults of that one.

namespace Chronicle

-- Where a registry keeps a schema.
def Schema.place (schema : Schema) : String × UInt32 := (schema.kind, schema.version)

namespace Lineage

-- The defaults of the newer version are filled in, and they can stand for every
-- field that it requires anew.
structure Bridge (lineage : Lineage) (older newer : UInt32 × Schema) : Prop where
  upgrade : lineage.upgrades.get? older.1 =
    some (Config.fillDefaults (Config.defaultFields newer.2))
  fillable : ∀ slot ∈ newer.2.slots, Config.isUnfillable older.2 slot = false

def Bridged (lineage : Lineage) : Prop := lineage.versions.toList.IsChain lineage.Bridge

variable {lineage : Lineage} {kind : String}

-- An upgrade from the last version but one bridges a version that was added.
theorem WellFormed.bridged_extend (h : lineage.WellFormed kind) (hbridged : lineage.Bridged)
    {before : List (UInt32 × Schema)} {last : UInt32 × Schema} {schema : Schema}
    (hlist : lineage.versions.toList = before ++ [last])
    (hnew : lineage.checkNew schema = .ok ())
    (hfillable : ∀ slot ∈ schema.slots, Config.isUnfillable last.2 slot = false) :
    ((lineage.withVersion schema).withUpgrade last.1
      (Config.fillDefaults (Config.defaultFields schema))).Bridged := by
  let extended := (lineage.withVersion schema).withUpgrade last.1
    (Config.fillDefaults (Config.defaultFields schema))
  have hlonger : extended.versions.toList = (before ++ [last]) ++ [(schema.version, schema)] := by
    rw [← hlist]
    exact h.toList_withVersion hnew
  have hearlier : ∀ entry ∈ before, entry.1 ≠ last.1 := by
    have hascending := lineage.versions.ascending
    rw [hlist] at hascending
    exact fun entry hentry => Std.ne_of_lt
      ((List.pairwise_append.mp hascending).2.2 entry hentry last List.mem_cons_self)
  have hkept : ∀ older newer : UInt32 × Schema, older ∈ before → lineage.Bridge older newer →
      extended.Bridge older newer := by
    intro older newer holder hbridge
    refine ⟨?_, hbridge.fillable⟩
    rw [← hbridge.upgrade]
    exact SortedMap.get?_insert_of_ne _ _ (hearlier older holder)
  have hnewest : extended.Bridge last (schema.version, schema) :=
    ⟨SortedMap.get?_insert_self _ _ _, hfillable⟩
  rw [Bridged, hlist, List.isChain_append] at hbridged
  obtain ⟨hbefore, _, hjoin⟩ := hbridged
  rw [Bridged, hlonger]
  refine List.isChain_append.mpr ⟨List.isChain_append.mpr ⟨?_, .singleton _, ?_⟩, .singleton _, ?_⟩
  · exact hbefore.imp_of_mem_imp fun older newer holder _ => hkept older newer holder
  · intro older holder newer hnewer
    exact hkept older newer (List.mem_of_mem_getLast? holder) (hjoin older holder newer hnewer)
  · intro older holder newer hnewer
    simp only [List.getLast?_concat, Option.mem_some_iff, List.head?_cons] at holder hnewer
    subst holder hnewer
    exact hnewest

end Lineage

namespace Config

-- Whether a slot can be filled is seen in the outlines of the slots.
theorem isUnfillable_eq_outline (previous : Schema) (slot : Slot) :
    isUnfillable previous slot =
      ((Schema.outline slot).required && (Schema.outline slot).default.isNone &&
        ((previous.slots.map Schema.outline).find? fun old =>
          old.tag = (Schema.outline slot).tag).all fun old => !old.required) := by
  have hlookup : ((previous.slots.map Schema.outline).find? fun old =>
      old.tag = (Schema.outline slot).tag) = (previous.byTag? slot.tag).map Schema.outline := by
    rw [List.find?_map]
    rfl
  rw [hlookup, isUnfillable]
  cases previous.byTag? slot.tag <;> simp [Schema.outline]

theorem isUnfillable_of_outline {previous normal : Schema} {schema newer : Schema}
    (hprevious : normal.slots.map Schema.outline = previous.slots.map Schema.outline)
    (hschema : newer.slots.map Schema.outline = schema.slots.map Schema.outline)
    (h : ∀ slot ∈ schema.slots, isUnfillable previous slot = false) :
    ∀ slot ∈ newer.slots, isUnfillable normal slot = false := by
  intro slot hslot
  have hmem : Schema.outline slot ∈ schema.slots.map Schema.outline := by
    rw [← hschema]
    exact List.mem_map_of_mem hslot
  obtain ⟨old, hold, houtline⟩ := List.mem_map.mp hmem
  rw [isUnfillable_eq_outline, hprevious, ← houtline, ← isUnfillable_eq_outline]
  exact h old hold

-- A registry when it has taken in the schemas up to one of them, in the order of
-- kinds and versions.
structure Progress (registry : Registry) (previous : Option Schema) : Prop where
  built : registry.Built
  bridged : ∀ entry ∈ registry.kinds.toList, entry.2.Bridged
  kinds_le : ∀ entry ∈ registry.kinds.toList, ∃ schema, previous = some schema ∧
    entry.1 ≤ schema.kind
  last : ∀ schema, previous = some schema → ∃ lineage before normal,
    registry.kinds.get? schema.kind = some lineage ∧
    lineage.versions.toList = before ++ [(schema.version, normal)] ∧
    normal.slots.map Schema.outline = schema.slots.map Schema.outline

variable {registry next : Registry} {schema : Schema}

theorem progress_empty : Progress ∅ none :=
  ⟨.empty, fun _ h => absurd h List.not_mem_nil, fun _ h => absurd h List.not_mem_nil,
    fun _ h => by contradiction⟩

-- A kind that is met for the first time gets one version.
theorem Progress.register_first {previous : Option Schema} (h : Progress registry previous)
    (hfirst : ∀ earlier, previous = some earlier → earlier.kind < schema.kind)
    (hnext : registry.register schema = .ok next) : Progress next (some schema) := by
  obtain ⟨normal, hnormal, hnew, hresult⟩ := Registry.register_eq_ok hnext
  obtain ⟨_, hkind, hversion, houtline⟩ := Schema.normalize_eq_ok hnormal
  have hbelow : ∀ entry ∈ registry.kinds.toList, entry.1 < normal.kind := by
    intro entry hentry
    obtain ⟨earlier, hearlier, hle⟩ := h.kinds_le entry hentry
    rw [hkind]
    exact Std.lt_of_le_of_lt hle (hfirst earlier hearlier)
  have hunknown : registry.lineageOf normal.kind = Lineage.empty := by
    have hnone : registry.kinds.get? normal.kind = none :=
      SortedMap.get?_eq_none_iff.mpr fun entry hentry => Std.ne_of_lt (hbelow entry hentry)
    rw [Registry.lineageOf, hnone]
    rfl
  rw [hunknown] at hresult
  have hlist : (Lineage.empty.withVersion normal).versions.toList =
      [(normal.version, normal)] := rfl
  subst hresult
  refine ⟨.register h.built hnext, ?_, ?_, ?_⟩
  · intro entry hentry
    rcases SortedMap.mem_insert_iff.mp hentry with rfl | ⟨hold, _⟩
    · rw [Lineage.Bridged, hlist]
      exact .singleton _
    · exact h.bridged entry hold
  · intro entry hentry
    refine ⟨schema, rfl, ?_⟩
    rcases SortedMap.mem_insert_iff.mp hentry with rfl | ⟨hold, _⟩
    · exact Std.le_of_eq hkind
    · rw [← hkind]
      exact Std.le_of_lt (hbelow entry hold)
  · rintro _ ⟨⟩
    refine ⟨Lineage.empty.withVersion normal, [], normal, ?_, ?_, houtline⟩
    · rw [← hkind]
      exact SortedMap.get?_insert_self _ _ _
    · rw [hlist, hversion]
      rfl

-- What is left of a version and the upgrade to it.
theorem register_and_upgrade_eq_ok {lineage : Lineage} {registered : Registry} {version : UInt32}
    (hlineage : registry.kinds.get? schema.kind = some lineage)
    (hregister : registry.register schema = .ok registered)
    (hnext : registered.registerUpgrade schema.kind version (fillDefaults
      (match registered.schema? schema.kind schema.version with
        | some found => defaultFields found
        | none => [])) = .ok next) :
    ∃ normal, schema.normalize = .ok normal ∧ lineage.checkNew normal = .ok () ∧
      next = ⟨(registry.kinds.insert schema.kind (lineage.withVersion normal)).insert schema.kind
        ((lineage.withVersion normal).withUpgrade version
          (fillDefaults (defaultFields normal)))⟩ := by
  obtain ⟨normal, hnormal, hnew, rfl⟩ := Registry.register_eq_ok hregister
  obtain ⟨_, hkind, hversion, _⟩ := Schema.normalize_eq_ok hnormal
  have hof : registry.lineageOf schema.kind = lineage := by
    rw [Registry.lineageOf, hlineage]
    rfl
  rw [hkind, hof] at hnew hnext
  have hknown : (Registry.mk (registry.kinds.insert schema.kind
      (lineage.withVersion normal))).kinds.get? schema.kind = some (lineage.withVersion normal) :=
    SortedMap.get?_insert_self _ _ _
  have hfound : (Registry.mk (registry.kinds.insert schema.kind
      (lineage.withVersion normal))).schema? schema.kind schema.version = some normal := by
    rw [← hversion]
    exact Registry.schema?_eq_some_iff.mpr ⟨_, hknown, SortedMap.get?_insert_self _ _ _⟩
  simp only [hfound] at hnext
  obtain ⟨extended, hextended, _, hresult⟩ := Registry.registerUpgrade_eq_ok hnext
  rw [hknown, Option.some.injEq] at hextended
  subst hextended
  exact ⟨normal, hnormal, hnew, hresult⟩

-- A further version of the same kind is bridged to the one before it.
theorem Progress.register_bridged {previous : Schema} {registered : Registry}
    (h : Progress registry (some previous)) (hkind : previous.kind = schema.kind)
    (hregister : registry.register schema = .ok registered)
    (hfillable : ∀ slot ∈ schema.slots, isUnfillable previous slot = false)
    (hnext : registered.registerUpgrade schema.kind previous.version (fillDefaults
      (match registered.schema? schema.kind schema.version with
        | some found => defaultFields found
        | none => [])) = .ok next) : Progress next (some schema) := by
  obtain ⟨lineage, before, last, hlineage, hlist, hlast⟩ := h.last previous rfl
  rw [hkind] at hlineage
  have hwhole := h.built.wellFormed.of_get? hlineage
  obtain ⟨normal, hnormal, hnew, rfl⟩ := register_and_upgrade_eq_ok hlineage hregister hnext
  obtain ⟨_, _, hversion, houtline⟩ := Schema.normalize_eq_ok hnormal
  have hbridged : ((lineage.withVersion normal).withUpgrade previous.version
      (fillDefaults (defaultFields normal))).Bridged :=
    hwhole.bridged_extend (h.bridged _ (SortedMap.get?_eq_some_iff.mp hlineage)) hlist hnew
      (isUnfillable_of_outline hlast houtline hfillable)
  have hothers : ∀ {entry : String × Lineage}, entry.1 ≠ schema.kind →
      entry ∈ (registry.kinds.insert schema.kind (lineage.withVersion normal)).toList →
      entry ∈ registry.kinds.toList := by
    intro entry hne hentry
    rcases SortedMap.mem_insert_iff.mp hentry with rfl | ⟨hold, _⟩
    · exact absurd rfl hne
    · exact hold
  refine ⟨.registerUpgrade (.register h.built hregister) hnext, ?_, ?_, ?_⟩
  · intro entry hentry
    rcases SortedMap.mem_insert_iff.mp hentry with rfl | ⟨hold, hne⟩
    · exact hbridged
    · exact h.bridged entry (hothers hne hold)
  · intro entry hentry
    refine ⟨schema, rfl, ?_⟩
    rcases SortedMap.mem_insert_iff.mp hentry with rfl | ⟨hold, hne⟩
    · exact Std.le_refl _
    · obtain ⟨_, ⟨⟩, hle⟩ := h.kinds_le entry (hothers hne hold)
      rw [← hkind]
      exact hle
  · rintro _ ⟨⟩
    refine ⟨(lineage.withVersion normal).withUpgrade previous.version
      (fillDefaults (defaultFields normal)), before ++ [(previous.version, last)], normal, ?_, ?_,
      houtline⟩
    · exact SortedMap.get?_insert_self _ _ _
    · rw [← hlist, ← hversion]
      exact hwhole.toConsistent.toList_withVersion hnew

theorem Progress.add {previous : Option Schema} (h : Progress registry previous)
    (hordered : ∀ earlier, previous = some earlier → earlier.kind ≤ schema.kind)
    (hnext : addSchema registry previous schema = .ok next) : Progress next (some schema) := by
  obtain ⟨registered, hregister, hnext⟩ := bind_eq_ok.mp hnext
  have hregistered := mapError_eq_ok.mp hregister
  cases previous with
  | none =>
      cases hnext
      exact h.register_first (fun _ he => by contradiction) hregistered
  | some earlier =>
      by_cases hkind : earlier.kind = schema.kind
      · simp only [hkind, ne_eq, not_true, if_false] at hnext
        cases hfind : schema.slots.find? (isUnfillable earlier) with
        | some slot => simp [hfind] at hnext
        | none =>
            simp only [hfind] at hnext
            exact h.register_bridged hkind hregistered
              (fun slot hslot => Bool.eq_false_iff.mpr (List.find?_eq_none.mp hfind slot hslot))
              (mapError_eq_ok.mp hnext)
      · simp only [hkind, ne_eq, not_false_eq_true, if_true] at hnext
        cases hnext
        refine h.register_first ?_ hregistered
        rintro _ ⟨⟩
        exact Std.lt_of_le_of_ne (hordered earlier rfl) hkind

theorem Progress.addAll {previous : Option Schema} {schemas : List Schema}
    (h : Progress registry previous)
    (hordered : ∀ earlier, previous = some earlier → ∀ schema ∈ schemas, earlier.kind ≤ schema.kind)
    (hsorted : schemas.Pairwise fun first second => first.kind ≤ second.kind)
    (hnext : addSchemas registry previous schemas = .ok next) :
    ∃ last, Progress next last := by
  induction schemas generalizing registry previous with
  | nil =>
      cases hnext
      exact ⟨previous, h⟩
  | cons schema rest ih =>
      obtain ⟨hahead, hrest⟩ := List.pairwise_cons.mp hsorted
      obtain ⟨added, hadd, hnext⟩ := bind_eq_ok.mp hnext
      have hadded := h.add (fun earlier he => hordered earlier he schema List.mem_cons_self) hadd
      refine ih hadded ?_ hrest hnext
      rintro _ ⟨⟩
      exact hahead

section Order

variable {first second third : Schema}

theorem isInOrder_iff :
    isInOrder first second = true ↔ first.kind < second.kind ∨
      (first.kind = second.kind ∧ first.version ≤ second.version) := by
  simp [isInOrder]

theorem isInOrder_trans (h : isInOrder first second = true) (h' : isInOrder second third = true) :
    isInOrder first third = true := by
  rw [isInOrder_iff] at h h' ⊢
  rcases h with h | ⟨hk, hv⟩ <;> rcases h' with h' | ⟨hk', hv'⟩
  · exact .inl (Std.lt_trans h h')
  · exact .inl (hk' ▸ h)
  · exact .inl (hk ▸ h')
  · exact .inr ⟨hk.trans hk', Std.le_trans hv hv'⟩

theorem isInOrder_total (first second : Schema) :
    isInOrder first second = true ∨ isInOrder second first = true := by
  rw [isInOrder_iff, isInOrder_iff]
  by_cases hlt : first.kind < second.kind
  · exact .inl (.inl hlt)
  · by_cases heq : first.kind = second.kind
    · rcases UInt32.le_total first.version second.version with hle | hle
      · exact .inl (.inr ⟨heq, hle⟩)
      · exact .inr (.inr ⟨heq.symm, hle⟩)
    · exact .inr (.inl (Std.lt_of_le_of_ne (Std.not_lt.mp hlt) (Ne.symm heq)))

-- Only schemas of one kind and version are in order both ways.
theorem place_eq_of_isInOrder (h : isInOrder first second = true)
    (h' : isInOrder second first = true) : first.place = second.place := by
  rw [isInOrder_iff] at h h'
  rcases h with h | ⟨hk, hv⟩ <;> rcases h' with h' | ⟨hk', hv'⟩
  · exact absurd (Std.lt_trans h h') Std.lt_irrefl
  · exact absurd (hk' ▸ h) Std.lt_irrefl
  · exact absurd (hk ▸ h') Std.lt_irrefl
  · exact Prod.ext hk (Std.le_antisymm hv hv')

theorem isInOrder_sortSchemas (schemas : List Schema) :
    (sortSchemas schemas).Pairwise fun first second => isInOrder first second = true := by
  apply List.pairwise_mergeSort
  · intro first second third h h'
    exact isInOrder_trans h h'
  · intro first second
    simpa using isInOrder_total first second

theorem pairwise_sortSchemas (schemas : List Schema) :
    (sortSchemas schemas).Pairwise fun first second => first.kind ≤ second.kind := by
  refine (isInOrder_sortSchemas schemas).imp fun {first second} h => ?_
  rcases isInOrder_iff.mp h with h | ⟨hk, _⟩
  · exact Std.le_of_lt h
  · exact Std.le_of_eq hk

end Order

-- A registry of a configuration was built step by step, and its versions are
-- bridged.
theorem bridged_registryOf {schemas : List Schema} (h : registryOf schemas = .ok registry) :
    registry.Built ∧ ∀ kind lineage, registry.kinds.get? kind = some lineage → lineage.Bridged := by
  obtain ⟨last, hprogress⟩ := progress_empty.addAll (fun _ he => by contradiction)
    (pairwise_sortSchemas schemas) h
  exact ⟨hprogress.built, fun kind lineage hkind =>
    hprogress.bridged (kind, lineage) (SortedMap.get?_eq_some_iff.mp hkind)⟩

end Config

end Chronicle
