import Chronicle.Proofs.Registry.Calls
import Chronicle.Proofs.Registry.Climb

-- What becomes of any record when it is upgraded: the upgrades that are there are
-- applied from version to version, or the first one that is not there is named.

namespace Chronicle

-- In a row of things to look up all are found, or there is a first one that is not.
theorem exists_found_or_missing {α β : Type} (find : α → Option β) (xs : List α) :
    (∃ found : List β, xs.map find = found.map some) ∨
      ∃ before missing after, xs = before ++ missing :: after ∧
        (∃ found : List β, before.map find = found.map some) ∧ find missing = none := by
  induction xs with
  | nil => exact .inl ⟨[], rfl⟩
  | cons x xs ih =>
      cases hx : find x with
      | none => exact .inr ⟨[], x, xs, rfl, ⟨[], rfl⟩, hx⟩
      | some y =>
          rcases ih with ⟨found, hfound⟩ |
            ⟨before, missing, after, rfl, ⟨found, hfound⟩, hnone⟩
          · exact .inl ⟨y :: found, by rw [List.map_cons, List.map_cons, hx, hfound]⟩
          · refine .inr ⟨x :: before, missing, after, rfl, ⟨y :: found, ?_⟩, hnone⟩
            rw [List.map_cons, List.map_cons, hx, hfound]

theorem exists_of_mem_of_map {α β : Type} {find : α → Option β} {xs : List α} {found : List β}
    (h : xs.map find = found.map some) {x : α} (hx : x ∈ xs) : ∃ y, find x = some y := by
  have hmem := List.mem_map_of_mem (f := find) hx
  rw [h] at hmem
  obtain ⟨y, _, hy⟩ := List.mem_map.mp hmem
  exact ⟨y, hy.symm⟩

namespace Registry

-- The registered versions of a kind above a version, in ascending order.
structure LiesAhead (registry : Registry) (kind : String) (version : UInt32)
    (later : List UInt32) : Prop where
  ascending : later.Pairwise (· < ·)
  mem_iff : ∀ other, other ∈ later ↔
    version < other ∧ ∃ schema, registry.schema? kind other = some schema

-- The upgrade of a record that has these versions ahead of it. It starts from its
-- own version and from all of them but the last.
structure Climbs (registry : Registry) (record : Record) (later : List UInt32)
    (latest : UInt32) : Prop where
  arrives : (record.version :: later).getLast? = some latest
  ok_iff : (∃ upgraded, registry.upgrade record = .ok upgraded) ↔
    ∀ version ∈ (record.version :: later).dropLast,
      ∃ step, registry.upgrade? record.kind version = some step
  ok_eq : ∀ steps : List Upgrade,
    (record.version :: later).dropLast.map (registry.upgrade? record.kind) = steps.map some →
    registry.upgrade record =
      .ok { record with version := latest, payload := Lineage.applyInTurn steps record.payload }
  missing_eq : ∀ version ∈ (record.version :: later).dropLast,
    registry.upgrade? record.kind version = none →
    (∀ earlier ∈ (record.version :: later).dropLast, earlier < version →
      ∃ step, registry.upgrade? record.kind earlier = some step) →
    registry.upgrade record = .error (.missingUpgrade record.kind version)
  -- Whoever breaks off on the way can take it up again.
  resumes : ∀ count version (steps : List Upgrade),
    (record.version :: later)[count]? = some version →
    ((record.version :: later).take count).map (registry.upgrade? record.kind) =
      steps.map some →
    registry.upgrade
      { record with version := version, payload := Lineage.applyInTurn steps record.payload } =
      registry.upgrade record
  -- The way taken turn by turn has an end, and no number of a version is exceeded.
  turns_eq : ∀ lineage, registry.kinds.get? record.kind = some lineage →
    lineage.turns (later.length + 1) record = .ends (registry.upgrade record) ∧
      ∀ count, lineage.turns count record ≠ .overflows

structure Upgrades (registry : Registry) (record : Record) : Prop where
  unknown : record.kind ∉ registry.kinds.keys →
    registry.upgrade record = .error (.unknownKind record.kind)
  known : record.kind ∈ registry.kinds.keys → ∃ latest later,
    registry.latest? record.kind = some latest ∧
    registry.LiesAhead record.kind record.version later ∧
    (latest.version < record.version → registry.upgrade record =
      .error (.unsupportedSchema record.kind record.version latest.version)) ∧
    (record.version ≤ latest.version → registry.Climbs record later latest.version)
  settled : ∀ upgraded, registry.upgrade record = .ok upgraded →
    registry.upgrade upgraded = .ok upgraded
  -- The upgrades are those that were registered.
  links : registry.Links

variable {registry : Registry} {record : Record} {lineage : Lineage} {kind : String}
  {version : UInt32}

theorem liesAhead_ahead (hlineage : registry.kinds.get? kind = some lineage) :
    registry.LiesAhead kind version (ahead lineage version) := by
  refine ⟨(List.pairwise_cons.mp (lineage.pairwise_ahead version)).2, ?_⟩
  intro other
  have hknown : other ∈ lineage.versions.keys ↔
      ∃ schema, registry.schema? kind other = some schema := by
    simp only [schema?_eq_some_iff_mem, lineageOf, hlineage, Option.getD_some, SortedMap.keys,
      List.mem_map, Prod.exists, exists_and_right, exists_eq_right]
  rw [ahead, List.mem_filter, hknown, decide_eq_true_eq, and_comm]

theorem upgrade_of_get?_eq_none (hkind : registry.kinds.get? record.kind = none) :
    registry.upgrade record = .error (.unknownKind record.kind) := by
  simp [upgrade, Registry.lineage, hkind]

theorem upgrade_of_latest_lt (hlineage : registry.kinds.get? record.kind = some lineage)
    (hversion : lineage.latestVersion < record.version) :
    registry.upgrade record =
      .error (.unsupportedSchema record.kind record.version lineage.latestVersion) := by
  rw [upgrade, lineage_eq_ok.mpr hlineage, ok_bind, if_pos hversion]

section Steps

variable {steps : List Upgrade} (hlineage : registry.kinds.get? record.kind = some lineage)
  (hversion : record.version ≤ lineage.latestVersion)

include hlineage hversion

theorem upgrade_of_steps
    (hsteps : (record.version :: ahead lineage record.version).dropLast.map
      (registry.upgrade? record.kind) = steps.map some) :
    registry.upgrade record = .ok { record with
      version := lineage.latestVersion
      payload := Lineage.applyInTurn steps record.payload } := by
  rw [upgrade?_eq_get? hlineage] at hsteps
  rw [upgrade_eq_climb hlineage hversion, Lineage.climb_of_steps hsteps]
  rfl

theorem upgrade_of_missing {before after : List UInt32} {missing : UInt32}
    (hstarts : (record.version :: ahead lineage record.version).dropLast =
      before ++ missing :: after)
    (hsteps : before.map (registry.upgrade? record.kind) = steps.map some)
    (hmissing : registry.upgrade? record.kind missing = none) :
    registry.upgrade record = .error (.missingUpgrade record.kind missing) := by
  rw [upgrade?_eq_get? hlineage] at hsteps hmissing
  rw [upgrade_eq_climb hlineage hversion, Lineage.climb_of_missing hstarts hsteps hmissing]
  rfl

theorem upgrade_of_reached (h : lineage.WellFormed record.kind) {count : Nat}
    (hreached : (record.version :: ahead lineage record.version)[count]? = some version)
    (hsteps : ((record.version :: ahead lineage record.version).take count).map
      (registry.upgrade? record.kind) = steps.map some) :
    registry.upgrade { record with
      version := version
      payload := Lineage.applyInTurn steps record.payload } = registry.upgrade record := by
  have hle : version ≤ lineage.latestVersion := by
    rcases List.mem_cons.mp (List.mem_of_getElem? hreached) with rfl | hahead
    · exact hversion
    · exact h.le_latest_of_mem (List.mem_filter.mp hahead).1
  have hmiddle := @upgrade_eq_climb registry { record with
    version := version
    payload := Lineage.applyInTurn steps record.payload } lineage hlineage hle
  rw [upgrade?_eq_get? hlineage] at hsteps
  rw [hmiddle, upgrade_eq_climb hlineage hversion, Lineage.climb_eq_climb_drop hreached hsteps,
    Lineage.ahead_of_getElem? hreached]

-- All steps are there, or the first of those that are not is the least of them.
theorem steps_or_missing :
    (∃ steps : List Upgrade, (record.version :: ahead lineage record.version).dropLast.map
      (registry.upgrade? record.kind) = steps.map some) ∨
    ∃ missing ∈ (record.version :: ahead lineage record.version).dropLast,
      registry.upgrade? record.kind missing = none ∧
      registry.upgrade record = .error (.missingUpgrade record.kind missing) ∧
      ∀ version ∈ (record.version :: ahead lineage record.version).dropLast,
        registry.upgrade? record.kind version = none → missing ≤ version := by
  have hascending := (lineage.pairwise_ahead record.version).sublist (List.dropLast_sublist _)
  rcases exists_found_or_missing (registry.upgrade? record.kind)
    (record.version :: ahead lineage record.version).dropLast with
    hall | ⟨before, missing, after, hparts, ⟨steps, hsteps⟩, hnone⟩
  · exact .inl hall
  · refine .inr ⟨missing, by rw [hparts]; simp, hnone,
      upgrade_of_missing hlineage hversion hparts hsteps hnone, ?_⟩
    intro version hmem hversionNone
    rw [hparts] at hmem hascending
    rcases List.mem_append.mp hmem with hbefore | hrest
    · obtain ⟨step, hstep⟩ := exists_of_mem_of_map hsteps hbefore
      cases hversionNone.symm.trans hstep
    · rcases List.mem_cons.mp hrest with rfl | hafter
      · exact UInt32.le_refl _
      · have hafterward := (List.pairwise_append.mp hascending).2.1
        exact UInt32.le_of_lt ((List.pairwise_cons.mp hafterward).1 version hafter)

theorem climbs_ahead (h : lineage.WellFormed record.kind) :
    registry.Climbs record (ahead lineage record.version) lineage.latestVersion := by
  have hcases := steps_or_missing hlineage hversion
  refine ⟨h.getLast?_ahead hversion, ?_, ?_, ?_, ?_, ?_⟩
  · constructor
    · rintro ⟨upgraded, hupgraded⟩ version hmem
      rcases hcases with ⟨steps, hsteps⟩ | ⟨missing, _, _, herror, _⟩
      · exact exists_of_mem_of_map hsteps hmem
      · cases herror.symm.trans hupgraded
    · intro hall
      rcases hcases with ⟨steps, hsteps⟩ | ⟨missing, hmem, hnone, _, _⟩
      · exact ⟨_, upgrade_of_steps hlineage hversion hsteps⟩
      · obtain ⟨step, hstep⟩ := hall missing hmem
        cases hnone.symm.trans hstep
  · intro steps hsteps
    exact upgrade_of_steps hlineage hversion hsteps
  · intro version hmem hnone hearlier
    rcases hcases with ⟨steps, hsteps⟩ | ⟨missing, hmissing, hmissingNone, herror, hleast⟩
    · obtain ⟨step, hstep⟩ := exists_of_mem_of_map hsteps hmem
      cases hnone.symm.trans hstep
    · rcases UInt32.lt_or_eq_of_le (hleast version hmem hnone) with hlt | rfl
      · obtain ⟨step, hstep⟩ := hearlier missing hmissing hlt
        cases hmissingNone.symm.trans hstep
      · exact herror
  · intro count version steps hreached hsteps
    exact upgrade_of_reached hlineage hversion h hreached hsteps
  · intro other hother
    cases hlineage.symm.trans hother
    rw [upgrade_eq_climb hlineage hversion]
    exact ⟨h.turns_eq hversion, fun count => lineage.turns_ne_overflows count record⟩

end Steps

theorem WellFormed.upgrades (h : registry.WellFormed) (record : Record) :
    registry.Upgrades record := by
  cases hkind : registry.kinds.get? record.kind with
  | none =>
      have hunknown := upgrade_of_get?_eq_none hkind
      refine ⟨fun _ => hunknown, ?_, ?_, registry.links⟩
      · intro hmem
        obtain ⟨entry, hentry, hsame⟩ := List.mem_map.mp hmem
        exact absurd hsame (SortedMap.get?_eq_none_iff.mp hkind entry hentry)
      · intro upgraded hupgraded
        rw [hunknown] at hupgraded
        contradiction
  | some lineage =>
      have hwhole := h.of_get? hkind
      obtain ⟨_, latest, _, hlast, hversion⟩ := hwhole.latest?
      have hlatest : registry.latest? record.kind = some latest := by
        rw [Registry.latest?, hkind]
        exact hlast
      have habove : latest.version < record.version → registry.upgrade record =
          .error (.unsupportedSchema record.kind record.version latest.version) := by
        rw [← hversion]
        exact upgrade_of_latest_lt hkind
      have hclimbs : record.version ≤ latest.version →
          registry.Climbs record (ahead lineage record.version) latest.version := by
        rw [← hversion]
        exact fun hle => climbs_ahead hkind hle hwhole
      refine ⟨?_, fun _ => ⟨latest, _, hlatest, liesAhead_ahead hkind, habove, hclimbs⟩, ?_,
        registry.links⟩
      · intro hnone
        exact absurd (List.mem_map_of_mem (SortedMap.get?_eq_some_iff.mp hkind)) hnone
      · intro upgraded hupgraded
        rcases UInt32.lt_or_le latest.version record.version with hlt | hle
        · rw [habove hlt] at hupgraded
          contradiction
        · rw [upgrade_eq_climb hkind (by rw [hversion]; exact hle)] at hupgraded
          obtain ⟨payload, -, rfl⟩ := map_eq_ok.mp hupgraded
          exact h.upgrade_of_latest hlatest hversion

-- From every version of a kind but the latest there is an upgrade.
def IsComplete (registry : Registry) : Prop :=
  ∀ kind version latest schema, registry.latest? kind = some latest →
    registry.schema? kind version = some schema → version < latest.version →
    ∃ step, registry.upgrade? kind version = some step

-- The versions that a record climbs from are known ones below the latest.
theorem WellFormed.exists_upgrade {registry : Registry} (h : registry.WellFormed)
    (hcomplete : registry.IsComplete) {record : Record} {schema : Schema}
    (hschema : registry.schema? record.kind record.version = some schema) :
    ∃ upgraded, registry.upgrade record = .ok upgraded := by
  obtain ⟨lineage, hlineage, _⟩ := schema?_eq_some_iff.mp hschema
  have hkind : record.kind ∈ registry.kinds.keys :=
    List.mem_map_of_mem (SortedMap.get?_eq_some_iff.mp hlineage)
  obtain ⟨latest, later, hlatest, hahead, habove, hclimbs⟩ := (h.upgrades record).known hkind
  have hle : record.version ≤ latest.version := by
    refine UInt32.not_lt.mp fun hlt => ?_
    obtain ⟨missing, hmissing⟩ := h.upgrade_eq_error hschema (habove hlt)
    contradiction
  have hascending : (record.version :: later).Pairwise (· < ·) :=
    List.pairwise_cons.mpr ⟨fun other hother => ((hahead.mem_iff other).mp hother).1,
      hahead.ascending⟩
  obtain ⟨before, hbefore⟩ := List.getLast?_eq_some_iff.mp (hclimbs hle).arrives
  refine (hclimbs hle).ok_iff.mpr fun version hversion => ?_
  rw [hbefore] at hascending hversion
  rw [List.dropLast_concat] at hversion
  have hlt : version < latest.version :=
    (List.pairwise_append.mp hascending).2.2 version hversion _ List.mem_cons_self
  have hknown : ∃ known, registry.schema? record.kind version = some known := by
    have hmem : version ∈ record.version :: later := by
      rw [hbefore]
      exact List.mem_append_left _ hversion
    rcases List.mem_cons.mp hmem with rfl | hlater
    · exact ⟨schema, hschema⟩
    · exact ((hahead.mem_iff version).mp hlater).2
  obtain ⟨known, hknown⟩ := hknown
  exact hcomplete record.kind version latest known hlatest hknown hlt

-- Whatever was registered and refused before, any record comes to the latest
-- version of its kind or is told what it lacks.
theorem upgrades_run (calls : List Call) (record : Record) : (run calls).Upgrades record :=
  (Built.empty.foldl_perform calls).wellFormed.upgrades record

-- Versions 1, 3 and 7 of a kind, with an upgrade from each but the last. They are applied
-- in ascending order. One from 5, which is no version, was refused, and a record of the
-- number 2 lacks its first step.
theorem upgrades_run_of_chain :
    let first : Upgrade := fun payload => payload.insert ⟨1, "steps", .int 1⟩
    let second : Upgrade := fun payload => payload.insert ⟨1, "steps", .int 2⟩
    let registry := run [.register ⟨"task", 1, []⟩, .register ⟨"task", 3, []⟩,
      .registerUpgrade "task" 3 second, .register ⟨"task", 7, []⟩,
      .registerUpgrade "task" 1 first, .registerUpgrade "task" 5 first]
    let record : Record := ⟨"task", "e", ⟨5, none⟩, 1, ∅⟩
    registry.Upgrades record ∧ registry.LiesAhead "task" 1 [3, 7] ∧
      registry.upgrade? "task" 1 = some first ∧ registry.upgrade? "task" 3 = some second ∧
      registry.upgrade? "task" 5 = none ∧
      registry.upgrade record =
        .ok { record with version := 7, payload := second (first record.payload) } ∧
      (second (first record.payload)).get? "steps" = some (.int 2) ∧
      registry.upgrade { record with version := 2 } = .error (.missingUpgrade "task" 2) := by
  intro first second registry record
  have hahead : registry.LiesAhead "task" 1 [3, 7] :=
    @liesAhead_ahead registry _ "task" 1 rfl
  exact ⟨upgrades_run _ record, hahead, rfl, rfl, rfl, by decide +kernel, by decide +kernel,
    by decide +kernel⟩

end Registry

end Chronicle
