import Chronicle.Proofs.Registry

-- The way of a record from version to version, taken one turn at a time: the next
-- version is looked for at every turn, and the numbers of versions do not run out.

namespace Chronicle

namespace Lineage

open Registry (ahead ahead_eq_nil_iff)

-- What a turn of the way comes to.
inductive Turn where
  | goesOn (record : Record)
  | ends (outcome : Except RecordError Record)
  -- There is no number after that of the version.
  | overflows

def successor? (version : UInt32) : Option UInt32 :=
  if version.toNat + 1 < UInt32.size then some (version + 1) else none

-- The first registered version from a number on.
def firstFrom? (lineage : Lineage) (least : UInt32) : Option UInt32 :=
  lineage.versions.keys.find? fun version => least ≤ version

def turn (lineage : Lineage) (record : Record) : Turn :=
  if record.version < lineage.latestVersion then
    match lineage.upgrades.get? record.version with
    | none => .ends (.error (.missingUpgrade record.kind record.version))
    | some upgrade =>
        match successor? record.version with
        | none => .overflows
        | some least =>
            let next := (lineage.firstFrom? least).getD lineage.latestVersion
            .goesOn { record with version := next, payload := upgrade record.payload }
  else .ends (.ok record)

def turns (lineage : Lineage) : Nat → Record → Turn
  | 0, record => .goesOn record
  | count + 1, record =>
      match lineage.turn record with
      | .goesOn next => turns lineage count next
      | .ends outcome => .ends outcome
      | .overflows => .overflows

section Successor

variable {version latest : UInt32}

-- A version below another one is not the greatest number.
theorem successor?_of_lt (h : version < latest) : successor? version = some (version + 1) := by
  have hbound := latest.toNat_lt
  rw [UInt32.lt_iff_toNat_lt] at h
  rw [successor?, if_pos (by simp only [UInt32.size]; omega)]

theorem add_one_le_iff (h : version < latest) {other : UInt32} :
    version + 1 ≤ other ↔ version < other := by
  have hbound := latest.toNat_lt
  rw [UInt32.lt_iff_toNat_lt] at h
  rw [UInt32.le_iff_toNat_le, UInt32.lt_iff_toNat_lt, UInt32.toNat_add, UInt32.toNat_one]
  omega

theorem firstFrom?_add_one (lineage : Lineage) (h : version < latest) :
    lineage.firstFrom? (version + 1) = lineage.nextVersion? version := by
  simp only [firstFrom?, nextVersion?, add_one_le_iff h]

end Successor

variable {lineage : Lineage} {record : Record} {kind : String}

theorem turn_ne_overflows (lineage : Lineage) (record : Record) :
    lineage.turn record ≠ .overflows := by
  unfold turn
  split
  · rename_i hbelow
    rw [successor?_of_lt hbelow]
    cases lineage.upgrades.get? record.version <;> simp
  · simp

theorem turns_ne_overflows (lineage : Lineage) (count : Nat) (record : Record) :
    lineage.turns count record ≠ .overflows := by
  induction count generalizing record with
  | zero => simp [turns]
  | succ count ih =>
      have hturn := lineage.turn_ne_overflows record
      cases hcase : lineage.turn record with
      | goesOn next => simpa [turns, hcase] using ih next
      | ends outcome => simp [turns, hcase]
      | overflows => exact absurd hcase hturn

section Ahead

variable {version next : UInt32} {later : List UInt32}

theorem pairwise_keys (lineage : Lineage) : lineage.versions.keys.Pairwise (· < ·) :=
  List.pairwise_map.mpr lineage.versions.ascending

theorem pairwise_ahead (lineage : Lineage) (version : UInt32) :
    (version :: ahead lineage version).Pairwise (· < ·) := by
  refine List.pairwise_cons.mpr ⟨?_, lineage.pairwise_keys.filter _⟩
  intro other hother
  simpa using (List.mem_filter.mp hother).2

theorem nextVersion?_eq_head? (lineage : Lineage) (version : UInt32) :
    lineage.nextVersion? version = (ahead lineage version).head? :=
  (List.head?_filter ..).symm

-- The first of the versions ahead has the others ahead of it.
theorem ahead_of_cons (h : ahead lineage version = next :: later) :
    ahead lineage next = later := by
  have hascending := lineage.pairwise_ahead version
  rw [h] at hascending
  obtain ⟨hfirst, hrest⟩ := List.pairwise_cons.mp hascending
  have hnext : version < next := hfirst next List.mem_cons_self
  have hlater : ∀ other ∈ later, next < other := (List.pairwise_cons.mp hrest).1
  have hnarrow : ahead lineage next =
      (ahead lineage version).filter fun other => next < other := by
    rw [ahead, ahead, List.filter_filter]
    apply List.filter_congr
    intro other _
    by_cases hother : next < other
    · simp [hother, UInt32.lt_trans hnext hother]
    · simp [hother]
  rw [hnarrow, h, List.filter_cons, if_neg (by simp)]
  exact List.filter_eq_self.mpr fun other hother => decide_eq_true (hlater other hother)

theorem ahead_of_getElem? {count : Nat}
    (h : (version :: ahead lineage version)[count]? = some next) :
    ahead lineage next = (ahead lineage version).drop count := by
  induction count generalizing version with
  | zero =>
      cases h
      rfl
  | succ count ih =>
      cases hahead : ahead lineage version with
      | nil => simp [hahead] at h
      | cons first rest =>
          have hrest := ahead_of_cons hahead
          rw [hahead, List.getElem?_cons_succ, ← hrest] at h
          rw [ih h, hrest, List.drop_succ_cons]

theorem WellFormed.getLast?_ahead (h : lineage.WellFormed kind)
    (hversion : version ≤ lineage.latestVersion) :
    (version :: ahead lineage version).getLast? = some lineage.latestVersion := by
  obtain ⟨before, latest, hlist, -, hlatest⟩ := h.latest?
  have hkeys : lineage.versions.keys = before.map (·.1) ++ [lineage.latestVersion] := by
    rw [hlatest, SortedMap.keys, hlist]
    simp
  by_cases hbelow : version < lineage.latestVersion
  · have hahead : ahead lineage version =
        (before.map (·.1)).filter (fun other => version < other) ++ [lineage.latestVersion] := by
      rw [ahead, hkeys, List.filter_append]
      simp [hbelow]
    rw [hahead, ← List.cons_append, List.getLast?_append]
    rfl
  · have hsame : version = lineage.latestVersion :=
      UInt32.le_antisymm hversion (UInt32.not_lt.mp hbelow)
    have hnil := (ahead_eq_nil_iff h).mpr (UInt32.not_lt.mp hbelow)
    rw [hnil, hsame]
    rfl

end Ahead

section Climb

-- Upgrades one after the other.
def applyInTurn (upgrades : List Upgrade) (payload : Payload) : Payload :=
  upgrades.foldl (fun payload upgrade => upgrade payload) payload

variable {version : UInt32} {later : List UInt32} {upgrades : List Upgrade} {payload : Payload}

-- After some of the steps the climb is that of a payload which these steps made.
theorem climb_eq_climb_drop {count : Nat} {reached : UInt32}
    (hreached : (version :: later)[count]? = some reached)
    (hsteps : ((version :: later).take count).map lineage.upgrades.get? = upgrades.map some) :
    lineage.climb kind later version payload =
      lineage.climb kind (later.drop count) reached (applyInTurn upgrades payload) := by
  induction count generalizing version later upgrades payload with
  | zero =>
      cases hreached
      have hnone : upgrades = [] := by simpa using hsteps.symm
      rw [hnone]
      rfl
  | succ count ih =>
      cases later with
      | nil => simp at hreached
      | cons next rest =>
          cases upgrades with
          | nil => simp at hsteps
          | cons upgrade upgrades =>
              rw [List.take_succ_cons, List.map_cons, List.map_cons, List.cons.injEq] at hsteps
              rw [List.getElem?_cons_succ] at hreached
              rw [climb, hsteps.1]
              exact ih hreached hsteps.2

theorem climb_of_steps
    (hsteps : ((version :: later).dropLast).map lineage.upgrades.get? = upgrades.map some) :
    lineage.climb kind later version payload = .ok (applyInTurn upgrades payload) := by
  have hlength : (version :: later).length - 1 = later.length := rfl
  rw [List.dropLast_eq_take, hlength] at hsteps
  have hlast : ∃ reached, (version :: later)[later.length]? = some reached :=
    ⟨_, List.getElem?_eq_getElem (Nat.lt_succ_self later.length)⟩
  obtain ⟨reached, hreached⟩ := hlast
  rw [climb_eq_climb_drop hreached hsteps, List.drop_length]
  rfl

theorem climb_of_missing {before after : List UInt32} {missing : UInt32}
    (hstarts : (version :: later).dropLast = before ++ missing :: after)
    (hsteps : before.map lineage.upgrades.get? = upgrades.map some)
    (hmissing : lineage.upgrades.get? missing = none) :
    lineage.climb kind later version payload = .error (.missingUpgrade kind missing) := by
  have hlength : before.length < later.length := by
    have hcount := congrArg List.length hstarts
    simp at hcount
    omega
  have htake : (version :: later).take before.length = before := by
    have hparts := congrArg (List.take before.length) hstarts
    rwa [List.take_left' rfl, List.dropLast_eq_take, List.take_take,
      Nat.min_eq_left (by simp; omega)] at hparts
  have hreached : (version :: later)[before.length]? = some missing := by
    have hplace : ((version :: later).dropLast)[before.length]? = some missing := by
      rw [hstarts]
      simp
    rwa [List.getElem?_dropLast, if_pos (by simpa using hlength)] at hplace
  rw [climb_eq_climb_drop hreached (by rw [htake]; exact hsteps),
    List.drop_eq_getElem_cons hlength, climb, hmissing]

end Climb

-- Turn by turn the climb is made, one turn for each step and one to see the end.
theorem WellFormed.turns_eq (h : lineage.WellFormed record.kind)
    (hversion : record.version ≤ lineage.latestVersion) :
    lineage.turns ((ahead lineage record.version).length + 1) record =
      .ends ((lineage.climb record.kind (ahead lineage record.version) record.version
        record.payload).map fun payload =>
          { record with version := lineage.latestVersion, payload := payload }) := by
  generalize hahead : ahead lineage record.version = later
  induction later generalizing record with
  | nil =>
      have hlatest : record.version = lineage.latestVersion :=
        UInt32.le_antisymm hversion ((ahead_eq_nil_iff h).mp hahead)
      have hstays : ¬ record.version < lineage.latestVersion :=
        UInt32.not_lt.mpr (UInt32.le_of_eq hlatest.symm)
      have hsame : { record with version := lineage.latestVersion } = record := by
        rw [← hlatest]
      simp [turns, turn, hstays, climb, Except.map, hsame]
  | cons next rest ih =>
      have hfirst : lineage.nextVersion? record.version = some next := by
        rw [nextVersion?_eq_head?, hahead]
        rfl
      have hnext : next ∈ lineage.versions.keys := by
        have hmem : next ∈ ahead lineage record.version := by
          rw [hahead]
          exact List.mem_cons_self
        exact (List.mem_filter.mp hmem).1
      have hbelow : record.version < lineage.latestVersion := by
        rw [← UInt32.not_le]
        intro hle
        rw [(ahead_eq_nil_iff h).mpr hle] at hahead
        contradiction
      rw [List.length_cons, turns, turn, if_pos hbelow, climb]
      cases hupgrade : lineage.upgrades.get? record.version with
      | none => rfl
      | some upgrade =>
          dsimp only
          rw [successor?_of_lt hbelow]
          dsimp only
          rw [firstFrom?_add_one lineage hbelow, hfirst, Option.getD_some]
          exact @ih { record with version := next, payload := upgrade record.payload }
            h (h.le_latest_of_mem hnext) (ahead_of_cons hahead)

end Lineage

end Chronicle
