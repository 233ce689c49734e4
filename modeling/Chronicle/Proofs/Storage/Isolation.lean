import Chronicle.Proofs.Scan
import Chronicle.Proofs.Storage.Reading

-- A snapshot, and a scan, answers for ever what was live when it was taken.

namespace Chronicle

theorem Table.value?_eq_get? (table : Table) (key : Bytes) :
    table.value? key = Entries.get? key table.liveEntries := by
  apply Option.ext
  intro value
  rw [value?_eq_some_iff, Entries.get?_eq_some_iff table.ascending_liveEntries]

namespace Session

namespace Action

-- Actions that take the name of a snapshot from the one that bears it.
def Ends (name : String) : Action → Prop
  | takeSnapshot other | dropSnapshot other | turnIntoScan other _ _ => other = name
  | _ => False

-- Actions that take the name of a scan from the one that bears it.
def Resets (name : String) : Action → Prop
  | startScan other _ | startScanOn _ other _ | turnIntoScan _ other _ | dropScan other =>
      other = name
  | _ => False

def asks (name : String) : Action → Nat
  | advance other count => if other = name then count else 0
  | _ => 0

end Action

-- How many entries a scan is asked for.
def asked (name : String) (actions : List Action) : Nat :=
  actions.foldr (fun action total => action.asks name + total) 0

def within (range : KeyRange) (entries : List (Bytes × Bytes)) : List (Bytes × Bytes) :=
  entries.filter fun entry => range.contains entry.1

-- The answer of a scan that has answered so many of its entries already.
def continued (entries : List (Bytes × Bytes)) (already count : Nat) : Answer :=
  .entries ((entries.drop already).take count) (decide ((entries.drop already).length < count))

-- From a moment on at which these entries are live, whatever is done later.
structure Isolated (moment : Session) (entries : List (Bytes × Bytes)) : Prop where
  get : ∀ key, moment.answer (.get key) = .value (Entries.get? key entries)
  stats : ∃ tombstones, moment.answer .stats = .stats ⟨entries.length, tombstones⟩
  scan : ∀ range, moment.answer (.scan range) = .entries (within range entries) true
  snapshotGet : ∀ name later, (∀ action ∈ later, ¬ action.Ends name) → ∀ key,
    (moment.run (.takeSnapshot name :: later)).answer (.snapshotGet name key) =
      .value (Entries.get? key entries)
  snapshotScan : ∀ name later, (∀ action ∈ later, ¬ action.Ends name) → ∀ range,
    (moment.run (.takeSnapshot name :: later)).answer (.snapshotScan name range) =
      .entries (within range entries) true
  -- A scan that is started on the store.
  startScan : ∀ name range later, (∀ action ∈ later, ¬ action.Resets name) → ∀ count,
    (moment.run (.startScan name range :: later)).answer (.advance name count) =
      continued (within range entries) (asked name later) count
  -- Scans that are started on a snapshot, at any time.
  startScanOn : ∀ snapshot name range between later,
    (∀ action ∈ between, ¬ action.Ends snapshot) →
    (∀ action ∈ later, ¬ action.Ends snapshot ∧ ¬ action.Resets name) → ∀ count,
    (moment.run (.takeSnapshot snapshot :: between ++
      .startScanOn snapshot name range :: later)).answer (.advance name count) =
      continued (within range entries) (asked name later) count
  turnIntoScan : ∀ snapshot name range between later,
    (∀ action ∈ between, ¬ action.Ends snapshot) →
    (∀ action ∈ later, ¬ action.Resets name) → ∀ count,
    (moment.run (.takeSnapshot snapshot :: between ++
      .turnIntoScan snapshot name range :: later)).answer (.advance name count) =
      continued (within range entries) (asked name later) count

variable {session : Session} {name : String} {action : Action}

-- Actions after which a scan may stand elsewhere.
def Action.Moves (name : String) (cursor : Cursor) (action : Action) : Prop :=
  match action with
  | .startScan other _ | .startScanOn _ other _ | .dropScan other | .advance other _ =>
      other = name
  | .takeSnapshot snapshot | .dropSnapshot snapshot => cursor.borrows snapshot = true
  | .turnIntoScan snapshot other _ => other = name ∨ cursor.borrows snapshot = true
  | _ => False

theorem Action.Moves.cases {cursor : Cursor} (h : action.Moves name cursor) :
    action.Resets name ∨ (∃ snapshot, cursor.access = .borrowed snapshot ∧ action.Ends snapshot) ∨
      ∃ count, action = .advance name count := by
  cases action with
  | takeSnapshot snapshot => exact .inr (.inl ⟨snapshot, Cursor.borrows_iff.mp h, rfl⟩)
  | dropSnapshot snapshot => exact .inr (.inl ⟨snapshot, Cursor.borrows_iff.mp h, rfl⟩)
  | startScan other range => exact .inl h
  | startScanOn snapshot other range => exact .inl h
  | turnIntoScan snapshot other range =>
      rcases h with hreset | hborrows
      · exact .inl hreset
      · exact .inr (.inl ⟨snapshot, Cursor.borrows_iff.mp hborrows, rfl⟩)
  | advance other count =>
      cases h
      exact .inr (.inr ⟨count, rfl⟩)
  | dropScan other => exact .inl h
  | _ => exact h.elim

theorem Action.asks_of_not_moves {cursor : Cursor} (h : ¬ action.Moves name cursor) :
    action.asks name = 0 := by
  cases action with
  | advance other count => exact if_neg h
  | _ => rfl

-- All that happens to snapshots and scans that an action is not about.
structure Keeps (session next : Session) (action : Action) : Prop where
  snapshots : ∀ name, ¬ action.Ends name → next.snapshots name = session.snapshots name
  scans : ∀ name cursor, session.scans name = some cursor → ¬ action.Moves name cursor →
    next.scans name = some cursor

theorem Keeps.of_eq {next : Session} (hsnapshots : next.snapshots = session.snapshots)
    (hscans : next.scans = session.scans) : Keeps session next action :=
  ⟨fun name _ => congrFun hsnapshots name,
    fun name _ hscan _ => (congrFun hscans name).trans hscan⟩

theorem snapshots_dropSnapshot_of_ne {other : String} (h : other ≠ name) :
    (session.dropSnapshot name).snapshots other = session.snapshots other := by
  unfold dropSnapshot
  cases session.snapshots name with
  | none => rfl
  | some transaction => exact Function.update_of_ne h _ _

theorem scans_endScansOn {other : String} {cursor : Cursor}
    (hscan : session.scans other = some cursor) (hborrows : ¬ cursor.borrows name = true) :
    (session.endScansOn name).scans other = some cursor := by
  simp [endScansOn, hscan, hborrows]

theorem scans_dropSnapshot {other : String} {cursor : Cursor}
    (hscan : session.scans other = some cursor) (hborrows : ¬ cursor.borrows name = true) :
    (session.dropSnapshot name).scans other = some cursor := by
  unfold dropSnapshot
  cases session.snapshots name with
  | none => exact hscan
  | some transaction => exact scans_endScansOn hscan hborrows

theorem snapshots_dropScan : (session.dropScan name).snapshots = session.snapshots := by
  obtain ⟨number, pool, heq⟩ := session.dropScan_eq name
  rw [heq]
  rfl

theorem scans_dropScan_of_ne {other : String} (h : other ≠ name) :
    (session.dropScan name).scans other = session.scans other := by
  obtain ⟨number, pool, heq⟩ := session.dropScan_eq name
  rw [heq]
  exact Function.update_of_ne h _ _

theorem scans_setScan_dropScan {other : String} (h : other ≠ name) (cursor : Option Cursor) :
    ((session.dropScan name).setScan name cursor).scans other = session.scans other :=
  (Function.update_of_ne h _ _).trans (scans_dropScan_of_ne h)

theorem keeps_change (f : Storage → Answer × Storage) :
    Keeps session (session.change f).2 action := by
  unfold change
  cases session.store with
  | none => exact .of_eq rfl rfl
  | some store => exact .of_eq rfl rfl

theorem Tidy.keeps_consult (h : session.Tidy) (f : Table → Answer) :
    Keeps session (session.consult f).2 action := by
  cases hstore : session.store with
  | none =>
      rw [consult_of_closed hstore]
      exact .of_eq rfl rfl
  | some store =>
      obtain ⟨pool, _, heq⟩ := h.consult_eq hstore f
      rw [heq]
      exact .of_eq rfl rfl

theorem Tidy.keeps_inTransaction (h : session.Tidy)
    {f : Transaction → Session → Answer × Session}
    (hf : ∀ transaction number pool,
      Keeps session (f transaction (session.setPool number pool)).2 action) :
    Keeps session (session.inTransaction f).2 action := by
  cases hstore : session.store with
  | none =>
      rw [inTransaction_of_closed hstore]
      exact .of_eq rfl rfl
  | some store =>
      obtain ⟨pool, _, heq⟩ := h.inTransaction_eq hstore f
      rw [heq]
      exact hf _ _ _

theorem Tidy.keeps_step (h : session.Tidy) (action : Action) :
    Keeps session (session.step action).2 action := by
  cases action with
  | openStore path options =>
      rw [Session.step, openStore_eq]
      cases Storage.openIn session.current path options <;> exact .of_eq rfl rfl
  | closeStore =>
      simp only [Session.step, Session.closeStore]
      split <;> exact .of_eq rfl rfl
  | put key value => exact keeps_change _
  | delete key => exact keeps_change _
  | write batch => exact keeps_change _
  | compact => exact keeps_change _
  | get key => exact h.keeps_consult _
  | stats => exact h.keeps_consult _
  | scan range => exact h.keeps_inTransaction fun _ _ _ => .of_eq rfl rfl
  | takeSnapshot taken =>
      refine h.keeps_inTransaction fun transaction number pool => ⟨?_, ?_⟩
      · intro name hname
        have hne : name ≠ taken := fun hsame => hname hsame.symm
        exact (Function.update_of_ne hne _ _).trans (snapshots_dropSnapshot_of_ne hne)
      · intro name cursor hscan hmoves
        exact scans_dropSnapshot hscan hmoves
  | dropSnapshot dropped =>
      refine ⟨?_, ?_⟩
      · intro name hname
        exact snapshots_dropSnapshot_of_ne fun hsame => hname hsame.symm
      · intro name cursor hscan hmoves
        exact scans_dropSnapshot hscan hmoves
  | snapshotGet name key =>
      rw [Session.step, h.snd_inspect]
      exact .of_eq rfl rfl
  | snapshotScan name range =>
      rw [Session.step, h.snd_inspect]
      exact .of_eq rfl rfl
  | startScan started range =>
      refine h.keeps_inTransaction fun transaction number pool => ⟨?_, ?_⟩
      · intro name _
        exact congrFun snapshots_dropScan name
      · intro name cursor hscan hmoves
        have hne : name ≠ started := fun hsame => hmoves hsame.symm
        exact (scans_setScan_dropScan hne _).trans hscan
  | startScanOn snapshot started range =>
      rw [Session.step]
      cases session.snapshots snapshot with
      | none => exact .of_eq rfl rfl
      | some transaction =>
          refine ⟨?_, ?_⟩
          · intro name _
            exact congrFun snapshots_dropScan name
          · intro name cursor hscan hmoves
            have hne : name ≠ started := fun hsame => hmoves hsame.symm
            exact (scans_setScan_dropScan hne _).trans hscan
  | turnIntoScan snapshot started range =>
      rw [Session.step]
      cases session.snapshots snapshot with
      | none => exact .of_eq rfl rfl
      | some transaction =>
          refine ⟨?_, ?_⟩
          · intro name hname
            have hne : name ≠ snapshot := fun hsame => hname hsame.symm
            exact (congrFun snapshots_dropScan name).trans (Function.update_of_ne hne _ _)
          · intro name cursor hscan hmoves
            have hne : name ≠ started := fun hsame => hmoves (.inl hsame.symm)
            have hkept := scans_endScansOn hscan fun hborrows => hmoves (.inr hborrows)
            exact (scans_setScan_dropScan hne _).trans hkept
  | advance advanced count =>
      rw [Session.step]
      rcases h.advance_cases advanced count with heq | ⟨cursor, scan, _, heq⟩
      · rw [heq]
        exact .of_eq rfl rfl
      · rw [heq]
        refine ⟨fun _ _ => rfl, ?_⟩
        intro name cursor hscan hmoves
        exact (Function.update_of_ne (fun hsame => hmoves hsame.symm) _ _).trans hscan
  | dropScan dropped =>
      refine ⟨?_, ?_⟩
      · intro name _
        exact congrFun snapshots_dropScan name
      · intro name cursor hscan hmoves
        exact (scans_dropScan_of_ne fun hsame => hmoves hsame.symm).trans hscan

section Views

variable {access : Access} {view : Snapshot} {rest : List (Bytes × Bytes)}

-- What is read through the access is read in the view.
def Shows (session : Session) (access : Access) (view : Snapshot) : Prop :=
  ∃ pool, session.transaction? access = some ⟨.pinned view.table, pool, view.pageSize⟩

-- A scan of the view with the rest of its entries before it.
def Follows (session : Session) (name : String) (access : Access) (view : Snapshot)
    (rest : List (Bytes × Bytes)) : Prop :=
  session.Shows access view ∧ ∃ scan, session.scans name = some ⟨access, scan⟩ ∧
    (scan.over view).Sound ∧ (scan.over view).pending = rest

theorem Shows.step (h : session.Shows access view) (htidy : session.Tidy)
    (hkept : ∀ snapshot, access = .borrowed snapshot → ¬ action.Ends snapshot) :
    (session.step action).2.Shows access view := by
  obtain ⟨pool, hheld⟩ := h
  cases access with
  | owned transaction => exact ⟨pool, hheld⟩
  | borrowed snapshot =>
      have hsame := (htidy.keeps_step action).snapshots snapshot (hkept snapshot rfl)
      exact ⟨pool, hsame.trans hheld⟩

theorem Shows.run {actions : List Action} (h : session.Shows access view) (htidy : session.Tidy)
    (hkept : ∀ action ∈ actions, ∀ snapshot, access = .borrowed snapshot →
      ¬ action.Ends snapshot) : (session.run actions).Shows access view := by
  induction actions generalizing session with
  | nil => exact h
  | cons action actions ih =>
      have hnext := h.step htidy (hkept action List.mem_cons_self)
      exact ih hnext (htidy.step action) fun later hlater =>
        hkept later (List.mem_cons_of_mem _ hlater)

theorem Follows.advance (h : session.Follows name access view rest) (count : Nat) :
    session.answer (.advance name count) =
        .entries (rest.take count) (decide (rest.length < count)) ∧
      (session.step (.advance name count)).2.Follows name access view (rest.drop count) := by
  obtain ⟨⟨pool, hheld⟩, scan, hscan, hsound, rfl⟩ := h
  obtain ⟨after, htake, hpending, hafter, hview⟩ := Scan.take_eq hsound count
  have hover : after.over view = after := by
    have hsame : after.snapshot = view := hview
    rw [← hsame]
    rfl
  have hadvance := advance_of_pinned hscan hheld count
  rw [htake] at hadvance
  have hnext : (session.step (.advance name count)).2 =
      session.setScan name (some ⟨access, after⟩) := congrArg Prod.snd hadvance
  refine ⟨congrArg Prod.fst hadvance, ?_⟩
  rw [hnext]
  refine ⟨⟨pool, ?_⟩, after, Function.update_self _ _ _, ?_, ?_⟩
  · cases access <;> exact hheld
  · rw [hover]
    exact hafter
  · rw [hover]
    exact hpending

theorem Follows.step (h : session.Follows name access view rest) (htidy : session.Tidy)
    (hkept : ∀ snapshot, access = .borrowed snapshot → ¬ action.Ends snapshot)
    (hreset : ¬ action.Resets name) :
    (session.step action).2.Follows name access view (rest.drop (action.asks name)) := by
  have hshows := h.1.step htidy hkept
  obtain ⟨scan, hscan, hsound, hpending⟩ := h.2
  by_cases hmoves : action.Moves name ⟨access, scan⟩
  · rcases hmoves.cases with hresets | ⟨snapshot, hborrowed, hends⟩ | ⟨count, rfl⟩
    · exact absurd hresets hreset
    · exact absurd hends (hkept snapshot hborrowed)
    · have hasks : (Action.advance name count).asks name = count := if_pos rfl
      rw [hasks]
      exact (h.advance count).2
  · rw [Action.asks_of_not_moves hmoves, List.drop_zero]
    exact ⟨hshows, scan, (htidy.keeps_step action).scans name _ hscan hmoves, hsound, hpending⟩

theorem Follows.run {actions : List Action} (h : session.Follows name access view rest)
    (htidy : session.Tidy)
    (hkept : ∀ action ∈ actions, ∀ snapshot, access = .borrowed snapshot →
      ¬ action.Ends snapshot)
    (hreset : ∀ action ∈ actions, ¬ action.Resets name) :
    (session.run actions).Follows name access view (rest.drop (asked name actions)) := by
  induction actions generalizing session rest with
  | nil => exact h
  | cons action actions ih =>
      have hfirst : action ∈ action :: actions := List.mem_cons_self
      have hnext := h.step htidy (hkept action hfirst) (hreset action hfirst)
      have hasked : asked name (action :: actions) = action.asks name + asked name actions := rfl
      rw [hasked, ← List.drop_drop]
      exact ih hnext (htidy.step action)
        (fun later hlater => hkept later (List.mem_cons_of_mem _ hlater))
        (fun later hlater => hreset later (List.mem_cons_of_mem _ hlater))

theorem Shows.inspect (h : session.Shows (.borrowed name) view) (f : Snapshot → Answer) :
    session.inspect name f = (f view, session) := by
  obtain ⟨pool, hheld⟩ := h
  exact inspect_of_pinned hheld f

theorem Shows.answer_get (h : session.Shows (.borrowed name) view) (key : Bytes) :
    session.answer (.snapshotGet name key) = .value (view.value? key) := by
  rw [answer, Session.step, h.inspect]

theorem Shows.answer_scan (h : session.Shows (.borrowed name) view) (range : KeyRange) :
    session.answer (.snapshotScan name range) = listing range view := by
  rw [answer, Session.step, h.inspect]

end Views

section Beginnings

variable {store : Storage}

-- Connections and transactions are not to be seen in what a store answers.
theorem Tidy.answer_get (h : session.Tidy) (hstore : session.store = some store) (key : Bytes) :
    session.answer (.get key) = .value (store.value? key) := by
  obtain ⟨pool, _, heq⟩ := h.consult_eq hstore _
  rw [answer, Session.step, heq]
  rfl

theorem Tidy.answer_stats (h : session.Tidy) (hstore : session.store = some store) :
    session.answer .stats = .stats store.stats := by
  obtain ⟨pool, _, heq⟩ := h.consult_eq hstore _
  rw [answer, Session.step, heq]
  rfl

theorem Tidy.answer_scan (h : session.Tidy) (hstore : session.store = some store)
    (range : KeyRange) : session.answer (.scan range) = listing range store.snapshot := by
  obtain ⟨pool, _, heq⟩ := h.inTransaction_eq hstore _
  rw [answer, Session.step, heq]
  rfl

theorem Tidy.takeSnapshot (h : session.Tidy) (hstore : session.store = some store)
    (name : String) :
    (session.step (.takeSnapshot name)).2.Shows (.borrowed name) store.snapshot := by
  obtain ⟨pool, _, heq⟩ := h.inTransaction_eq hstore _
  refine ⟨session.number, ?_⟩
  rw [Session.step, heq]
  exact Function.update_self _ _ _

-- A scan at its start has all entries of its range before it.
theorem follows_start {access : Access} (h : session.Shows access store.snapshot)
    (hroom : store.snapshot.HasRoom) {range : KeyRange}
    (hscan : session.scans name = some (Cursor.start access store.snapshot.pageSize range)) :
    session.Follows name access store.snapshot (store.table.liveIn range) := by
  have hover : (Scan.start ⟨∅, store.snapshot.pageSize⟩ range).over store.snapshot =
      Scan.start store.snapshot range := rfl
  refine ⟨h, _, hscan, ?_, ?_⟩
  · rw [hover]
    exact Scan.sound_start range hroom
  · rw [hover, Scan.pending_start]
    rfl

theorem Tidy.startScan (h : session.Tidy) (hstore : session.store = some store)
    (hroom : store.snapshot.HasRoom) (name : String) (range : KeyRange) :
    (session.step (.startScan name range)).2.Follows name (.owned (session.fresh store))
      store.snapshot (store.table.liveIn range) := by
  obtain ⟨pool, _, heq⟩ := h.inTransaction_eq hstore _
  rw [Session.step, heq]
  exact follows_start ⟨session.number, rfl⟩ hroom (Function.update_self _ _ _)

theorem Shows.startScanOn {snapshot : String}
    (h : session.Shows (.borrowed snapshot) store.snapshot) (hroom : store.snapshot.HasRoom)
    (name : String) (range : KeyRange) :
    (session.step (.startScanOn snapshot name range)).2.Follows name (.borrowed snapshot)
      store.snapshot (store.table.liveIn range) := by
  obtain ⟨pool, hheld⟩ := h
  have hsnapshot : session.snapshots snapshot =
      some ⟨.pinned store.snapshot.table, pool, store.snapshot.pageSize⟩ := hheld
  rw [Session.step, hsnapshot]
  refine follows_start ⟨pool, ?_⟩ hroom (Function.update_self _ _ _)
  exact (congrFun snapshots_dropScan snapshot).trans hsnapshot

theorem Shows.turnIntoScan {snapshot : String}
    (h : session.Shows (.borrowed snapshot) store.snapshot) (hroom : store.snapshot.HasRoom)
    (name : String) (range : KeyRange) :
    ∃ transaction, (session.step (.turnIntoScan snapshot name range)).2.Follows name
      (.owned transaction) store.snapshot (store.table.liveIn range) := by
  obtain ⟨pool, hheld⟩ := h
  have hsnapshot : session.snapshots snapshot =
      some ⟨.pinned store.snapshot.table, pool, store.snapshot.pageSize⟩ := hheld
  rw [Session.step, hsnapshot]
  exact ⟨_, follows_start ⟨pool, rfl⟩ hroom (Function.update_self _ _ _)⟩

end Beginnings

theorem run_append (session : Session) (actions later : List Action) :
    session.run (actions ++ later) = (session.run actions).run later :=
  List.foldl_append

theorem listing_snapshot {store : Storage} (hroom : store.snapshot.HasRoom) (range : KeyRange) :
    listing range store.snapshot = .entries (store.table.liveIn range) true := by
  obtain ⟨after, hall⟩ := Scan.toEnd_start_eq range hroom
  have hstart : (Scan.start store.snapshot range).toEnd = (store.table.liveIn range, true, after) :=
    hall
  rw [listing, hstart]

theorem Tidy.isolated (h : session.Tidy) {store : Storage} (hstore : session.store = some store)
    (hroom : store.snapshot.HasRoom) : session.Isolated store.table.liveEntries := by
  have hnone : ∀ {transaction : Transaction} {action : Action} (snapshot : String),
      Access.owned transaction = .borrowed snapshot → ¬ action.Ends snapshot := nofun
  have htaken : ∀ name later, (∀ action ∈ later, ¬ action.Ends name) →
      (session.run (.takeSnapshot name :: later)).Shows (.borrowed name) store.snapshot := by
    intro name later hkept
    refine (h.takeSnapshot hstore name).run (h.step _) fun action haction snapshot hsame => ?_
    cases hsame
    exact hkept action haction
  refine ⟨?_, ?_, ?_, ?_, ?_, ?_, ?_, ?_⟩
  · intro key
    rw [h.answer_get hstore, Storage.value?, Table.value?_eq_get?]
  · refine ⟨store.stats.tombstones, ?_⟩
    rw [h.answer_stats hstore, ← Table.live_stats]
    rfl
  · intro range
    rw [h.answer_scan hstore, listing_snapshot hroom]
    rfl
  · intro name later hkept key
    rw [answer, Session.step, (htaken name later hkept).inspect]
    exact congrArg Answer.value (Table.value?_eq_get? _ key)
  · intro name later hkept range
    rw [answer, Session.step, (htaken name later hkept).inspect]
    exact listing_snapshot hroom range
  · intro name range later hreset count
    have hstart := h.startScan hstore hroom name range
    have hlater := hstart.run (h.step _) (fun _ _ snapshot => hnone snapshot) hreset
    exact (hlater.advance count).1
  · intro snapshot name range between later hbetween hkept count
    have htidy : (session.run (.takeSnapshot snapshot :: between)).Tidy := h.run _
    have hstart := (htaken snapshot between hbetween).startScanOn hroom name range
    have hlater := hstart.run (htidy.step _)
      (fun action haction other hsame => by
        cases hsame
        exact (hkept action haction).1)
      (fun action haction => (hkept action haction).2)
    rw [run_append]
    exact (hlater.advance count).1
  · intro snapshot name range between later hbetween hreset count
    have htidy : (session.run (.takeSnapshot snapshot :: between)).Tidy := h.run _
    obtain ⟨transaction, hstart⟩ :=
      (htaken snapshot between hbetween).turnIntoScan hroom name range
    have hlater := hstart.run (htidy.step _) (fun _ _ snapshot => hnone snapshot) hreset
    rw [run_append]
    exact (hlater.advance count).1

-- Whatever was done in a directory, and whatever is done in it later: readers keep
-- to their moment and leave no trace.
theorem isolated_run (directory : Directory) (before : List Action) :
    let moment := (start directory).run before
    moment.Undisturbed ∧ ∀ store, moment.store = some store → store.snapshot.HasRoom →
      moment.Isolated store.table.liveEntries := by
  have htidy := (tidy_start directory).run before
  exact ⟨htidy.undisturbed, fun store hstore hroom => htidy.isolated hstore hroom⟩

-- One key of three was deleted before, and pages hold two entries.
theorem isolated_run_of_deleted :
    let before : List Action := [.openStore "store" ⟨0, 2, 1⟩,
      .write [.put [1] [7], .put [2] [8], .put [3] []], .delete [2]]
    let moment := (start Directory.fresh).run before
    (∃ store, moment.store = some store ∧ store.snapshot.HasRoom ∧
      store.table.liveEntries = [([1], [7]), ([3], [])]) ∧
    moment.Undisturbed ∧ moment.Isolated [([1], [7]), ([3], [])] := by
  intro before moment
  have hstore : moment.store =
      some ⟨"store", ⟨Directory.currentFormat, Table.ofList [([1], .live [7]), ([2], .tombstone),
        ([3], .live [])], true⟩, ⟨0, 2, 1⟩⟩ := rfl
  have hroom : (Snapshot.ofTable (Table.ofList [([1], .live [7]), ([2], .tombstone),
      ([3], .live [])]) 2).HasRoom := .inl (by decide)
  obtain ⟨hundisturbed, hisolated⟩ := isolated_run Directory.fresh before
  exact ⟨⟨_, hstore, hroom, rfl⟩, hundisturbed, hisolated _ hstore hroom⟩

-- A snapshot, and a scan between its pages, older than a deletion.
example :
    (start Directory.fresh).answers [.openStore "store" ⟨0, 1, 1⟩, .put [1] [7], .put [2] [8],
      .takeSnapshot "view", .startScan "scan" KeyRange.all, .advance "scan" 1, .delete [2],
      .compact, .closeStore, .snapshotGet "view" [2], .advance "scan" 2] =
    [.done, .done, .done, .done, .done, .entries [([1], [7])] false, .done, .purged 1, .done,
      .value (some [8]), .entries [([2], [8])] true] := rfl

end Session

end Chronicle
