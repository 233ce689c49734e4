import Chronicle.Proofs.Storage.Session

-- Nothing that is read in a session is noticed by anybody else in it.

namespace Chronicle.Session

-- Actions that only read, through the store or through a snapshot.
def Action.Reads : Action → Prop
  | .get _ | .stats | .scan _ | .snapshotGet _ _ | .snapshotScan _ _ => True
  | _ => False

-- Actions that are about one scan.
def Action.Drives (name : String) : Action → Prop
  | .startScan other _ | .startScanOn _ other _ | .advance other _ | .dropScan other =>
      other = name
  | _ => False

-- Whether there was a read before is not to be seen in any answer, and whether a
-- scan was driven in none but those of that scan.
structure Undisturbed (session : Session) : Prop where
  read : ∀ action, action.Reads → ∀ later,
    (session.step action).2.answers later = session.answers later
  drive : ∀ name action, action.Drives name →
    ∀ later, (∀ count, Action.advance name count ∉ later) →
      (session.step action).2.answers later = session.answers later

-- Sessions that show the same but for the scans of some names.
structure Alike (hidden : String → Prop) (first second : Session) : Prop where
  directory : first.directory = second.directory
  store : first.store = second.store
  number : first.number = second.number
  snapshots : first.snapshots = second.snapshots
  scans : ∀ name, ¬ hidden name → first.scans name = second.scans name

def Matches (hidden : String → Prop) (first second : Answer × Session) : Prop :=
  first.1 = second.1 ∧ Alike hidden first.2 second.2

namespace Alike

variable {hidden : String → Prop} {first second : Session}

theorem refl (hidden : String → Prop) (session : Session) : Alike hidden session session :=
  ⟨rfl, rfl, rfl, rfl, fun _ _ => rfl⟩

theorem trans {third : Session} (h : Alike hidden first second) (h' : Alike hidden second third) :
    Alike hidden first third :=
  ⟨h.directory.trans h'.directory, h.store.trans h'.store, h.number.trans h'.number,
    h.snapshots.trans h'.snapshots,
    fun name hname => (h.scans name hname).trans (h'.scans name hname)⟩

theorem setPool_left (hidden : String → Prop) (session : Session) (number : Nat)
    (pool : ConnectionPool) : Alike hidden (session.setPool number pool) session :=
  ⟨rfl, rfl, rfl, rfl, fun _ _ => rfl⟩

theorem current (h : Alike hidden first second) : first.current = second.current := by
  rw [Session.current, Session.current, h.store, h.directory]

theorem setPool (h : Alike hidden first second) (number number' : Nat)
    (pool pool' : ConnectionPool) :
    Alike hidden (first.setPool number pool) (second.setPool number' pool') :=
  ⟨h.directory, h.store, h.number, h.snapshots, h.scans⟩

theorem setSnapshot (h : Alike hidden first second) (name : String)
    (transaction : Option Transaction) :
    Alike hidden (first.setSnapshot name transaction) (second.setSnapshot name transaction) := by
  refine ⟨h.directory, h.store, h.number, ?_, h.scans⟩
  rw [Session.setSnapshot, Session.setSnapshot, h.snapshots]

theorem setScan (h : Alike hidden first second) (name : String) (cursor : Option Cursor) :
    Alike hidden (first.setScan name cursor) (second.setScan name cursor) := by
  refine ⟨h.directory, h.store, h.number, h.snapshots, fun other hother => ?_⟩
  by_cases hsame : other = name
  · simp [Session.setScan, hsame]
  · simpa [Session.setScan, hsame] using h.scans other hother

theorem setScan_left (session : Session) (name : String) (cursor : Option Cursor) :
    Alike (· = name) (session.setScan name cursor) session :=
  ⟨rfl, rfl, rfl, rfl, fun _ hne => Function.update_of_ne hne _ _⟩

theorem endScansOn (h : Alike hidden first second) (snapshot : String) :
    Alike hidden (first.endScansOn snapshot) (second.endScansOn snapshot) := by
  refine ⟨h.directory, h.store, h.number, h.snapshots, fun name hname => ?_⟩
  simp only [Session.endScansOn, h.scans name hname]

theorem dropSnapshot (h : Alike hidden first second) (name : String) :
    Alike hidden (first.dropSnapshot name) (second.dropSnapshot name) := by
  unfold Session.dropSnapshot
  rw [h.snapshots]
  cases second.snapshots name with
  | none => exact h
  | some transaction =>
      exact ((h.endScansOn name).setSnapshot name none).setPool _ _ _ _

theorem dropScan (h : Alike hidden first second) (name : String) :
    Alike hidden (first.dropScan name) (second.dropScan name) := by
  obtain ⟨number, pool, hfirst⟩ := first.dropScan_eq name
  obtain ⟨number', pool', hsecond⟩ := second.dropScan_eq name
  rw [hfirst, hsecond]
  exact (h.setScan name none).setPool _ _ _ _

theorem openStore (h : Alike hidden first second) (path : String) (options : StorageOptions) :
    Matches hidden (first.openStore path options) (second.openStore path options) := by
  rw [Session.openStore_eq, Session.openStore_eq, h.current, h.number]
  cases Storage.openIn second.current path options with
  | error error => exact ⟨rfl, h⟩
  | ok store => exact ⟨rfl, h.directory, rfl, rfl, h.snapshots, h.scans⟩

theorem closeStore (h : Alike hidden first second) :
    Alike hidden first.closeStore second.closeStore := by
  unfold Session.closeStore
  rw [h.store]
  cases second.store with
  | none => exact h
  | some store => exact ⟨rfl, rfl, h.number, h.snapshots, h.scans⟩

theorem change (h : Alike hidden first second) (f : Storage → Answer × Storage) :
    Matches hidden (first.change f) (second.change f) := by
  unfold Session.change
  rw [h.store]
  cases second.store with
  | none => exact ⟨rfl, h⟩
  | some store => exact ⟨rfl, h.directory, rfl, h.number, h.snapshots, h.scans⟩

theorem consult (h : Alike hidden first second) (hfirst : first.Tidy) (hsecond : second.Tidy)
    (f : Table → Answer) : Matches hidden (first.consult f) (second.consult f) := by
  cases hstore : second.store with
  | none =>
      rw [consult_of_closed (h.store.trans hstore), consult_of_closed hstore]
      exact ⟨rfl, h⟩
  | some store =>
      obtain ⟨pool, _, heq⟩ := hfirst.consult_eq (h.store.trans hstore) f
      obtain ⟨pool', _, heq'⟩ := hsecond.consult_eq hstore f
      rw [heq, heq']
      exact ⟨rfl, h.setPool _ _ _ _⟩

theorem inTransaction (h : Alike hidden first second) (hfirst : first.Tidy)
    (hsecond : second.Tidy) {f : Transaction → Session → Answer × Session}
    (hf : ∀ transaction {first second}, Alike hidden first second →
      Matches hidden (f transaction first) (f transaction second)) :
    Matches hidden (first.inTransaction f) (second.inTransaction f) := by
  cases hstore : second.store with
  | none =>
      rw [inTransaction_of_closed (h.store.trans hstore), inTransaction_of_closed hstore]
      exact ⟨rfl, h⟩
  | some store =>
      obtain ⟨pool, _, heq⟩ := hfirst.inTransaction_eq (h.store.trans hstore) f
      obtain ⟨pool', _, heq'⟩ := hsecond.inTransaction_eq hstore f
      have hfresh : first.fresh store = second.fresh store := by rw [fresh, fresh, h.number]
      rw [heq, heq', hfresh]
      exact hf _ (h.setPool _ _ _ _)

theorem inspect (h : Alike hidden first second) (name : String) (f : Snapshot → Answer) :
    Matches hidden (first.inspect name f) (second.inspect name f) := by
  unfold Session.inspect
  rw [h.snapshots, h.current]
  cases second.snapshots name with
  | none => exact ⟨rfl, h⟩
  | some transaction => exact ⟨rfl, h.setSnapshot name _⟩

theorem putBack (h : Alike hidden first second) (transaction : Transaction) (access : Access) :
    (first.putBack transaction access).1 = (second.putBack transaction access).1 ∧
      Alike hidden (first.putBack transaction access).2 (second.putBack transaction access).2 := by
  cases access with
  | owned held => exact ⟨rfl, h⟩
  | borrowed snapshot => exact ⟨rfl, h.setSnapshot snapshot _⟩

theorem transaction? (h : Alike hidden first second) (access : Access) :
    first.transaction? access = second.transaction? access := by
  cases access with
  | owned held => rfl
  | borrowed snapshot => exact congrFun h.snapshots snapshot

theorem advance (h : Alike hidden first second) {name : String} (hname : ¬ hidden name)
    (count : Nat) : Matches hidden (first.advance name count) (second.advance name count) := by
  unfold Session.advance
  rw [h.scans name hname]
  cases second.scans name with
  | none => exact ⟨rfl, h⟩
  | some cursor =>
      dsimp only
      rw [h.transaction?, h.current]
      cases second.transaction? cursor.access with
      | none => exact ⟨rfl, h⟩
      | some transaction =>
          have hback := h.putBack (transaction.look second.current.table).2 cursor.access
          dsimp only
          rw [hback.1]
          exact ⟨rfl, hback.2.setScan name _⟩

-- The same action answers the same in both and leaves both alike.
theorem step (h : Alike hidden first second) (hfirst : first.Tidy) (hsecond : second.Tidy)
    {action : Action} (hseen : ∀ name count, action = .advance name count → ¬ hidden name) :
    Matches hidden (first.step action) (second.step action) := by
  cases action with
  | openStore path options => exact h.openStore path options
  | closeStore => exact ⟨rfl, h.closeStore⟩
  | put key value => exact h.change _
  | delete key => exact h.change _
  | write batch => exact h.change _
  | compact => exact h.change _
  | get key => exact h.consult hfirst hsecond _
  | stats => exact h.consult hfirst hsecond _
  | scan range =>
      refine h.inTransaction hfirst hsecond fun transaction first second hboth => ?_
      dsimp only
      rw [hboth.current]
      exact ⟨rfl, hboth.setPool _ _ _ _⟩
  | takeSnapshot name =>
      refine h.inTransaction hfirst hsecond fun transaction first second hboth => ?_
      exact ⟨rfl, (hboth.dropSnapshot name).setSnapshot name _⟩
  | dropSnapshot name => exact ⟨rfl, h.dropSnapshot name⟩
  | snapshotGet name key => exact h.inspect name _
  | snapshotScan name range => exact h.inspect name _
  | startScan name range =>
      refine h.inTransaction hfirst hsecond fun transaction first second hboth => ?_
      exact ⟨rfl, (hboth.dropScan name).setScan name _⟩
  | startScanOn snapshot name range =>
      rw [Session.step, Session.step, h.snapshots]
      cases second.snapshots snapshot with
      | none => exact ⟨rfl, h⟩
      | some transaction => exact ⟨rfl, (h.dropScan name).setScan name _⟩
  | turnIntoScan snapshot name range =>
      rw [Session.step, Session.step, h.snapshots]
      cases second.snapshots snapshot with
      | none => exact ⟨rfl, h⟩
      | some transaction =>
          have hleft := (h.endScansOn snapshot).setSnapshot snapshot none
          exact ⟨rfl, (hleft.dropScan name).setScan name _⟩
  | advance name count => exact h.advance (hseen name count rfl) count
  | dropScan name => exact ⟨rfl, h.dropScan name⟩

theorem answers (h : Alike hidden first second) (hfirst : first.Tidy) (hsecond : second.Tidy)
    {later : List Action}
    (hseen : ∀ name count, Action.advance name count ∈ later → ¬ hidden name) :
    first.answers later = second.answers later := by
  induction later generalizing first second with
  | nil => rfl
  | cons action later ih =>
      have hboth := h.step hfirst hsecond fun name count heq =>
        hseen name count (heq ▸ List.mem_cons_self)
      have hlater := ih hboth.2 (hfirst.step action) (hsecond.step action) fun name count hmem =>
        hseen name count (List.mem_cons_of_mem _ hmem)
      rw [Session.answers, Session.answers, hlater]
      exact congrArg (· :: _) hboth.1

end Alike

variable {session : Session}

theorem Tidy.alike_read (h : session.Tidy) {action : Action} (hread : action.Reads)
    (hidden : String → Prop) : Alike hidden (session.step action).2 session := by
  have hconsult : ∀ f, Alike hidden (session.consult f).2 session := by
    intro f
    cases hstore : session.store with
    | none =>
        rw [consult_of_closed hstore]
        exact .refl hidden session
    | some store =>
        obtain ⟨pool, _, heq⟩ := h.consult_eq hstore f
        rw [heq]
        exact .setPool_left hidden session _ _
  have hinspect : ∀ name f, Alike hidden (session.inspect name f).2 session := by
    intro name f
    rw [h.snd_inspect]
    exact .refl hidden session
  cases action with
  | get key => exact hconsult _
  | stats => exact hconsult _
  | scan range =>
      rw [Session.step]
      cases hstore : session.store with
      | none =>
          rw [inTransaction_of_closed hstore]
          exact .refl hidden session
      | some store =>
          obtain ⟨pool, _, heq⟩ := h.inTransaction_eq hstore _
          rw [heq]
          exact (Alike.setPool_left hidden _ _ _).trans (.setPool_left hidden session _ _)
  | snapshotGet name key => exact hinspect name _
  | snapshotScan name range => exact hinspect name _
  | _ => exact hread.elim

theorem alike_replaceScan (session : Session) (name : String) (cursor : Option Cursor) :
    Alike (· = name) ((session.dropScan name).setScan name cursor) session := by
  obtain ⟨number, pool, heq⟩ := session.dropScan_eq name
  rw [heq]
  have hdropped : Alike (· = name) ((session.setScan name none).setPool number pool) session :=
    (Alike.setPool_left _ _ number pool).trans (.setScan_left session name none)
  exact (Alike.setScan_left _ name cursor).trans hdropped

theorem Tidy.alike_drive (h : session.Tidy) {name : String} {action : Action}
    (hdrives : action.Drives name) : Alike (· = name) (session.step action).2 session := by
  cases action with
  | startScan other range =>
      cases hdrives
      rw [Session.step]
      cases hstore : session.store with
      | none =>
          rw [inTransaction_of_closed hstore]
          exact .refl _ session
      | some store =>
          obtain ⟨pool, _, heq⟩ := h.inTransaction_eq hstore _
          rw [heq]
          exact (alike_replaceScan _ name _).trans (.setPool_left _ session _ _)
  | startScanOn snapshot other range =>
      cases hdrives
      rw [Session.step]
      cases session.snapshots snapshot with
      | none => exact .refl _ session
      | some transaction => exact alike_replaceScan session name _
  | advance other count =>
      cases hdrives
      rw [Session.step]
      rcases h.advance_cases name count with heq | ⟨cursor, scan, _, heq⟩
      · rw [heq]
        exact .refl _ session
      · rw [heq]
        exact .setScan_left session name _
  | dropScan other =>
      cases hdrives
      obtain ⟨number, pool, heq⟩ := session.dropScan_eq name
      rw [Session.step, heq]
      exact (Alike.setPool_left _ _ number pool).trans (.setScan_left session name none)
  | _ => exact hdrives.elim

theorem Tidy.undisturbed (h : session.Tidy) : session.Undisturbed := by
  refine ⟨?_, ?_⟩
  · intro action hread later
    have halike := h.alike_read hread fun _ => False
    exact halike.answers (h.step action) h fun _ _ _ => id
  · intro name action hdrives later hnone
    have halike := h.alike_drive hdrives
    refine halike.answers (h.step action) h fun other count hmem hsame => ?_
    subst hsame
    exact hnone count hmem

end Chronicle.Session
