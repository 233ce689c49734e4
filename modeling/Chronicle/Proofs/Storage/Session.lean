import Chronicle.Proofs.Storage
import Mathlib.Logic.Function.Basic

-- A directory in use: stores that are opened and closed in it, and snapshots and
-- scans, each of which reads through a transaction of its own. Of transactions it
-- is only assumed that they keep to what they find when they first read.

namespace Chronicle

-- A connection that reads. Outside of transactions it finds what is committed.
inductive Connection where
  | free
  | begun
  | pinned (view : Table)

namespace Connection

-- There is no transaction within a transaction.
def begin? : Connection → Option Connection
  | free => some begun
  | begun | pinned _ => none

def read (committed : Table) : Connection → Table × Connection
  | free => (committed, free)
  | begun => (committed, pinned committed)
  | pinned view => (view, pinned view)

def rollback (_ : Connection) : Connection := free

end Connection

-- Connections of a store that wait for the next reader.
structure ConnectionPool where
  maxIdle : Nat
  idle : List Connection

namespace ConnectionPool

def acquire (pool : ConnectionPool) : Connection × ConnectionPool :=
  match pool.idle with
  | [] => (.free, pool)
  | connection :: rest => (connection, { pool with idle := rest })

def release (pool : ConnectionPool) (connection : Connection) : ConnectionPool :=
  if pool.idle.length < pool.maxIdle then { pool with idle := connection :: pool.idle } else pool

end ConnectionPool

-- A snapshot as it is held: a connection in a transaction, the number of the pool
-- that the connection goes back to, and the size of the pages.
structure Transaction where
  connection : Connection
  pool : Nat
  pageSize : Nat

-- What is seen through a transaction now.
def Transaction.look (transaction : Transaction) (committed : Table) : Snapshot × Transaction :=
  let (table, connection) := transaction.connection.read committed
  (⟨table, transaction.pageSize⟩, { transaction with connection := connection })

-- A scan has a snapshot of its own or goes through one that has a name.
inductive Access where
  | owned (transaction : Transaction)
  | borrowed (snapshot : String)

-- A scan that was started. Of the snapshot in `scan` only the size of the pages
-- counts: the table is read through the access each time.
structure Cursor where
  access : Access
  scan : Scan

namespace Cursor

def start (access : Access) (pageSize : Nat) (range : KeyRange) : Cursor :=
  ⟨access, Scan.start ⟨∅, pageSize⟩ range⟩

def borrows (snapshot : String) (cursor : Cursor) : Bool :=
  match cursor.access with
  | .owned _ => false
  | .borrowed other => other = snapshot

end Cursor

def Scan.over (scan : Scan) (snapshot : Snapshot) : Scan := { scan with snapshot := snapshot }

structure Session where
  -- The directory while no store is open in it.
  directory : Directory
  store : Option Storage
  -- How many stores were opened, which is the number of the pool of the last.
  number : Nat
  pools : Nat → ConnectionPool
  snapshots : String → Option Transaction
  scans : String → Option Cursor

namespace Session

inductive Action where
  | openStore (path : String) (options : StorageOptions)
  | closeStore
  | put (key value : Bytes)
  | delete (key : Bytes)
  | write (batch : Batch)
  | compact
  | get (key : Bytes)
  | stats
  -- A whole scan of the store.
  | scan (range : KeyRange)
  | takeSnapshot (name : String)
  | dropSnapshot (name : String)
  | snapshotGet (name : String) (key : Bytes)
  -- A whole scan of a snapshot.
  | snapshotScan (name : String) (range : KeyRange)
  | startScan (name : String) (range : KeyRange)
  | startScanOn (snapshot name : String) (range : KeyRange)
  -- The scan takes over the snapshot.
  | turnIntoScan (snapshot name : String) (range : KeyRange)
  | advance (name : String) (count : Nat)
  | dropScan (name : String)

inductive Answer where
  | done
  -- There is no store open, or nothing of that name.
  | missing
  | refused (error : StorageError)
  -- A transaction was begun within another.
  | nested
  | value (value : Option Bytes)
  | stats (stats : TableStats)
  | purged (count : Nat)
  -- With whether the end was met.
  | entries (entries : List (Bytes × Bytes)) (atEnd : Bool)

def start (directory : Directory) : Session :=
  ⟨directory, none, 0, fun _ => ⟨0, []⟩, fun _ => none, fun _ => none⟩

def current (session : Session) : Directory :=
  match session.store with
  | some store => store.directory
  | none => session.directory

def setPool (session : Session) (number : Nat) (pool : ConnectionPool) : Session :=
  { session with pools := Function.update session.pools number pool }

def setSnapshot (session : Session) (name : String) (transaction : Option Transaction) :
    Session :=
  { session with snapshots := Function.update session.snapshots name transaction }

def setScan (session : Session) (name : String) (cursor : Option Cursor) : Session :=
  { session with scans := Function.update session.scans name cursor }

-- The session with the directory as an opening left it.
def leave (session : Session) (directory : Directory) : Session :=
  match session.store with
  | some store => { session with store := some { store with directory := directory } }
  | none => { session with directory := directory }

def openStore (session : Session) (path : String) (options : StorageOptions) : Answer × Session :=
  match Storage.attempt session.current path options with
  | (.error error, left) => (.refused error, session.leave left)
  | (.ok store, _) =>
      let number := session.number + 1
      let session := { session with store := some store, number := number }
      (.done, session.setPool number ⟨options.maxIdleReaders, []⟩)

def closeStore (session : Session) : Session :=
  match session.store with
  | some store => { session with directory := store.close, store := none }
  | none => session

def change (session : Session) (f : Storage → Answer × Storage) : Answer × Session :=
  match session.store with
  | none => (.missing, session)
  | some store =>
      let (answer, store) := f store
      (answer, { session with store := some store })

-- A single read on a connection of the open store.
def consult (session : Session) (f : Table → Answer) : Answer × Session :=
  match session.store with
  | none => (.missing, session)
  | some store =>
      let (connection, pool) := (session.pools session.number).acquire
      let (table, connection) := connection.read store.table
      (f table, session.setPool session.number (pool.release connection))

-- Begins a transaction on a connection of the open store. The read that follows
-- fixes the view.
def inTransaction (session : Session) (f : Transaction → Session → Answer × Session) :
    Answer × Session :=
  match session.store with
  | none => (.missing, session)
  | some store =>
      let (connection, pool) := (session.pools session.number).acquire
      match connection.begin? with
      | none => (.nested, session.setPool session.number (pool.release connection))
      | some connection =>
          let (_, connection) := connection.read store.table
          f ⟨connection, session.number, max store.options.pageSize 1⟩
            (session.setPool session.number pool)

def finish (session : Session) (transaction : Transaction) : Session :=
  session.setPool transaction.pool
    ((session.pools transaction.pool).release transaction.connection.rollback)

-- The scans that go through a snapshot end before it does.
def endScansOn (session : Session) (snapshot : String) : Session :=
  { session with scans := fun name =>
      (session.scans name).filter fun cursor => !cursor.borrows snapshot }

def dropSnapshot (session : Session) (name : String) : Session :=
  match session.snapshots name with
  | none => session
  | some transaction => ((session.endScansOn name).setSnapshot name none).finish transaction

def dropScan (session : Session) (name : String) : Session :=
  match session.scans name with
  | none => session
  | some ⟨.owned transaction, _⟩ => (session.setScan name none).finish transaction
  | some ⟨.borrowed _, _⟩ => session.setScan name none

-- Reads through a snapshot that has a name.
def inspect (session : Session) (name : String) (f : Snapshot → Answer) : Answer × Session :=
  match session.snapshots name with
  | none => (.missing, session)
  | some transaction =>
      let (snapshot, transaction) := transaction.look session.current.table
      (f snapshot, session.setSnapshot name (some transaction))

def transaction? (session : Session) : Access → Option Transaction
  | .owned transaction => some transaction
  | .borrowed snapshot => session.snapshots snapshot

-- Puts a transaction back where it was found.
def putBack (session : Session) (transaction : Transaction) : Access → Access × Session
  | .owned _ => (.owned transaction, session)
  | .borrowed snapshot => (.borrowed snapshot, session.setSnapshot snapshot (some transaction))

def advance (session : Session) (name : String) (count : Nat) : Answer × Session :=
  match session.scans name with
  | none => (.missing, session)
  | some cursor =>
      match session.transaction? cursor.access with
      | none => (.missing, session)
      | some transaction =>
          let (snapshot, transaction) := transaction.look session.current.table
          let (entries, atEnd, scan) := (cursor.scan.over snapshot).take count
          let (access, session) := session.putBack transaction cursor.access
          (.entries entries atEnd, session.setScan name (some ⟨access, scan⟩))

def listing (range : KeyRange) (snapshot : Snapshot) : Answer :=
  let (entries, atEnd, _) := (Scan.start snapshot range).toEnd
  .entries entries atEnd

def step (session : Session) : Action → Answer × Session
  | .openStore path options => session.openStore path options
  | .closeStore => (.done, session.closeStore)
  | .put key value => session.change fun store => (.done, store.put key value)
  | .delete key => session.change fun store => (.done, store.delete key)
  | .write batch => session.change fun store => (.done, store.write batch)
  | .compact =>
      session.change fun store =>
        let (count, store) := store.compact
        (.purged count, store)
  | .get key => session.consult fun table => .value (table.value? key)
  | .stats => session.consult fun table => .stats table.stats
  | .scan range =>
      session.inTransaction fun transaction session =>
        let (snapshot, transaction) := transaction.look session.current.table
        (listing range snapshot, session.finish transaction)
  | .takeSnapshot name =>
      session.inTransaction fun transaction session =>
        (.done, (session.dropSnapshot name).setSnapshot name (some transaction))
  | .dropSnapshot name => (.done, session.dropSnapshot name)
  | .snapshotGet name key => session.inspect name fun snapshot => .value (snapshot.value? key)
  | .snapshotScan name range => session.inspect name (listing range)
  | .startScan name range =>
      session.inTransaction fun transaction session =>
        let cursor := Cursor.start (.owned transaction) transaction.pageSize range
        (.done, (session.dropScan name).setScan name (some cursor))
  | .startScanOn snapshot name range =>
      match session.snapshots snapshot with
      | none => (.missing, session)
      | some transaction =>
          let cursor := Cursor.start (.borrowed snapshot) transaction.pageSize range
          (.done, (session.dropScan name).setScan name (some cursor))
  | .turnIntoScan snapshot name range =>
      match session.snapshots snapshot with
      | none => (.missing, session)
      | some transaction =>
          let cursor := Cursor.start (.owned transaction) transaction.pageSize range
          let session := (session.endScansOn snapshot).setSnapshot snapshot none
          (.done, (session.dropScan name).setScan name (some cursor))
  | .advance name count => session.advance name count
  | .dropScan name => (.done, session.dropScan name)

def answer (session : Session) (action : Action) : Answer := (session.step action).1

def run (session : Session) (actions : List Action) : Session :=
  actions.foldl (fun session action => (session.step action).2) session

def answers (session : Session) : List Action → List Answer
  | [] => []
  | action :: actions => session.answer action :: answers (session.step action).2 actions

end Session

-- What is between the reads of a session: connections that nobody uses are in no
-- transaction, and every transaction that is held has its view.
def ConnectionPool.Clean (pool : ConnectionPool) : Prop :=
  ∀ connection ∈ pool.idle, connection = .free

def Transaction.Pinned (transaction : Transaction) : Prop :=
  ∃ view, transaction.connection = .pinned view

structure Session.Tidy (session : Session) : Prop where
  clean : ∀ number, (session.pools number).Clean
  snapshots : ∀ name transaction, session.snapshots name = some transaction → transaction.Pinned
  scans : ∀ name transaction scan, session.scans name = some ⟨.owned transaction, scan⟩ →
    transaction.Pinned

namespace ConnectionPool

variable {pool : ConnectionPool}

theorem Clean.acquire (h : pool.Clean) : ∃ rest : ConnectionPool,
    pool.acquire = (.free, rest) ∧ rest.Clean := by
  unfold ConnectionPool.acquire
  cases hidle : pool.idle with
  | nil => exact ⟨pool, rfl, h⟩
  | cons connection rest =>
      have hall : ∀ other ∈ connection :: rest, other = .free := hidle ▸ h
      rw [hall connection List.mem_cons_self]
      exact ⟨_, rfl, fun other hother => hall other (List.mem_cons_of_mem _ hother)⟩

theorem Clean.release (h : pool.Clean) : (pool.release .free).Clean := by
  unfold ConnectionPool.release
  split
  · exact List.forall_mem_cons.mpr ⟨rfl, h⟩
  · exact h

end ConnectionPool

theorem Cursor.borrows_iff {snapshot : String} {cursor : Cursor} :
    cursor.borrows snapshot = true ↔ cursor.access = .borrowed snapshot := by
  unfold Cursor.borrows
  cases cursor.access with
  | owned transaction => simp
  | borrowed other => simp

namespace Session

variable {session : Session}

section Effects

theorem leave_current (session : Session) : session.leave session.current = session := by
  obtain ⟨directory, store⟩ := session
  cases store <;> rfl

-- An opening that is refused leaves the session as it was.
theorem openStore_eq (session : Session) (path : String) (options : StorageOptions) :
    session.openStore path options =
      match Storage.openIn session.current path options with
      | .error error => (.refused error, session)
      | .ok store =>
          (.done, { session with store := some store, number := session.number + 1 }.setPool
            (session.number + 1) ⟨options.maxIdleReaders, []⟩) := by
  rw [openStore, Storage.attempt_eq]
  cases Storage.openIn session.current path options with
  | error error =>
      dsimp only
      rw [leave_current]
  | ok store => rfl

-- The transaction that a store begins, with its view.
def fresh (session : Session) (store : Storage) : Transaction :=
  ⟨.pinned store.table, session.number, max store.options.pageSize 1⟩

theorem consult_of_closed (h : session.store = none) (f : Table → Answer) :
    session.consult f = (.missing, session) := by
  rw [consult, h]

theorem Tidy.consult_eq (h : session.Tidy) {store : Storage} (hstore : session.store = some store)
    (f : Table → Answer) : ∃ pool : ConnectionPool, pool.Clean ∧
      session.consult f = (f store.table, session.setPool session.number pool) := by
  obtain ⟨rest, hacquire, hrest⟩ := (h.clean session.number).acquire
  refine ⟨rest.release .free, hrest.release, ?_⟩
  simp only [consult, hstore, hacquire, Connection.read]

theorem inTransaction_of_closed (h : session.store = none)
    (f : Transaction → Session → Answer × Session) :
    session.inTransaction f = (.missing, session) := by
  rw [inTransaction, h]

theorem Tidy.inTransaction_eq (h : session.Tidy) {store : Storage}
    (hstore : session.store = some store) (f : Transaction → Session → Answer × Session) :
    ∃ pool : ConnectionPool, pool.Clean ∧
      session.inTransaction f = f (session.fresh store) (session.setPool session.number pool) := by
  obtain ⟨rest, hacquire, hrest⟩ := (h.clean session.number).acquire
  refine ⟨rest, hrest, ?_⟩
  simp only [inTransaction, hstore, hacquire, Connection.begin?, Connection.read, fresh]

theorem setSnapshot_of_eq {name : String} {transaction : Option Transaction}
    (h : session.snapshots name = transaction) :
    session.setSnapshot name transaction = session := by
  rw [setSnapshot, ← h, Function.update_eq_self]

-- The connection of a scan goes back to its pool, if it is the scan's own.
theorem dropScan_eq (session : Session) (name : String) : ∃ number pool,
    session.dropScan name = (session.setScan name none).setPool number pool := by
  unfold dropScan
  cases hscan : session.scans name with
  | none =>
      refine ⟨0, session.pools 0, ?_⟩
      have hsame := Function.update_eq_self name session.scans
      rw [hscan] at hsame
      simp only [setScan, setPool, hsame, Function.update_eq_self]
  | some cursor =>
      obtain ⟨access, scan⟩ := cursor
      cases access with
      | owned transaction => exact ⟨_, _, rfl⟩
      | borrowed snapshot =>
          refine ⟨0, session.pools 0, ?_⟩
          simp only [setScan, setPool, Function.update_eq_self]

theorem inspect_of_none {name : String} (h : session.snapshots name = none)
    (f : Snapshot → Answer) : session.inspect name f = (.missing, session) := by
  rw [inspect, h]

theorem inspect_of_pinned {name : String} {view : Table} {pool pageSize : Nat}
    (h : session.snapshots name = some ⟨.pinned view, pool, pageSize⟩) (f : Snapshot → Answer) :
    session.inspect name f = (f ⟨view, pageSize⟩, session) := by
  simp only [inspect, h, Transaction.look, Connection.read, setSnapshot_of_eq h]

theorem advance_of_none {name : String} (h : session.scans name = none) (count : Nat) :
    session.advance name count = (.missing, session) := by
  rw [advance, h]

theorem advance_of_ended {name : String} {cursor : Cursor}
    (h : session.scans name = some cursor) (hended : session.transaction? cursor.access = none)
    (count : Nat) : session.advance name count = (.missing, session) := by
  simp only [advance, h, hended]

theorem advance_of_pinned {name : String} {cursor : Cursor} {view : Table} {pool pageSize : Nat}
    (h : session.scans name = some cursor)
    (hpinned : session.transaction? cursor.access = some ⟨.pinned view, pool, pageSize⟩)
    (count : Nat) :
    let taken := (cursor.scan.over ⟨view, pageSize⟩).take count
    session.advance name count =
      (.entries taken.1 taken.2.1, session.setScan name (some ⟨cursor.access, taken.2.2⟩)) := by
  obtain ⟨access, scan⟩ := cursor
  cases access with
  | owned transaction =>
      cases hpinned
      simp only [advance, h, transaction?, Transaction.look, Connection.read, putBack]
  | borrowed snapshot =>
      have hkept : session.setSnapshot snapshot (some ⟨.pinned view, pool, pageSize⟩) = session :=
        setSnapshot_of_eq hpinned
      simp only [advance, h, hpinned, Transaction.look, Connection.read, putBack, hkept]

end Effects

section Tidy

theorem Tidy.setPool (h : session.Tidy) (number : Nat) {pool : ConnectionPool}
    (hpool : pool.Clean) : (session.setPool number pool).Tidy := by
  refine ⟨fun other => ?_, h.snapshots, h.scans⟩
  by_cases hsame : other = number
  · subst hsame
    simpa [Session.setPool] using hpool
  · simpa [Session.setPool, hsame] using h.clean other

theorem Tidy.setSnapshot (h : session.Tidy) (name : String) {transaction : Option Transaction}
    (hpinned : ∀ held, transaction = some held → held.Pinned) :
    (session.setSnapshot name transaction).Tidy := by
  refine ⟨h.clean, fun other held hheld => ?_, h.scans⟩
  by_cases hsame : other = name
  · subst hsame
    exact hpinned held (by simpa [Session.setSnapshot] using hheld)
  · exact h.snapshots other held (by simpa [Session.setSnapshot, hsame] using hheld)

theorem Tidy.setScan (h : session.Tidy) (name : String) {cursor : Option Cursor}
    (hpinned : ∀ held scan, cursor = some ⟨.owned held, scan⟩ → held.Pinned) :
    (session.setScan name cursor).Tidy := by
  refine ⟨h.clean, h.snapshots, fun other held scan hheld => ?_⟩
  by_cases hsame : other = name
  · subst hsame
    exact hpinned held scan (by simpa [Session.setScan] using hheld)
  · exact h.scans other held scan (by simpa [Session.setScan, hsame] using hheld)

theorem Tidy.finish (h : session.Tidy) (transaction : Transaction) :
    (session.finish transaction).Tidy :=
  h.setPool _ (h.clean _).release

theorem Tidy.endScansOn (h : session.Tidy) (snapshot : String) :
    (session.endScansOn snapshot).Tidy := by
  refine ⟨h.clean, h.snapshots, fun name held scan hheld => ?_⟩
  exact h.scans name held scan (Option.filter_eq_some_iff.mp hheld).1

theorem Tidy.dropSnapshot (h : session.Tidy) (name : String) :
    (session.dropSnapshot name).Tidy := by
  unfold Session.dropSnapshot
  split
  · exact h
  · exact ((h.endScansOn name).setSnapshot name (by rintro _ ⟨⟩)).finish _

theorem Tidy.dropScan (h : session.Tidy) (name : String) : (session.dropScan name).Tidy := by
  unfold Session.dropScan
  split
  · exact h
  · exact (h.setScan name (by rintro _ _ ⟨⟩)).finish _
  · exact h.setScan name (by rintro _ _ ⟨⟩)

theorem Tidy.change (h : session.Tidy) (f : Storage → Answer × Storage) :
    (session.change f).2.Tidy := by
  unfold Session.change
  split
  · exact h
  · exact ⟨h.clean, h.snapshots, h.scans⟩

theorem Tidy.openStore (h : session.Tidy) (path : String) (options : StorageOptions) :
    (session.openStore path options).2.Tidy := by
  rw [openStore_eq]
  cases Storage.openIn session.current path options with
  | error error => exact h
  | ok store =>
      have hopen : Tidy { session with store := some store, number := session.number + 1 } :=
        ⟨h.clean, h.snapshots, h.scans⟩
      exact hopen.setPool _ (by rintro _ ⟨⟩)

theorem Tidy.closeStore (h : session.Tidy) : session.closeStore.Tidy := by
  unfold Session.closeStore
  split
  · exact ⟨h.clean, h.snapshots, h.scans⟩
  · exact h

theorem Tidy.consult (h : session.Tidy) (f : Table → Answer) : (session.consult f).2.Tidy := by
  cases hstore : session.store with
  | none =>
      rw [consult_of_closed hstore]
      exact h
  | some store =>
      obtain ⟨pool, hpool, heq⟩ := h.consult_eq hstore f
      rw [heq]
      exact h.setPool _ hpool

theorem Tidy.inTransaction (h : session.Tidy) {f : Transaction → Session → Answer × Session}
    (hf : ∀ transaction session, transaction.Pinned → session.Tidy →
      (f transaction session).2.Tidy) : (session.inTransaction f).2.Tidy := by
  cases hstore : session.store with
  | none =>
      rw [inTransaction_of_closed hstore]
      exact h
  | some store =>
      obtain ⟨pool, hpool, heq⟩ := h.inTransaction_eq hstore f
      rw [heq]
      exact hf _ _ ⟨store.table, rfl⟩ (h.setPool _ hpool)

theorem Tidy.snd_inspect (h : session.Tidy) (name : String) (f : Snapshot → Answer) :
    (session.inspect name f).2 = session := by
  cases hheld : session.snapshots name with
  | none => rw [inspect_of_none hheld]
  | some transaction =>
      obtain ⟨connection, pool, pageSize⟩ := transaction
      obtain ⟨view, hview⟩ := h.snapshots name _ hheld
      cases hview
      rw [inspect_of_pinned hheld]

theorem Tidy.pinned_of_transaction? (h : session.Tidy) {name : String} {cursor : Cursor}
    (hscan : session.scans name = some cursor) {transaction : Transaction}
    (hheld : session.transaction? cursor.access = some transaction) : transaction.Pinned := by
  obtain ⟨access, scan⟩ := cursor
  cases access with
  | owned held =>
      cases hheld
      exact h.scans name _ scan hscan
  | borrowed snapshot => exact h.snapshots snapshot _ hheld

-- Going on with a scan changes that scan and nothing else.
theorem Tidy.advance_cases (h : session.Tidy) (name : String) (count : Nat) :
    session.advance name count = (.missing, session) ∨
      ∃ cursor scan, session.scans name = some cursor ∧
        (session.advance name count).2 = session.setScan name (some ⟨cursor.access, scan⟩) := by
  cases hscan : session.scans name with
  | none => exact .inl (advance_of_none hscan count)
  | some cursor =>
      cases hheld : session.transaction? cursor.access with
      | none => exact .inl (advance_of_ended hscan hheld count)
      | some transaction =>
          obtain ⟨connection, pool, pageSize⟩ := transaction
          obtain ⟨view, hview⟩ := h.pinned_of_transaction? hscan hheld
          cases hview
          rw [advance_of_pinned hscan hheld]
          exact .inr ⟨cursor, _, rfl, rfl⟩

theorem Tidy.advance (h : session.Tidy) (name : String) (count : Nat) :
    (session.advance name count).2.Tidy := by
  rcases h.advance_cases name count with heq | ⟨cursor, scan, hscan, heq⟩
  · rw [heq]
    exact h
  · rw [heq]
    refine h.setScan name fun held other hheld => ?_
    obtain ⟨access, old⟩ := cursor
    cases hheld
    exact h.scans name held old hscan

theorem Tidy.step (h : session.Tidy) (action : Action) : (session.step action).2.Tidy := by
  cases action with
  | openStore path options => exact h.openStore path options
  | closeStore => exact h.closeStore
  | put key value => exact h.change _
  | delete key => exact h.change _
  | write batch => exact h.change _
  | compact => exact h.change _
  | get key => exact h.consult _
  | stats => exact h.consult _
  | scan range => exact h.inTransaction fun transaction session _ htidy => htidy.finish _
  | takeSnapshot name =>
      refine h.inTransaction fun transaction session hpinned htidy => ?_
      refine (htidy.dropSnapshot name).setSnapshot name fun held hheld => ?_
      cases hheld
      exact hpinned
  | dropSnapshot name => exact h.dropSnapshot name
  | snapshotGet name key =>
      rw [Session.step, h.snd_inspect]
      exact h
  | snapshotScan name range =>
      rw [Session.step, h.snd_inspect]
      exact h
  | startScan name range =>
      refine h.inTransaction fun transaction session hpinned htidy => ?_
      refine (htidy.dropScan name).setScan name fun held scan hheld => ?_
      cases hheld
      exact hpinned
  | startScanOn snapshot name range =>
      rw [Session.step]
      split
      · exact h
      · exact (h.dropScan name).setScan name (by rintro _ _ ⟨⟩)
  | turnIntoScan snapshot name range =>
      rw [Session.step]
      split
      · exact h
      · rename_i transaction hheld
        have hleft : ((session.endScansOn snapshot).setSnapshot snapshot none).Tidy :=
          (h.endScansOn snapshot).setSnapshot snapshot (by rintro _ ⟨⟩)
        refine (hleft.dropScan name).setScan name fun held scan hcursor => ?_
        cases hcursor
        exact h.snapshots snapshot _ hheld
  | advance name count => exact h.advance name count
  | dropScan name => exact h.dropScan name

theorem tidy_start (directory : Directory) : (start directory).Tidy :=
  ⟨fun _ => nofun, nofun, nofun⟩

theorem Tidy.run (h : session.Tidy) (actions : List Action) : (session.run actions).Tidy := by
  induction actions generalizing session with
  | nil => exact h
  | cons action actions ih => exact ih (h.step action)

end Tidy

end Session

end Chronicle
