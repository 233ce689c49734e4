import Chronicle.Proofs.EventStore.Requests
import Mathlib.Logic.Function.Basic

-- Clients that share a store and name different entities: in whatever order they get
-- their turns, each is answered as if it were alone.

namespace Chronicle

-- What a client does to the store at once. Between the two turns that the deletion of an
-- entity takes, others may have theirs.
inductive Turn where
  | ask (request : Request)
  | gather (entity : String)
  | purge (entity : String)

def Turn.entity : Turn → String
  | .ask request => request.entity
  | .gather entity => entity
  | .purge entity => entity

def Request.turns : Request → List Turn
  | .deleteEntity entity => [.gather entity, .purge entity]
  | request => [.ask request]

theorem Request.entity_of_mem_turns {request : Request} {turn : Turn} (h : turn ∈ request.turns) :
    turn.entity = request.entity := by
  cases request with
  | deleteEntity entity =>
      rcases List.mem_cons.mp h with rfl | hpurge
      · rfl
      · rw [List.mem_singleton.mp hpurge]
        rfl
  | _ =>
      rw [List.mem_singleton.mp h]
      rfl

-- A store, and the keys that each client has gathered.
structure Shared (ι : Type) where
  store : EventStore
  gathered : ι → Except StoreError (List Bytes)

variable {ι : Type} [DecidableEq ι]

-- The requests or turns of one client.
def only {α : Type} (client : ι) (tagged : List (ι × α)) : List α :=
  (tagged.filter fun entry => entry.1 = client).map (·.2)

section Only

variable {α : Type} {client other : ι}

theorem only_append (client : ι) (first second : List (ι × α)) :
    only client (first ++ second) = only client first ++ only client second := by
  rw [only, List.filter_append, List.map_append]
  rfl

theorem only_map_self (client : ι) (items : List α) :
    only client (items.map (client, ·)) = items := by
  induction items with
  | nil => rfl
  | cons item rest ih => simpa [only] using ih

theorem only_map_of_ne (h : other ≠ client) (items : List α) :
    only client (items.map (other, ·)) = [] := by
  induction items with
  | nil => rfl
  | cons item rest ih => simp [only, h]

end Only

namespace EventStore

-- Requests of clients as a whole, one after the other.
def serveAll (store : EventStore) : List (ι × Request) → List (ι × Reply) × EventStore
  | [] => ([], store)
  | (client, request) :: rest =>
      let (reply, next) := store.serve request
      let (replies, last) := serveAll next rest
      ((client, reply) :: replies, last)

end EventStore

namespace Shared

def start (store : EventStore) : Shared ι := ⟨store, fun _ => .ok []⟩

def reply? (shared : Shared ι) (client : ι) : Turn → Option Reply
  | .ask request => some (shared.store.serve request).1
  | .gather _ => none
  | .purge _ => some (.deleted ((shared.gathered client).map List.length))

def after (shared : Shared ι) (client : ι) : Turn → Shared ι
  | .ask request => { shared with store := (shared.store.serve request).2 }
  | .gather entity =>
      { shared with
        gathered := Function.update shared.gathered client (shared.store.gather entity) }
  | .purge _ =>
      match shared.gathered client with
      | .ok keys => { shared with store := shared.store.change (keys.map .delete) }
      | .error _ => shared

def run (shared : Shared ι) (turns : List (ι × Turn)) : Shared ι :=
  turns.foldl (fun shared turn => shared.after turn.1 turn.2) shared

def replies (shared : Shared ι) : List (ι × Turn) → List (ι × Reply)
  | [] => []
  | (client, turn) :: rest =>
      (shared.reply? client turn).toList.map (client, ·) ++ replies (shared.after client turn) rest

-- The turns of requests that are not interrupted.
def whole (requests : List (ι × Request)) : List (ι × Turn) :=
  requests.flatMap fun entry => entry.2.turns.map (entry.1, ·)

variable {shared alone : Shared ι} {client other : ι} {turn : Turn}

theorem replies_append (shared : Shared ι) (first second : List (ι × Turn)) :
    shared.replies (first ++ second) =
      shared.replies first ++ (shared.run first).replies second := by
  induction first generalizing shared with
  | nil => rfl
  | cons entry rest ih =>
      rw [List.cons_append, replies, replies, ih, List.append_assoc]
      rfl

theorem run_append (shared : Shared ι) (first second : List (ι × Turn)) :
    shared.run (first ++ second) = (shared.run first).run second :=
  List.foldl_append

theorem gathered_gather (shared : Shared ι) (client : ι) (entity : String) :
    (shared.after client (.gather entity)).gathered client = shared.store.gather entity :=
  Function.update_self _ _ _

theorem gathered_purge (shared : Shared ι) (client : ι) (entity : String) :
    (shared.after client (.purge entity)).gathered = shared.gathered := by
  unfold after
  dsimp only
  split <;> rfl

theorem gathered_of_ne (h : client ≠ other) :
    (shared.after other turn).gathered client = shared.gathered client := by
  cases turn with
  | ask request => rfl
  | gather entity => exact Function.update_of_ne h _ _
  | purge entity => rw [gathered_purge]

-- A request that is not interrupted is answered and done at once.
theorem serve_turns (shared : Shared ι) (client : ι) (request : Request) :
    shared.replies (request.turns.map (client, ·)) = [(client, (shared.store.serve request).1)] ∧
      (shared.run (request.turns.map (client, ·))).store = (shared.store.serve request).2 := by
  cases request with
  | deleteEntity entity =>
      let between := shared.after client (.gather entity)
      have hgathered : between.gathered client = shared.store.gather entity :=
        shared.gathered_gather client entity
      have hreplies : shared.replies ((Request.deleteEntity entity).turns.map (client, ·)) =
          [(client, .deleted ((between.gathered client).map List.length))] := rfl
      have hrun : shared.run ((Request.deleteEntity entity).turns.map (client, ·)) =
          between.after client (.purge entity) := rfl
      rw [hreplies, hrun, after, hgathered, EventStore.serve, EventStore.undergo_deletingEntity,
        EventStore.deleteEntity_eq]
      cases shared.store.gather entity <;> exact ⟨rfl, rfl⟩
  | _ => exact ⟨rfl, rfl⟩

theorem serve_whole (shared : Shared ι) (requests : List (ι × Request)) :
    shared.replies (whole requests) = (shared.store.serveAll requests).1 ∧
      (shared.run (whole requests)).store = (shared.store.serveAll requests).2 := by
  induction requests generalizing shared with
  | nil => exact ⟨rfl, rfl⟩
  | cons entry rest ih =>
      obtain ⟨client, request⟩ := entry
      obtain ⟨hreply, hstore⟩ := shared.serve_turns client request
      obtain ⟨hreplies, hlast⟩ := ih (shared.run (request.turns.map (client, ·)))
      rw [hstore] at hreplies hlast
      have hsplit : whole ((client, request) :: rest) =
          request.turns.map (client, ·) ++ whole rest := List.flatMap_cons
      rw [hsplit, replies_append, run_append, hreply, hreplies, hlast]
      exact ⟨rfl, rfl⟩

section Apart

variable {entities : ι → String → Prop}

-- The keys of the entities of a client.
def Owned (entities : ι → String → Prop) (client : ι) (key : Bytes) : Prop :=
  ∃ entity, entities client entity ∧ Owns entity key

-- No client has gathered keys that are not its own.
def Proper (entities : ι → String → Prop) (shared : Shared ι) : Prop :=
  ∀ client keys, shared.gathered client = .ok keys → ∀ key ∈ keys, Owned entities client key

-- The store of a client alone, as far as the client can see.
structure Shadows (entities : ι → String → Prop) (client : ι) (shared alone : Shared ι) :
    Prop where
  agree : EventStore.Agree (Owned entities client) shared.store alone.store
  gathered_eq : shared.gathered client = alone.gathered client

theorem exists_change (h : shared.Proper entities) (hturn : entities client turn.entity) :
    ∃ batch, (shared.after client turn).store = shared.store.change batch ∧
      ∀ change ∈ batch, Owned entities client change.key := by
  cases turn with
  | ask request =>
      exact ⟨shared.store.changes request, shared.store.snd_serve request, fun change hchange =>
        ⟨request.entity, hturn, EventStore.owns_of_mem_changes hchange⟩⟩
  | gather entity => exact ⟨[], rfl, nofun⟩
  | purge entity =>
      rw [after]
      cases hgathered : shared.gathered client with
      | error error => exact ⟨[], rfl, nofun⟩
      | ok keys =>
          refine ⟨keys.map .delete, rfl, fun change hchange => ?_⟩
          obtain ⟨key, hkey, rfl⟩ := List.mem_map.mp hchange
          exact h client keys hgathered key hkey

theorem Proper.after (h : shared.Proper entities) (hturn : entities client turn.entity) :
    (shared.after client turn).Proper entities := by
  intro other keys hgathered
  by_cases hsame : other = client
  · subst hsame
    cases turn with
    | ask request => exact h other keys hgathered
    | gather entity =>
        rw [gathered_gather] at hgathered
        intro key hkey
        exact ⟨entity, hturn, EventStore.owns_of_mem_gather hgathered key hkey⟩
    | purge entity =>
        rw [gathered_purge] at hgathered
        exact h other keys hgathered
  · rw [gathered_of_ne hsame] at hgathered
    exact h other keys hgathered

-- A turn of the client itself is answered as if it were alone.
theorem Shadows.own (h : Shadows entities client shared alone)
    (hturn : entities client turn.entity) :
    shared.reply? client turn = alone.reply? client turn ∧
      Shadows entities client (shared.after client turn) (alone.after client turn) := by
  have hnear : EventStore.Agree (Owns turn.entity) shared.store alone.store :=
    h.agree.mono fun key hkey => ⟨turn.entity, hturn, hkey⟩
  cases turn with
  | ask request =>
      have hreply : (shared.store.serve request).1 = (alone.store.serve request).1 := hnear.reply_eq
      have hchanges : shared.store.changes request = alone.store.changes request :=
        hnear.changes_eq
      refine ⟨congrArg some hreply, ?_, h.gathered_eq⟩
      rw [Shared.after, Shared.after, EventStore.snd_serve, EventStore.snd_serve, hchanges]
      exact h.agree.change _
  | gather entity =>
      have hgather : shared.store.gather entity = alone.store.gather entity := hnear.gather_eq
      refine ⟨rfl, h.agree, ?_⟩
      rw [gathered_gather, gathered_gather, hgather]
  | purge entity =>
      rw [reply?, reply?, Shared.after, Shared.after, h.gathered_eq]
      refine ⟨rfl, ?_⟩
      cases halone : alone.gathered client with
      | error error => exact h
      | ok keys => exact ⟨h.agree.change _, h.gathered_eq⟩

-- A turn of another client is not noticed.
theorem Shadows.of_other (h : Shadows entities client shared alone)
    (hproper : shared.Proper entities) (hturn : entities other turn.entity) (hne : other ≠ client)
    (hapart : ∀ entity, entities client entity → ¬ entities other entity) :
    Shadows entities client (shared.after other turn) alone := by
  obtain ⟨batch, hstore, howned⟩ := exists_change hproper hturn
  refine ⟨?_, (gathered_of_ne hne.symm).trans h.gathered_eq⟩
  rw [hstore]
  refine ⟨h.agree.reader_eq, h.agree.options_eq, fun key hkey => ?_⟩
  rw [← h.agree.cells_eq key hkey]
  refine EventStore.get?_change fun change hchange hsame => ?_
  obtain ⟨entity, hentity, howns⟩ := hkey
  obtain ⟨entity', hentity', howns'⟩ := howned change hchange
  rw [hsame] at howns'
  cases howns.eq howns'
  exact hapart entity hentity hentity'

-- The induction is on the turns of all. Those of the others change nothing for the
-- client, which is told by the keys that they own.
theorem Shadows.run (h : Shadows entities client shared alone) (hproper : shared.Proper entities)
    (hapart : ∀ other, other ≠ client → ∀ entity, entities client entity → ¬ entities other entity)
    {turns : List (ι × Turn)} (hturns : ∀ entry ∈ turns, entities entry.1 entry.2.entity) :
    only client (shared.replies turns) =
      only client (alone.replies ((only client turns).map (client, ·))) ∧
    Shadows entities client (shared.run turns)
      (alone.run ((only client turns).map (client, ·))) := by
  induction turns generalizing shared alone with
  | nil => exact ⟨rfl, h⟩
  | cons entry rest ih =>
      obtain ⟨other, turn⟩ := entry
      have hturn : entities other turn.entity := hturns _ List.mem_cons_self
      have hrest : ∀ entry ∈ rest, entities entry.1 entry.2.entity :=
        fun entry hentry => hturns entry (List.mem_cons_of_mem _ hentry)
      by_cases hsame : other = client
      · subst hsame
        obtain ⟨hreply, hafter⟩ := h.own hturn
        obtain ⟨hreplies, hlast⟩ := ih hafter (hproper.after hturn) hrest
        have hturns : only other ((other, turn) :: rest) = turn :: only other rest :=
          only_append other [(other, turn)] rest ▸ congrArg (· ++ _) (only_map_self other [turn])
        rw [hturns, List.map_cons, replies, replies, only_append, only_append, hreply, hreplies]
        exact ⟨rfl, hlast⟩
      · obtain ⟨hreplies, hlast⟩ :=
          ih (h.of_other hproper hturn hsame (hapart other hsame)) (hproper.after hturn) hrest
        have hturns : only client ((other, turn) :: rest) = only client rest := by
          simp [only, hsame]
        rw [hturns, replies, only_append, only_map_of_ne hsame, hreplies]
        exact ⟨rfl, hlast⟩

-- Keys of nobody keep their cells.
theorem get?_run (hproper : shared.Proper entities) {turns : List (ι × Turn)}
    (hturns : ∀ entry ∈ turns, entities entry.1 entry.2.entity) {key : Bytes}
    (hkey : ∀ client, ¬ Owned entities client key) :
    (shared.run turns).store.storage.table.get? key = shared.store.storage.table.get? key := by
  induction turns generalizing shared with
  | nil => rfl
  | cons entry rest ih =>
      obtain ⟨client, turn⟩ := entry
      have hturn : entities client turn.entity := hturns _ List.mem_cons_self
      obtain ⟨batch, hstore, howned⟩ := exists_change hproper hturn
      have hrest := ih (hproper.after hturn) fun entry hentry =>
        hturns entry (List.mem_cons_of_mem _ hentry)
      refine hrest.trans ?_
      rw [hstore]
      exact EventStore.get?_change fun change hchange hsame =>
        hkey client (hsame ▸ howned change hchange)

end Apart

section Merges

variable {programs : ι → List Request} {turns turns' : List (ι × Turn)}

-- Each client gets the turns of its requests in their order, whatever comes between.
def Merges (programs : ι → List Request) (turns : List (ι × Turn)) : Prop :=
  ∀ client, only client turns = (programs client).flatMap Request.turns

theorem only_whole (client : ι) (requests : List (ι × Request)) :
    only client (whole requests) = (only client requests).flatMap Request.turns := by
  induction requests with
  | nil => rfl
  | cons entry rest ih =>
      obtain ⟨other, request⟩ := entry
      have hsplit : whole ((other, request) :: rest) =
          request.turns.map (other, ·) ++ whole rest := List.flatMap_cons
      rw [hsplit, only_append, ih]
      by_cases hsame : other = client
      · subst hsame
        rw [only_map_self]
        simp [only]
      · rw [only_map_of_ne hsame]
        simp [only, hsame]

omit [DecidableEq ι] in
theorem map_flatMap_turns (client : ι) (requests : List Request) :
    (requests.flatMap Request.turns).map (client, ·) = whole (requests.map (client, ·)) := by
  rw [whole, List.map_flatMap, List.flatMap_map]

-- The entities that a client names in its requests.
def named (programs : ι → List Request) (client : ι) (entity : String) : Prop :=
  ∃ request ∈ programs client, request.entity = entity

theorem Merges.named (h : Merges programs turns) :
    ∀ entry ∈ turns, Shared.named programs entry.1 entry.2.entity := by
  rintro ⟨client, turn⟩ hentry
  have hmem : turn ∈ only client turns :=
    List.mem_map_of_mem (List.mem_filter.mpr ⟨hentry, decide_eq_true rfl⟩)
  rw [h client] at hmem
  obtain ⟨request, hrequest, hturn⟩ := List.mem_flatMap.mp hmem
  exact ⟨request, hrequest, (Request.entity_of_mem_turns hturn).symm⟩

omit [DecidableEq ι] in
theorem proper_start (entities : ι → String → Prop) (store : EventStore) :
    (start store : Shared ι).Proper entities := by
  intro client keys hkeys key hkey
  cases hkeys
  contradiction

omit [DecidableEq ι] in
theorem shadows_self (entities : ι → String → Prop) (client : ι) (shared : Shared ι) :
    Shadows entities client shared shared :=
  ⟨⟨rfl, rfl, fun _ _ => rfl⟩, rfl⟩

-- Clients whose requests never name the same entity.
def Disjoint (programs : ι → List Request) : Prop :=
  ∀ client other, client ≠ other → ∀ request ∈ programs client, ∀ request' ∈ programs other,
    request.entity ≠ request'.entity

-- A client goes through its own requests alone.
theorem Merges.shadows (h : Merges programs turns) (hdisjoint : Disjoint programs)
    (store : EventStore) (client : ι) :
    only client ((start store).replies turns) =
      only client (store.serveAll ((programs client).map (client, ·))).1 ∧
    Shadows (Shared.named programs) client ((start store).run turns)
      ((start store).run (whole ((programs client).map (client, ·)))) := by
  have hapart : ∀ other, other ≠ client → ∀ entity, Shared.named programs client entity →
      ¬ Shared.named programs other entity := by
    rintro other hne _ ⟨request, hrequest, rfl⟩ ⟨request', hrequest', hsame⟩
    exact hdisjoint client other hne.symm request hrequest request' hrequest' hsame.symm
  obtain ⟨hreplies, hlast⟩ := (shadows_self _ client (start store)).run
    (proper_start (Shared.named programs) store) hapart h.named
  rw [h client, map_flatMap_turns] at hreplies hlast
  rw [((start store).serve_whole _).1] at hreplies
  exact ⟨hreplies, hlast⟩

-- However the turns are merged, the table is the same in the end.
theorem Merges.table_eq (h : Merges programs turns) (h' : Merges programs turns')
    (hdisjoint : Disjoint programs) (store : EventStore) :
    ((start store).run turns').store.storage.table =
      ((start store).run turns).store.storage.table := by
  refine SortedMap.ext_get? fun key => ?_
  by_cases howned : ∃ client, Owned (Shared.named programs) client key
  · obtain ⟨client, hclient⟩ := howned
    have hcell := (h.shadows hdisjoint store client).2.agree.cells_eq key hclient
    have hcell' := (h'.shadows hdisjoint store client).2.agree.cells_eq key hclient
    exact hcell'.trans hcell.symm
  · have hnobody := not_exists.mp howned
    have hproper := proper_start (Shared.named programs) store
    exact (get?_run hproper h'.named hnobody).trans (get?_run hproper h.named hnobody).symm

end Merges

end Shared

namespace EventStore

-- Each client is answered as if it were alone, and all orders end in the same table,
-- both when requests are done as a whole and when deletions are interrupted.
structure ServesApart (store : EventStore) (programs : ι → List Request) : Prop where
  whole : ∀ requests, (∀ client, only client requests = programs client) → ∀ client,
    only client (store.serveAll requests).1 =
      only client (store.serveAll ((programs client).map (client, ·))).1
  turns : ∀ turns, Shared.Merges programs turns → ∀ client,
    only client ((Shared.start store).replies turns) =
      only client (store.serveAll ((programs client).map (client, ·))).1
  table : ∃ table : Table,
    (∀ requests, (∀ client, only client requests = programs client) →
      (store.serveAll requests).2.storage.table = table) ∧
    ∀ turns, Shared.Merges programs turns →
      ((Shared.start store).run turns).store.storage.table = table

theorem servesApart {programs : ι → List Request} (h : Shared.Disjoint programs)
    (store : EventStore) : store.ServesApart programs := by
  have hwhole : ∀ {requests : List (ι × Request)},
      (∀ client, only client requests = programs client) →
      Shared.Merges programs (Shared.whole requests) := by
    intro requests hrequests client
    rw [Shared.only_whole, hrequests client]
  refine ⟨fun requests hrequests client => ?_, fun turns hturns client => ?_, ?_⟩
  · have hreplies := ((hwhole hrequests).shadows h store client).1
    rw [((Shared.start store).serve_whole requests).1] at hreplies
    exact hreplies
  · exact (hturns.shadows h store client).1
  · by_cases hmerges : ∃ turns, Shared.Merges programs turns
    · obtain ⟨turns, hturns⟩ := hmerges
      refine ⟨((Shared.start store).run turns).store.storage.table,
        fun requests hrequests => ?_, fun turns' hturns' => hturns.table_eq hturns' h store⟩
      have htable := hturns.table_eq (hwhole hrequests) h store
      rw [((Shared.start store).serve_whole requests).2] at htable
      exact htable
    · exact ⟨store.storage.table, fun requests hrequests => absurd ⟨_, hwhole hrequests⟩ hmerges,
        fun turns hturns => absurd ⟨turns, hturns⟩ hmerges⟩

-- Of the two entities one begins with the other, and the deletion of that one is
-- interrupted.
theorem servesApart_of_nested_names :
    let programs : Bool → List Request := fun client =>
      if client then [.write ⟨"note", "ab", ⟨5, none⟩, 1, ∅⟩, .latest "ab"]
      else [.deleteEntity "a", .read "a" TimeSpan.always]
    Shared.Disjoint programs ∧
      Shared.Merges programs
        [(false, .gather "a"), (true, .ask (.write ⟨"note", "ab", ⟨5, none⟩, 1, ∅⟩)),
          (false, .purge "a"), (true, .ask (.latest "ab")),
          (false, .ask (.read "a" TimeSpan.always))] ∧
      ∃ registry store, Registry.register ∅ ⟨"note", 1, []⟩ = .ok registry ∧
        openIn Directory.fresh ⟨"notes", .strict, .preserve, .default⟩ registry = .ok store ∧
        store.ServesApart programs := by
  intro programs
  have hdisjoint : Shared.Disjoint programs := by
    unfold Shared.Disjoint
    decide
  refine ⟨hdisjoint, ?_, _, _, rfl, rfl, servesApart hdisjoint _⟩
  rintro (_ | _) <;> rfl

end EventStore

end Chronicle
