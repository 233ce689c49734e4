import Chronicle.Import.Document
import Chronicle.Proofs.Toml.Ordered

-- The values that TOML texts stand for: integers are of 64 bits, and dates and times are
-- told from the tables that hold them. What is inside of a value has a place in it.

namespace Chronicle

-- A step down a tree, to a member or to an item.
inductive Step where
  | name (name : String)
  | position (index : Nat)

namespace Step

def text : Step → String
  | .name text => text
  | .position index => toString index

theorem text_ne_empty {step : Step} (h : step ≠ .name "") : step.text ≠ "" := by
  cases step with
  | name text =>
      rintro rfl
      exact h rfl
  | position index => exact Nat.repr_ne_empty

-- Members come in the order of their names, items by their positions.
def Before : Step → Step → Prop
  | .name first, .name second => first < second
  | .position first, .position second => first < second
  | _, _ => False

end Step

section Reach

variable {α β : Type} {related : α → β → Prop} {child? : Step → α → Option α}
  {child'? : Step → β → Option β}

-- What is found in a tree step by step.
def reach? (child? : Step → α → Option α) : List Step → α → Option α
  | [], tree => some tree
  | step :: place, tree => (child? step tree).bind (reach? child? place)

-- Trees that are related step by step are so at every place.
theorem rel_reach? (hstep : ∀ tree tree', related tree tree' → ∀ step,
      Option.Rel related (child? step tree) (child'? step tree'))
    {tree : α} {tree' : β} (h : related tree tree') (place : List Step) :
    Option.Rel related (reach? child? place tree) (reach? child'? place tree') := by
  induction place generalizing tree tree' with
  | nil => exact .some h
  | cons step place ih =>
      have hfound := hstep tree tree' h step
      rw [reach?, reach?]
      generalize child? step tree = found, child'? step tree' = found' at hfound ⊢
      cases hfound with
      | none => exact .none
      | some h => exact ih h

theorem rel_getElem? {xs : List α} {ys : List β} (h : List.Forall₂ related xs ys) (index : Nat) :
    Option.Rel related xs[index]? ys[index]? := by
  induction h generalizing index with
  | nil => exact .none
  | cons hrelated _ ih =>
      cases index with
      | zero => exact .some hrelated
      | succ index => exact ih index

theorem Entries.rel_get? {xs : List (String × α)} {ys : List (String × β)}
    (hnames : xs.map (·.1) = ys.map (·.1))
    (h : List.Forall₂ related (xs.map (·.2)) (ys.map (·.2))) (name : String) :
    Option.Rel related (Entries.get? name xs) (Entries.get? name ys) := by
  induction xs generalizing ys with
  | nil =>
      obtain rfl : ys = [] := List.map_eq_nil_iff.mp hnames.symm
      exact .none
  | cons x xs ih =>
      obtain ⟨y, ys, rfl, hname, hnames⟩ := List.map_eq_cons_iff.mp hnames.symm
      obtain ⟨hrelated, hrest⟩ := List.forall₂_cons.mp h
      rw [Entries.get?, Entries.get?, hname]
      split
      · exact .none
      · split
        · exact ih hnames.symm hrest
        · exact .some hrelated

end Reach

namespace Toml

inductive Datum where
  | string (s : String)
  | integer (n : Int64)
  | float (x : Binary64)
  | boolean (b : Bool)
  | moment (m : Moment)
  | array (items : List Datum)
  | table (entries : List (String × Datum))

mutual

-- The value that a tree stands for, if all of it is legible. A table that begins with
-- the name that is kept for dates and times stands for one.
def datum? : Toml → Option Datum
  | .string s => some (.string s)
  | .integer n =>
      if -twoTo 63 ≤ n ∧ n < twoTo 63 then some (.integer (Int64.ofInt n)) else none
  | .float x => some (.float x)
  | .boolean b => some (.boolean b)
  | .moment m => some (.moment m)
  | .illegible => none
  | .array items => (data? items).map .array
  | .table entries =>
      match entries.head?.filter fun entry => entry.1 = momentEntry with
      | some (_, held) => (Import.heldMoment? held).map .moment
      | none => (members? entries).map .table

def data? : List Toml → Option (List Datum)
  | [] => some []
  | item :: rest => do some ((← datum? item) :: (← data? rest))

def members? : List (String × Toml) → Option (List (String × Datum))
  | [] => some []
  | (name, item) :: rest => do some ((name, ← datum? item) :: (← members? rest))

end

-- The value of a text is a table, whatever its first entry is.
def document? (text : String) : Option Datum := do some (.table (← members? (← parse? text)))

namespace Datum

-- What is one step below.
def child? : Step → Datum → Option Datum
  | .name name, .table entries => Entries.get? name entries
  | .position index, .array items => items[index]?
  | _, _ => none

def at? (datum : Datum) (place : List Step) : Option Datum := reach? child? place datum

@[simp] theorem at?_nil (datum : Datum) : datum.at? [] = some datum := rfl

theorem at?_cons (datum : Datum) (step : Step) (place : List Step) :
    datum.at? (step :: place) = (datum.child? step).bind fun child => child.at? place := rfl

-- All that is one step below, in order.
def children : Datum → List (Step × Datum)
  | .array items => items.zipIdx.map fun item => (.position item.2, item.1)
  | .table entries => entries.map fun entry => (.name entry.1, entry.2)
  | _ => []

theorem exists_child_of_item {items : List Datum} {item : Datum} (h : item ∈ items) :
    ∃ step, (step, item) ∈ (array items).children := by
  obtain ⟨index, hindex⟩ := List.mem_iff_getElem?.mp h
  have hchild : (item, index) ∈ items.zipIdx := List.mem_zipIdx_iff_getElem?.mpr hindex
  exact ⟨.position index, List.mem_map_of_mem hchild⟩

-- The entries of all tables are in the order of their names, one for each name.
inductive Ordered : Datum → Prop where
  | intro {datum : Datum}
      (ascending : datum.children.Pairwise fun first second => first.1.Before second.1)
      (below : ∀ child ∈ datum.children, Ordered child.2) : Ordered datum

variable {datum : Datum} {items : List Datum} {entries : List (String × Datum)}

theorem ordered_of_children (h : datum.children = []) : datum.Ordered := by
  refine .intro ?_ ?_
  · rw [h]
    exact .nil
  · rw [h]
    exact fun _ hmem => absurd hmem List.not_mem_nil

theorem ordered_array (h : ∀ item ∈ items, item.Ordered) : (array items).Ordered := by
  refine .intro ?_ fun child hchild => ?_
  · have hpositions : (items.zipIdx.map (·.2)).Pairwise (· < ·) := by
      rw [List.zipIdx_map_snd]
      exact List.pairwise_lt_range'
    have hascending : items.zipIdx.Pairwise fun first second => first.2 < second.2 :=
      List.pairwise_map.mp hpositions
    exact List.pairwise_map.mpr hascending
  · obtain ⟨item, hitem, rfl⟩ := List.mem_map.mp hchild
    exact h item.1 (List.mem_of_getElem? (List.mem_zipIdx_iff_getElem?.mp hitem))

theorem ordered_table (ascending : Ascending entries) (h : ∀ entry ∈ entries, entry.2.Ordered) :
    (table entries).Ordered := by
  refine .intro (List.pairwise_map.mpr ascending) fun child hchild => ?_
  obtain ⟨entry, hentry, rfl⟩ := List.mem_map.mp hchild
  exact h entry hentry

theorem Ordered.ascending (h : (table entries).Ordered) : Ascending entries := by
  obtain ⟨ascending, _⟩ := h
  rw [children, List.pairwise_map] at ascending
  exact ascending

theorem Ordered.child?_eq_some_iff (h : datum.Ordered) {step : Step} {child : Datum} :
    datum.child? step = some child ↔ (step, child) ∈ datum.children := by
  cases datum with
  | table entries =>
      cases step with
      | name name => simp [child?, children, Entries.get?_eq_some_iff h.ascending]
      | position index => simp [child?, children]
  | array items =>
      cases step with
      | name name => simp [child?, children]
      | position index => simp [child?, children, List.mem_zipIdx_iff_getElem?]
  | _ => simp [child?, children]

end Datum

section Order

theorem ordered_of_data? {items : List Toml} {data : List Datum}
    (hitems : ∀ item ∈ items, ∀ datum, item.datum? = some datum → datum.Ordered)
    (h : data? items = some data) : ∀ datum ∈ data, datum.Ordered := by
  induction items generalizing data with
  | nil =>
      rw [data?] at h
      cases h
      exact fun _ hmem => absurd hmem List.not_mem_nil
  | cons item rest ih =>
      rw [data?] at h
      obtain ⟨datum, hdatum, h⟩ := Option.bind_eq_some_iff.mp h
      obtain ⟨others, hothers, h⟩ := Option.bind_eq_some_iff.mp h
      cases h
      exact List.forall_mem_cons.mpr ⟨hitems item List.mem_cons_self datum hdatum,
        ih (fun other hmem => hitems other (List.mem_cons_of_mem _ hmem)) hothers⟩

-- Entries keep their names.
theorem ordered_of_members? {entries : List (String × Toml)} {members : List (String × Datum)}
    (hentries : ∀ entry ∈ entries, ∀ datum, entry.2.datum? = some datum → datum.Ordered)
    (h : members? entries = some members) :
    members.map (·.1) = entries.map (·.1) ∧ ∀ member ∈ members, member.2.Ordered := by
  induction entries generalizing members with
  | nil =>
      rw [members?] at h
      cases h
      exact ⟨rfl, fun _ hmem => absurd hmem List.not_mem_nil⟩
  | cons entry rest ih =>
      obtain ⟨name, item⟩ := entry
      rw [members?] at h
      obtain ⟨datum, hdatum, h⟩ := Option.bind_eq_some_iff.mp h
      obtain ⟨others, hothers, h⟩ := Option.bind_eq_some_iff.mp h
      cases h
      obtain ⟨hnames, hall⟩ :=
        ih (fun other hmem => hentries other (List.mem_cons_of_mem _ hmem)) hothers
      exact ⟨by rw [List.map_cons, List.map_cons, hnames], List.forall_mem_cons.mpr
        ⟨hentries (name, item) List.mem_cons_self datum hdatum, hall⟩⟩

theorem Datum.ordered_of_names {entries : List (String × Toml)} {members : List (String × Datum)}
    (ascending : Ascending entries)
    (h : members.map (·.1) = entries.map (·.1) ∧ ∀ member ∈ members, member.2.Ordered) :
    (Datum.table members).Ordered := by
  obtain ⟨hnames, hall⟩ := h
  have hkeys : (members.map (·.1)).Pairwise (· < ·) := by
    rw [hnames]
    exact List.pairwise_map.mpr ascending
  exact ordered_table (List.pairwise_map.mp hkeys) hall

-- What an ordered tree stands for is ordered.
theorem Ordered.datum {tree : Toml} (h : tree.Ordered) :
    ∀ datum, tree.datum? = some datum → datum.Ordered := by
  induction h with
  | integer n =>
      intro datum hdatum
      rw [datum?] at hdatum
      split at hdatum
      · cases hdatum
        exact Datum.ordered_of_children rfl
      · contradiction
  | illegible =>
      intro datum hdatum
      rw [datum?] at hdatum
      contradiction
  | array _ ih =>
      intro datum hdatum
      rw [datum?] at hdatum
      obtain ⟨data, hdata, rfl⟩ := Option.map_eq_some_iff.mp hdatum
      exact Datum.ordered_array (ordered_of_data? ih hdata)
  | table ascending _ ih =>
      intro datum hdatum
      rw [datum?] at hdatum
      split at hdatum
      · obtain ⟨moment, _, rfl⟩ := Option.map_eq_some_iff.mp hdatum
        exact Datum.ordered_of_children rfl
      · obtain ⟨members, hmembers, rfl⟩ := Option.map_eq_some_iff.mp hdatum
        exact Datum.ordered_of_names ascending (ordered_of_members? ih hmembers)
  | _ =>
      intro datum hdatum
      rw [datum?] at hdatum
      cases hdatum
      exact Datum.ordered_of_children rfl

theorem ordered_of_document? {text : String} {datum : Datum} (h : document? text = some datum) :
    datum.Ordered := by
  obtain ⟨entries, hparse, h⟩ := Option.bind_eq_some_iff.mp h
  obtain ⟨members, hmembers, h⟩ := Option.bind_eq_some_iff.mp h
  cases h
  have hentries := ordered_of_parse? hparse
  exact Datum.ordered_of_names hentries.ascending
    (ordered_of_members? (fun _ hmem => (hentries.of_mem hmem).datum) hmembers)

end Order

end Toml

end Chronicle
