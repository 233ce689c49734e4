import Chronicle.Proofs.Json.Path
import Chronicle.Proofs.Toml.Datum

-- The lowering of TOML values: at every place there is what the value at the same place
-- becomes, and each number that is lost is noted once, where it stood.

namespace Chronicle

namespace Json

-- What is one step below.
def child? : Step → Json → Option Json
  | .name name, tree => tree.member? name
  | .position index, .array items => items[index]?
  | _, _ => none

def at? (tree : Json) (place : List Step) : Option Json := reach? child? place tree

theorem lookup_eq_at? (tree : Json) (path : String) :
    tree.lookup path = tree.at? ((names path).map .name) := by
  rw [lookup_eq_follow]
  generalize names path = names
  induction names generalizing tree with
  | nil => rfl
  | cons name names ih => exact congrArg (Option.bind _) (funext fun child => ih child)

end Json

namespace Import

-- The path of a place below a path.
def placePath (path : String) (place : List Step) : String :=
  place.foldl (fun path step => childPath path step.text) path

-- Behind a first name that is not empty the names are joined.
theorem placePath_of_ne {path : String} (h : path ≠ "") (place : List Step) :
    placePath path place = ".".intercalate (path :: place.map Step.text) := by
  induction place generalizing path with
  | nil => simp [placePath]
  | cons step place ih =>
      have hchild : childPath path step.text = path ++ "." ++ step.text := by
        rw [childPath, if_neg (by simpa using h)]
      have hlonger : path ++ "." ++ step.text ≠ "" := by simp
      rw [placePath, List.foldl_cons, hchild]
      exact ih hlonger

end Import

namespace Toml

-- A number that is lost, and where it stands.
structure Loss where
  place : List Step
  value : Binary64

-- The loss as it is seen from a step above.
def Loss.under (step : Step) (loss : Loss) : Loss := ⟨step :: loss.place, loss.value⟩

namespace Datum

variable {datum : Datum} {tree : Json}

-- What a value is lowered to.
inductive Lowers : Datum → Json → Prop where
  | string (s : String) : Lowers (.string s) (.string s)
  | integer (n : Int64) : Lowers (.integer n) (.number (.int n.toInt))
  | float {x : Binary64} (h : x.isFinite = true) : Lowers (.float x) (.number (.float x))
  | lost {x : Binary64} (h : x.isFinite = false) : Lowers (.float x) .null
  | boolean (b : Bool) : Lowers (.boolean b) (.bool b)
  | moment (m : Moment) : Lowers (.moment m) (.string m.render)
  | array {items : List Datum} {trees : List Json} (h : List.Forall₂ Lowers items trees) :
      Lowers (.array items) (.array trees)
  | table {entries : List (String × Datum)} {members : List (String × Json)}
      (names : entries.map (·.1) = members.map (·.1))
      (h : List.Forall₂ Lowers (entries.map (·.2)) (members.map (·.2))) :
      Lowers (.table entries) (.object members)

theorem Lowers.child? (h : datum.Lowers tree) (step : Step) :
    Option.Rel Lowers (datum.child? step) (tree.child? step) := by
  cases h with
  | array h =>
      cases step with
      | name name => exact .none
      | position index => exact rel_getElem? h index
  | table names h =>
      cases step with
      | name name => exact Entries.rel_get? names h name
      | position index => exact .none
  | _ => cases step <;> exact .none

theorem Lowers.at? (h : datum.Lowers tree) (place : List Step) :
    Option.Rel Lowers (datum.at? place) (tree.at? place) :=
  rel_reach? (fun _ _ h step => h.child? step) h place

mutual

-- The tree of a value.
def json : Datum → Json
  | .string s => .string s
  | .integer n => .number (.int n.toInt)
  | .float x => if x.isFinite then .number (.float x) else .null
  | .boolean b => .bool b
  | .moment m => .string m.render
  | .array items => .array (trees items)
  | .table entries => .object (members entries)

def trees : List Datum → List Json
  | [] => []
  | item :: rest => json item :: trees rest

def members : List (String × Datum) → List (String × Json)
  | [] => []
  | (name, item) :: rest => (name, json item) :: members rest

end

theorem trees_eq_map (items : List Datum) : trees items = items.map json := by
  induction items with
  | nil => rfl
  | cons item rest ih => rw [trees, ih, List.map_cons]

theorem members_eq_map (entries : List (String × Datum)) :
    members entries = entries.map fun entry => (entry.1, entry.2.json) := by
  induction entries with
  | nil => rfl
  | cons entry rest ih => rw [members, ih, List.map_cons]

-- By induction on what is below a value.
theorem Ordered.lowers (h : datum.Ordered) : datum.Lowers datum.json := by
  induction h with
  | @intro datum _ _ ih =>
      cases datum with
      | string s => exact .string s
      | integer n => exact .integer n
      | float x =>
          rw [json]
          split
          · rename_i hfinite
            exact .float hfinite
          · rename_i hlost
            exact .lost (Bool.not_eq_true _ ▸ hlost)
      | boolean b => exact .boolean b
      | moment m => exact .moment m
      | array items =>
          rw [json, trees_eq_map]
          refine .array (List.forall₂_map_right_iff.mpr ?_)
          refine List.forall₂_same.mpr fun item hitem => ?_
          obtain ⟨step, hchild⟩ := exists_child_of_item hitem
          exact ih _ hchild
      | table entries =>
          rw [json, members_eq_map]
          refine .table (by simp) ?_
          rw [List.map_map]
          refine List.forall₂_map_left_iff.mpr (List.forall₂_map_right_iff.mpr
            (List.forall₂_same.mpr fun entry hentry => ?_))
          exact ih _ (List.mem_map_of_mem hentry)

theorem Ordered.json (h : datum.Ordered) : datum.json.Ordered := by
  induction h with
  | @intro datum ascending hbelow ih =>
      have hordered : datum.Ordered := .intro ascending hbelow
      cases datum with
      | string s => exact .string s
      | integer n => exact .number _
      | float x =>
          rw [Datum.json]
          split
          · exact .number _
          · exact .null
      | boolean b => exact .bool b
      | moment m => exact .string _
      | array items =>
          rw [Datum.json, trees_eq_map]
          refine .array fun tree htree => ?_
          obtain ⟨item, hitem, rfl⟩ := List.mem_map.mp htree
          obtain ⟨step, hchild⟩ := exists_child_of_item hitem
          exact ih _ hchild
      | table entries =>
          rw [Datum.json, members_eq_map]
          refine .object (List.pairwise_map.mpr hordered.ascending) fun member hmember => ?_
          obtain ⟨entry, hentry, rfl⟩ := List.mem_map.mp hmember
          exact ih _ (List.mem_map_of_mem hentry)

section Losses

mutual

-- The numbers that are lost in a value.
def losses : Datum → List Loss
  | .float x => if x.isFinite then [] else [⟨[], x⟩]
  | .array items => itemLosses 0 items
  | .table entries => entryLosses entries
  | _ => []

def itemLosses (position : Nat) : List Datum → List Loss
  | [] => []
  | item :: rest =>
      (losses item).map (.under (.position position)) ++ itemLosses (position + 1) rest

def entryLosses : List (String × Datum) → List Loss
  | [] => []
  | (name, item) :: rest => (losses item).map (.under (.name name)) ++ entryLosses rest

end

theorem itemLosses_eq (position : Nat) (items : List Datum) :
    itemLosses position items =
      (items.zipIdx position).flatMap fun item =>
        item.1.losses.map (.under (.position item.2)) := by
  induction items generalizing position with
  | nil => rfl
  | cons item rest ih => rw [itemLosses, ih, List.zipIdx_cons, List.flatMap_cons]

theorem entryLosses_eq (entries : List (String × Datum)) :
    entryLosses entries =
      entries.flatMap fun entry => entry.2.losses.map (.under (.name entry.1)) := by
  induction entries with
  | nil => rfl
  | cons entry rest ih => rw [entryLosses, ih, List.flatMap_cons]

-- What is lost in a value that is no number is lost one step below it.
theorem losses_eq (h : ∀ x, datum ≠ .float x) :
    datum.losses =
      datum.children.flatMap fun child => child.2.losses.map (.under child.1) := by
  cases datum with
  | float x => exact absurd rfl (h x)
  | array items => rw [losses, itemLosses_eq, children, List.flatMap_map]
  | table entries => rw [losses, entryLosses_eq, children, List.flatMap_map]
  | _ => rfl

theorem mem_losses_float {x : Binary64} {loss : Loss} :
    loss ∈ (float x).losses ↔
      (float x).at? loss.place = some (.float loss.value) ∧ loss.value.isFinite = false := by
  obtain ⟨place, y⟩ := loss
  cases place with
  | nil =>
      rw [losses, at?_nil]
      constructor
      · intro hmem
        split at hmem
        · contradiction
        · rename_i hlost
          cases List.mem_singleton.mp hmem
          exact ⟨rfl, Bool.not_eq_true _ ▸ hlost⟩
      · rintro ⟨hfound, hlost⟩
        cases hfound
        rw [hlost]
        exact List.mem_cons_self
  | cons step place =>
      have hnone : (float x).child? step = none := by cases step <;> rfl
      simp [losses, at?_cons, hnone]

-- One step below a value there is one child at most: a place leads into that or nowhere.
theorem mem_losses_iff (h : datum.Ordered) {loss : Loss} :
    loss ∈ datum.losses ↔
      datum.at? loss.place = some (.float loss.value) ∧ loss.value.isFinite = false := by
  induction h generalizing loss with
  | @intro datum ascending hbelow ih =>
      have hordered : datum.Ordered := .intro ascending hbelow
      by_cases hfloat : ∃ x, datum = .float x
      · obtain ⟨x, rfl⟩ := hfloat
        exact mem_losses_float
      · have hother : ∀ x, datum ≠ .float x := fun x hx => hfloat ⟨x, hx⟩
        obtain ⟨place, x⟩ := loss
        rw [losses_eq hother, List.mem_flatMap]
        cases place with
        | nil => simp [Loss.under, hother]
        | cons step place =>
            rw [at?_cons, Option.bind_eq_some_iff]
            constructor
            · rintro ⟨child, hchild, hloss⟩
              obtain ⟨inner, hinner, hsame⟩ := List.mem_map.mp hloss
              cases hsame
              obtain ⟨hfound, hlost⟩ := (ih child hchild).mp hinner
              exact ⟨⟨child.2, hordered.child?_eq_some_iff.mpr hchild, hfound⟩, hlost⟩
            · rintro ⟨⟨child, hchild, hfound⟩, hlost⟩
              have hmem := hordered.child?_eq_some_iff.mp hchild
              have hinner : Loss.mk place x ∈ child.losses :=
                (ih (step, child) hmem).mpr ⟨hfound, hlost⟩
              exact ⟨(step, child), hmem, List.mem_map_of_mem hinner⟩

-- Losses come in the order of their places.
theorem pairwise_losses (h : datum.Ordered) :
    datum.losses.Pairwise fun first second => List.Lex Step.Before first.place second.place := by
  induction h with
  | @intro datum ascending _ ih =>
      by_cases hfloat : ∃ y, datum = .float y
      · obtain ⟨y, rfl⟩ := hfloat
        rw [losses]
        split
        · exact .nil
        · exact List.pairwise_singleton _ _
      · rw [losses_eq fun y hy => hfloat ⟨y, hy⟩]
        refine List.pairwise_flatMap.mpr ⟨fun child hchild => ?_, ?_⟩
        · exact List.pairwise_map.mpr ((ih child hchild).imp fun hbefore => .cons hbefore)
        · refine ascending.imp fun hbefore loss hloss other hother => ?_
          obtain ⟨_, _, rfl⟩ := List.mem_map.mp hloss
          obtain ⟨_, _, rfl⟩ := List.mem_map.mp hother
          exact .rel hbefore

end Losses

-- What the lowering of a value tells of it, and the notes on that.
structure IsLowered (datum : Datum) (tree : Json) (notes : List Import.Note) : Prop where
  lookup : ∀ path,
    Option.Rel Lowers (datum.at? ((Json.names path).map .name)) (tree.lookup path)
  null_iff : ∀ place, tree.at? place = some .null ↔
    ∃ x, datum.at? place = some (.float x) ∧ x.isFinite = false
  -- One note for each number that is lost, in the order of their places.
  noted : ∃ losses : List Loss,
    (∀ loss, loss ∈ losses ↔
      datum.at? loss.place = some (.float loss.value) ∧ loss.value.isFinite = false) ∧
    losses.Pairwise (fun first second => List.Lex Step.Before first.place second.place) ∧
    notes.map (·.value) = losses.map (·.value) ∧
    (datum.at? [.name ""] = none →
      notes.map (·.path) = losses.map fun loss => ".".intercalate (loss.place.map Step.text))

theorem Lowers.null_iff (h : datum.Lowers tree) (place : List Step) :
    tree.at? place = some .null ↔
      ∃ x, datum.at? place = some (.float x) ∧ x.isFinite = false := by
  have hfound := h.at? place
  generalize datum.at? place = found, tree.at? place = found' at hfound
  cases hfound with
  | none => simp
  | @some child node hnode => cases hnode <;> simp_all

end Datum

-- A loss in a value at a path is noted at the path of its place.
def Loss.note (path : String) (loss : Loss) : Import.Note :=
  ⟨Import.placePath path loss.place, loss.value⟩

theorem Loss.map_note_under (path : String) (step : Step) (losses : List Loss) :
    (losses.map (Loss.under step)).map (Loss.note path) =
      losses.map (Loss.note (Import.childPath path step.text)) := by
  rw [List.map_map]
  rfl

theorem Datum.path_note {datum : Datum} (hname : datum.at? [.name ""] = none) {loss : Loss}
    (h : datum.at? loss.place = some (.float loss.value)) :
    (loss.note "").path = ".".intercalate (loss.place.map Step.text) := by
  obtain ⟨place, x⟩ := loss
  cases place with
  | nil => rfl
  | cons step place =>
      have hstep : step ≠ .name "" := by
        rintro rfl
        obtain ⟨child, hchild, _⟩ := Option.bind_eq_some_iff.mp h
        rw [Datum.at?_cons, hchild] at hname
        contradiction
      exact Import.placePath_of_ne (Step.text_ne_empty hstep) place

-- What a value at a path is lowered to, with the notes on it.
def Datum.lower (path : String) (datum : Datum) : Json × List Import.Note :=
  (datum.json, datum.losses.map (Loss.note path))

theorem Datum.Ordered.isLowered {datum : Datum} (h : datum.Ordered) :
    datum.IsLowered datum.json (datum.losses.map (Loss.note "")) := by
  have hlosses : ∀ loss, loss ∈ datum.losses ↔ _ := fun loss => mem_losses_iff h
  refine ⟨fun path => ?_, h.lowers.null_iff, datum.losses, hlosses, pairwise_losses h, ?_, ?_⟩
  · rw [Json.lookup_eq_at?]
    exact h.lowers.at? _
  · rw [List.map_map]
    rfl
  · intro hname
    rw [List.map_map]
    exact List.map_congr_left fun loss hloss => path_note hname ((hlosses loss).mp hloss).1

end Toml

namespace Import

open Toml (Datum Loss data? members?)

theorem lowerItems?_eq {items : List Toml}
    (hitems : ∀ item ∈ items, ∀ path, lower? path item = item.datum?.map (Datum.lower path))
    (path : String) (position : Nat) :
    lowerItems? path position items = (data? items).map fun data =>
      (Datum.trees data, (Datum.itemLosses position data).map (Loss.note path)) := by
  induction items generalizing position with
  | nil => rfl
  | cons item rest ih =>
      have hrest := ih (fun other hmem => hitems other (List.mem_cons_of_mem _ hmem))
      rw [lowerItems?, data?, hitems item List.mem_cons_self, hrest]
      cases item.datum? with
      | none => rfl
      | some datum =>
          cases data? rest with
          | none => rfl
          | some others =>
              simp only [Option.map_some, Option.bind_eq_bind, Option.bind_some, Datum.lower,
                Datum.trees, Datum.itemLosses, List.map_append, Loss.map_note_under]
              rfl

theorem lowerEntries?_eq {entries : List (String × Toml)}
    (hentries : ∀ entry ∈ entries, ∀ path,
      lower? path entry.2 = entry.2.datum?.map (Datum.lower path)) (path : String) :
    lowerEntries? path entries = (members? entries).map fun members =>
      (Datum.members members, (Datum.entryLosses members).map (Loss.note path)) := by
  induction entries with
  | nil => rfl
  | cons entry rest ih =>
      obtain ⟨name, item⟩ := entry
      have hrest := ih (fun other hmem => hentries other (List.mem_cons_of_mem _ hmem))
      rw [lowerEntries?, members?, hentries (name, item) List.mem_cons_self, hrest]
      cases item.datum? with
      | none => rfl
      | some datum =>
          cases members? rest with
          | none => rfl
          | some others =>
              simp only [Option.map_some, Option.bind_eq_bind, Option.bind_some, Datum.lower,
                Datum.members, Datum.entryLosses, List.map_append, Loss.map_note_under]
              rfl

-- A tree is lowered as what it stands for.
theorem lower?_eq {tree : Toml} (h : tree.Ordered) (path : String) :
    lower? path tree = tree.datum?.map (Datum.lower path) := by
  induction h generalizing path with
  | integer n =>
      rw [lower?, Toml.datum?]
      split
      · rename_i hrange
        have hsame : (Int64.ofInt n).toInt = n := Int64.toInt_ofInt_of_le hrange.1 hrange.2
        rw [Option.map_some, Datum.lower, Datum.json, hsame]
        rfl
      · rfl
  | float x =>
      rw [lower?, Toml.datum?, Option.map_some, Datum.lower, Datum.json, Datum.losses]
      split <;> rfl
  | @array items _ ih =>
      rw [lower?, Toml.datum?, lowerItems?_eq ih]
      cases data? items <;> rfl
  | @table entries _ _ ih =>
      rw [lower?, Toml.datum?, lowerEntries?_eq ih]
      cases entries.head?.filter fun entry => entry.1 = Toml.momentEntry with
      | some entry =>
          obtain ⟨_, held⟩ := entry
          dsimp only
          cases heldMoment? held <;> rfl
      | none => cases members? entries <;> rfl
  | _ => rfl

theorem document?_eq (text : String) :
    document? .toml text = (Toml.document? text).map (Datum.lower "") := by
  rw [document?, Toml.document?]
  cases hparse : Toml.parse? text with
  | none => rfl
  | some entries =>
      have hentries := Toml.ordered_of_parse? hparse
      have hlower := lowerEntries?_eq
        (fun _ hmem path => lower?_eq (hentries.of_mem hmem) path) ""
      simp only [Option.bind_eq_bind, Option.bind_some, hlower]
      cases members? entries <;> rfl

theorem rel_map_lower {found : Option Datum} (h : ∀ datum, found = some datum → datum.Ordered) :
    Option.Rel (fun datum lowered => datum.IsLowered lowered.1 lowered.2) found
      (found.map (Datum.lower "")) := by
  cases found with
  | none => exact .none
  | some datum => exact .some (h datum rfl).isLowered

-- Whatever stands for a value is lowered as that value, and nothing else is lowered.
theorem isLowered_lower? :
    (∀ tree : Toml, tree.Ordered → Option.Rel
      (fun datum lowered => datum.IsLowered lowered.1 lowered.2) tree.datum? (lower? "" tree)) ∧
    ∀ text, Option.Rel (fun datum lowered => datum.IsLowered lowered.1 lowered.2)
      (Toml.document? text) (document? .toml text) := by
  refine ⟨fun tree h => ?_, fun text => ?_⟩
  · rw [lower?_eq h]
    exact rel_map_lower h.datum
  · rw [document?_eq]
    exact rel_map_lower fun _ => Toml.ordered_of_document?

-- Floats that are lost in an array and behind an empty name, and one that is not.
theorem isLowered_of_nested_floats :
    let tree : Toml := .table [("a", .array [.float .nan, .float .zero, .float .infinity]),
      ("b", .table [("", .float .nan), ("c", .integer 1)])]
    tree.Ordered ∧ ∃ datum json, tree.datum? = some datum ∧
      lower? "" tree = some (json, [⟨"a.0", .nan⟩, ⟨"a.2", .infinity⟩, ⟨"b.", .nan⟩]) ∧
      datum.IsLowered json [⟨"a.0", .nan⟩, ⟨"a.2", .infinity⟩, ⟨"b.", .nan⟩] := by
  intro tree
  have hfloats : ∀ item ∈ [Toml.float .nan, .float .zero, .float .infinity], item.Ordered := by
    simp [Toml.Ordered.float]
  have hordered : tree.Ordered := by
    refine .table (List.pairwise_pair.mpr (by decide)) ?_
    refine List.forall_mem_cons.mpr ⟨.array hfloats, ?_⟩
    refine List.forall_mem_singleton.mpr (.table (List.pairwise_pair.mpr (by decide)) ?_)
    exact List.forall_mem_cons.mpr ⟨.float _, List.forall_mem_singleton.mpr (.integer 1)⟩
  have hlower : lower? "" tree =
      some (_, [⟨"a.0", .nan⟩, ⟨"a.2", .infinity⟩, ⟨"b.", .nan⟩]) := rfl
  have hlowered := isLowered_lower?.1 tree hordered
  rw [hlower] at hlowered
  generalize hdatum : tree.datum? = found at hlowered
  cases hlowered with
  | some h => exact ⟨hordered, _, _, rfl, hlower, h⟩

-- Behind an empty first name the path begins anew.
example : (document? .toml "\"\".a = [nan]").map (·.2) = some [⟨"a.0", .nan⟩] := by
  decide +kernel

-- Trees of documents are kept as trees should be.
theorem ordered_of_document? {format : Format} {text : String} {tree : Json} {notes : List Note}
    (h : document? format text = some (tree, notes)) : tree.Ordered := by
  cases format with
  | json =>
      obtain ⟨found, hparse, h⟩ := Option.map_eq_some_iff.mp h
      cases h
      exact Json.ordered_of_parse? hparse
  | toml =>
      rw [document?_eq] at h
      obtain ⟨datum, hdatum, h⟩ := Option.map_eq_some_iff.mp h
      cases h
      exact (Toml.ordered_of_document? hdatum).json

end Import

end Chronicle
