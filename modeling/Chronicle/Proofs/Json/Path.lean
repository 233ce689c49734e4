import Chronicle.Json.Path
import Chronicle.Proofs.Json.Ordered

-- Paths are followed in two ways. Looking up goes from name to name; taking out splits
-- off what stands behind the last dot, goes to where the rest leads and removes the
-- member there. They agree but for a path that is a dot and one more name: what stands
-- before its dot is the empty path, not an empty name.

namespace Chronicle

namespace Text

-- What stands before and behind the last mark.
def cutLast? (mark : Char) : List Char → Option (List Char × List Char)
  | [] => none
  | c :: rest =>
      match cutLast? mark rest with
      | some (front, last) => some (c :: front, last)
      | none => if c = mark then some ([], rest) else none

variable {mark : Char}

theorem pieces_ne_nil (text : List Char) : pieces mark text ≠ [] := by
  cases text with
  | nil => simp [pieces]
  | cons c rest =>
      rw [pieces]
      split
      · simp
      · split <;> simp

-- A character that is no mark joins the first piece.
theorem pieces_cons_append {c : Char} {text front last : List Char} (hc : c ≠ mark)
    (h : pieces mark text = pieces mark front ++ [last]) :
    pieces mark (c :: text) = pieces mark (c :: front) ++ [last] := by
  have hne : pieces mark front ≠ [] := pieces_ne_nil front
  obtain ⟨first, others, hfront⟩ := List.exists_cons_of_ne_nil hne
  rw [hfront] at h
  simp [pieces, hc, h, hfront]

theorem pieces_eq (text : List Char) :
    pieces mark text =
      match cutLast? mark text with
      | some (front, last) => pieces mark front ++ [last]
      | none => [text] := by
  induction text with
  | nil => rfl
  | cons c rest ih =>
      rw [cutLast?]
      cases hcut : cutLast? mark rest with
      | some cut =>
          obtain ⟨front, last⟩ := cut
          rw [hcut] at ih
          by_cases hc : c = mark
          · simp [pieces, hc, ih]
          · exact pieces_cons_append hc ih
      | none =>
          rw [hcut] at ih
          by_cases hc : c = mark
          · simp [pieces, hc, ih]
          · simp [pieces, hc, ih]

theorem pieces_eq_single_nil {text : List Char} : pieces mark text = [[]] ↔ text = [] := by
  cases text with
  | nil => simp [pieces]
  | cons c rest =>
      by_cases hc : c = mark
      · simp [pieces, hc, pieces_ne_nil]
      · rw [pieces, if_neg hc]
        split <;> simp

end Text

namespace Json

-- The names that a path is looked up by.
def names (path : String) : List String := if path.isEmpty then [] else segments path

theorem lookup_eq_follow (tree : Json) (path : String) :
    tree.lookup path = follow (names path) tree := by
  unfold lookup names
  split <;> rfl

-- Changes the node that names lead to where it stands, and gives back what the change
-- does. Where they lead nowhere nothing is done.
def visit (change : Json → Option Json × Json) : List String → Json → Option Json × Json
  | [], tree => change tree
  | name :: rest, .object members =>
      match Entries.get? name members with
      | some child =>
          let (found, child) := visit change rest child
          (found, .object (Entries.insert name child members))
      | none => (none, .object members)
  | _ :: _, tree => (none, tree)

def detach (name : String) : Json → Option Json × Json
  | .object members => (Entries.get? name members, .object (Entries.erase name members))
  | tree => (none, tree)

-- Takes the node at a path out of a tree and leaves the tree without it.
def takeOut (tree : Json) (path : String) : Option Json × Json :=
  if path.isEmpty then (some tree, .null)
  else
    let (parent, last) := (Text.cutLast? '.' path.toList).getD ([], path.toList)
    let names := if parent = [] then [] else (Text.pieces '.' parent).map String.ofList
    visit (detach (String.ofList last)) names tree

-- Puts a node where names lead.
def place (node : Json) : List String → Json → Json
  | [], _ => node
  | name :: rest, .object members =>
      .object (Entries.insert name
        (place node rest ((Entries.get? name members).getD .null)) members)
  | _ :: _, tree => tree

-- What is left of a tree without the node at some names: whatever is elsewhere, and
-- with the node put back the whole tree.
structure Leaves (names : List String) (tree node rest : Json) : Prop where
  ordered : rest.Ordered
  gone : names ≠ [] → ∀ below, follow (names ++ below) rest = none
  elsewhere : ∀ other, ¬ names <+: other → ¬ other <+: names →
    follow other rest = follow other tree
  restored : place node names rest = tree

-- The node that is taken is the one that names lead to.
structure Takes (names : List String) (tree : Json) (taken : Option (Json × Json)) : Prop where
  node_eq : taken.map (·.1) = follow names tree
  leaves : ∀ node rest, taken = some (node, rest) → Leaves names tree node rest

variable {tree node rest : Json} {members : List (String × Json)} {name : String}

@[simp] theorem follow_cons_object (names : List String) :
    follow (name :: names) (.object members) =
      (Entries.get? name members).bind (follow names) := rfl

theorem Ordered.of_follow {names : List String} (h : tree.Ordered)
    (hfollow : follow names tree = some node) : node.Ordered := by
  induction names generalizing tree with
  | nil =>
      cases hfollow
      exact h
  | cons name names ih =>
      cases tree with
      | object members =>
          obtain ⟨child, hchild, hfollow⟩ := Option.bind_eq_some_iff.mp hfollow
          exact ih (h.of_get? hchild) hfollow
      | _ => contradiction

theorem removeAt?_cons_eq_some {names : List String} {last : String}
    (h : removeAt? (name :: names) last tree = some (node, rest)) :
    ∃ members child left, tree = .object members ∧ Entries.get? name members = some child ∧
      removeAt? names last child = some (node, left) ∧
      rest = .object (Entries.insert name left members) := by
  cases tree with
  | object members =>
      obtain ⟨child, hchild, h⟩ := Option.bind_eq_some_iff.mp h
      obtain ⟨⟨found, left⟩, htaken, h⟩ := Option.bind_eq_some_iff.mp h
      cases h
      exact ⟨members, child, left, rfl, hchild, htaken, rfl⟩
  | _ => contradiction

theorem remove?_eq_some (h : tree.remove? name = some (node, rest)) :
    ∃ members, tree = .object members ∧ Entries.get? name members = some node ∧
      rest = .object (Entries.erase name members) := by
  cases tree with
  | object members =>
      obtain ⟨found, hfound, h⟩ := Option.bind_eq_some_iff.mp h
      cases h
      exact ⟨members, rfl, hfound, rfl⟩
  | _ => contradiction

theorem removeAt?_eq_follow (names : List String) (last : String) (tree : Json) :
    (removeAt? names last tree).map (·.1) = follow (names ++ [last]) tree := by
  induction names generalizing tree with
  | nil =>
      cases tree with
      | object members =>
          cases hget : Entries.get? last members <;> simp [removeAt?, remove?, follow, hget]
      | _ => rfl
  | cons name names ih =>
      cases tree with
      | object members =>
          rw [List.cons_append, follow_cons_object]
          cases hget : Entries.get? name members with
          | none => simp [removeAt?, hget]
          | some child =>
              rw [Option.bind_some, ← ih child]
              cases htaken : removeAt? names last child <;> simp [removeAt?, hget, htaken]
      | _ => rfl

theorem leaves_erase (hordered : (Json.object members).Ordered)
    (hnode : Entries.get? name members = some node) :
    Leaves [name] (.object members) node (.object (Entries.erase name members)) := by
  refine ⟨hordered.erase name, ?_, ?_, ?_⟩
  · intro _ below
    rw [List.singleton_append, follow_cons_object, Entries.get?_erase hordered.ascending,
      if_pos rfl]
    rfl
  · intro other hbeyond habove
    cases other with
    | nil => exact absurd List.nil_prefix habove
    | cons first below =>
        have hne : first ≠ name := by
          rintro rfl
          exact hbeyond (List.prefix_append [first] below)
        rw [follow_cons_object, follow_cons_object, Entries.get?_erase hordered.ascending,
          if_neg hne]
  · rw [place, place, Entries.insert_erase hordered.ascending hnode]

-- A node that is taken out of a member is taken out of the object.
theorem Leaves.within {names : List String} {child left : Json} (h : Leaves names child node left)
    (hnames : names ≠ []) (hordered : (Json.object members).Ordered)
    (hchild : Entries.get? name members = some child) :
    Leaves (name :: names) (.object members) node (.object (Entries.insert name left members)) := by
  have hget : ∀ other, Entries.get? other (Entries.insert name left members) =
      if other = name then some left else Entries.get? other members := fun other =>
    Entries.get?_insert hordered.ascending other left
  refine ⟨hordered.insert name h.ordered, ?_, ?_, ?_⟩
  · intro _ below
    rw [List.cons_append, follow_cons_object, hget, if_pos rfl]
    exact h.gone hnames below
  · intro other hbeyond habove
    cases other with
    | nil => exact absurd List.nil_prefix habove
    | cons first below =>
        rw [follow_cons_object, follow_cons_object, hget]
        split
        · rename_i hsame
          subst hsame
          rw [hchild]
          exact h.elsewhere below
            (fun hprefix => hbeyond (List.cons_prefix_cons.mpr ⟨rfl, hprefix⟩))
            (fun hprefix => habove (List.cons_prefix_cons.mpr ⟨rfl, hprefix⟩))
        · rfl
  · rw [place, hget, if_pos rfl, Option.getD_some, h.restored,
      Entries.insert_insert hordered.ascending, Entries.insert_of_get? hordered.ascending hchild]

theorem leaves_removeAt? {names : List String} {last : String} (hordered : tree.Ordered)
    (h : removeAt? names last tree = some (node, rest)) :
    Leaves (names ++ [last]) tree node rest := by
  induction names generalizing tree rest with
  | nil =>
      obtain ⟨members, rfl, hnode, rfl⟩ := remove?_eq_some h
      exact leaves_erase hordered hnode
  | cons name names ih =>
      obtain ⟨members, child, left, rfl, hchild, htaken, rfl⟩ := removeAt?_cons_eq_some h
      exact (ih (hordered.of_get? hchild) htaken).within (by simp) hordered hchild

theorem takes_removeAt? (names : List String) (last : String) (hordered : tree.Ordered) :
    Takes (names ++ [last]) tree (removeAt? names last tree) :=
  ⟨removeAt?_eq_follow names last tree, fun _ _ => leaves_removeAt? hordered⟩

-- Where nothing is found the tree is the same as before.
theorem visit_detach (names : List String) (last : String) (hordered : tree.Ordered) :
    visit (detach last) names tree = ((removeAt? names last tree).map (·.1),
      ((removeAt? names last tree).map (·.2)).getD tree) := by
  induction names generalizing tree with
  | nil =>
      cases tree with
      | object members =>
          cases hget : Entries.get? last members with
          | some node => simp [visit, detach, removeAt?, remove?, hget]
          | none =>
              simp [visit, detach, removeAt?, remove?, hget,
                Entries.erase_of_get? hordered.ascending hget]
      | _ => rfl
  | cons name names ih =>
      cases tree with
      | object members =>
          cases hget : Entries.get? name members with
          | none => simp [visit, removeAt?, hget]
          | some child =>
              rw [visit, hget]
              dsimp only
              rw [ih (hordered.of_get? hget)]
              cases htaken : removeAt? names last child with
              | some taken => simp [removeAt?, hget, htaken]
              | none =>
                  simp [removeAt?, hget, htaken, Entries.insert_of_get? hordered.ascending hget]
      | _ => rfl

section Paths

variable {path : String}

theorem segments_eq (path : String) :
    segments path =
      match Text.cutLast? '.' path.toList with
      | some (parent, last) =>
          (Text.pieces '.' parent).map String.ofList ++ [String.ofList last]
      | none => [path] := by
  rw [segments, Text.pieces_eq]
  cases Text.cutLast? '.' path.toList with
  | some cut => simp
  | none => simp

theorem map_ofList_pieces_eq {text : List Char} :
    (Text.pieces '.' text).map String.ofList = [""] ↔ text = [] := by
  have hempty : [""] = [[]].map String.ofList := rfl
  rw [hempty, (List.map_injective_iff.mpr fun _ _ => String.ofList_injective).eq_iff,
    Text.pieces_eq_single_nil]

-- The last dot is found by the names: they are those before it and the one behind it.
theorem takeOut_eq (path : String) (hordered : tree.Ordered) :
    tree.takeOut path =
      ((tree.take? path).map (·.1), ((tree.take? path).map (·.2)).getD tree) := by
  unfold takeOut take?
  by_cases hempty : path.isEmpty
  · simp [hempty]
  · simp only [hempty, if_false, Bool.false_eq_true]
    rw [← visit_detach _ _ hordered, above, segments_eq]
    cases Text.cutLast? '.' path.toList with
    | none => simp
    | some cut =>
        obtain ⟨parent, last⟩ := cut
        by_cases hparent : parent = []
        · subst hparent
          simp [Text.pieces]
        · have hnames : (Text.pieces '.' parent).map String.ofList ≠ [""] :=
            fun h => hparent (map_ofList_pieces_eq.mp h)
          dsimp only [Option.getD_some]
          rw [if_neg hparent, List.dropLast_concat, List.getLastD_concat]
          split
          · rename_i hsingle
            exact absurd hsingle hnames
          · rfl

theorem segments_ne_nil (path : String) : segments path ≠ [] := by
  simp [segments, Text.pieces_ne_nil]

theorem dropLast_append_last (path : String) :
    (segments path).dropLast ++ [(segments path).getLastD ""] = segments path := by
  have hne := segments_ne_nil path
  rw [List.getLastD_eq_getLast?, List.getLast?_eq_some_getLast hne, Option.getD_some]
  exact List.dropLast_concat_getLast hne

theorem above_of_leading_dot {name : String} (h : segments path = ["", name]) :
    above path ++ [(segments path).getLastD ""] = [name] := by
  rw [above, h]
  rfl

theorem above_append_last (h : ∀ name, segments path ≠ ["", name]) :
    above path ++ [(segments path).getLastD ""] = segments path := by
  have hlast := dropLast_append_last path
  rw [above]
  split
  · rename_i hdrop
    rw [hdrop] at hlast
    exact absurd hlast.symm (h _)
  · exact hlast

theorem Ordered.of_take? (h : tree.Ordered) (htaken : tree.take? path = some (node, rest)) :
    node.Ordered := by
  unfold take? at htaken
  split at htaken
  · cases htaken
    exact h
  · have hfollow := removeAt?_eq_follow (above path) ((segments path).getLastD "") tree
    rw [htaken] at hfollow
    exact h.of_follow hfollow.symm

theorem names_of_leading_dot {name : String} (h : segments path = ["", name]) :
    path.isEmpty = false ∧ names path = ["", name] := by
  have hpath : path.isEmpty = false := by
    rw [Bool.eq_false_iff, ne_eq, String.isEmpty_iff]
    rintro rfl
    cases h
  exact ⟨hpath, by simp [names, hpath, h]⟩

theorem takes_of_leading_dot {name : String} (h : segments path = ["", name])
    (hordered : tree.Ordered) : Takes [name] tree (tree.take? path) := by
  have htakes := takes_removeAt? (above path) ((segments path).getLastD "") hordered
  rw [above_of_leading_dot h] at htakes
  rw [take?, (names_of_leading_dot h).1]
  exact htakes

theorem takes_names (h : ∀ name, segments path ≠ ["", name]) (hordered : tree.Ordered) :
    Takes (names path) tree (tree.take? path) := by
  by_cases hempty : path.isEmpty
  · rw [take?, names, if_pos hempty, if_pos hempty]
    refine ⟨rfl, ?_⟩
    rintro node rest ⟨rfl, rfl⟩
    exact ⟨.null, fun hne => absurd rfl hne,
      fun other hbeyond => absurd List.nil_prefix hbeyond, rfl⟩
  · have htakes := takes_removeAt? (above path) ((segments path).getLastD "") hordered
    rw [above_append_last h] at htakes
    rw [take?, names, if_neg hempty, if_neg hempty]
    exact htakes

end Paths

-- Taking a node leaves all else as it is. It is the node that looking up finds unless
-- the path is a dot and one more name, which is taken as the name alone.
theorem takes_iff (path : String) :
    (∀ tree : Json, tree.lookup path = follow (names path) tree) ∧
    (∀ tree : Json, tree.Ordered → tree.takeOut path =
      ((tree.take? path).map (·.1), ((tree.take? path).map (·.2)).getD tree)) ∧
    ((∀ tree : Json, tree.Ordered → Takes (names path) tree (tree.take? path)) ↔
      ∀ name, segments path ≠ ["", name]) ∧
    ∀ name, segments path = ["", name] →
      ∀ tree : Json, tree.Ordered → Takes [name] tree (tree.take? path) := by
  refine ⟨fun tree => tree.lookup_eq_follow path, fun tree => takeOut_eq path, ?_, ?_⟩
  · constructor
    · intro hall name hpath
      -- In an object of that one name nothing is found.
      have hordered : (Json.object [(name, .null)]).Ordered := ordered_empty.insert name .null
      have hmem : ∀ other tree, Entries.get? other [(name, Json.null)] = some tree ↔
          other = name ∧ tree = .null := by
        intro other tree
        rw [Entries.get?_eq_some_iff hordered.ascending, List.mem_singleton, Prod.mk.injEq]
      have hagree := (hall _ hordered).node_eq
      rw [(takes_of_leading_dot hpath hordered).node_eq, (names_of_leading_dot hpath).2,
        follow_cons_object, follow_cons_object, (hmem name .null).mpr ⟨rfl, rfl⟩] at hagree
      obtain ⟨tree, htree, hnull⟩ := Option.bind_eq_some_iff.mp hagree.symm
      rw [((hmem "" tree).mp htree).2] at hnull
      contradiction
    · exact fun hpath tree => takes_names hpath
  · exact fun name hpath tree => takes_of_leading_dot hpath

-- Entries under a name in an object, which are taken and leave the object behind.
theorem takes_of_nested_name :
    let tree := Json.object [("a", .object [("", .array []), ("b", .null)])]
    tree.Ordered ∧ (∀ name, segments "a." ≠ ["", name]) ∧
      Takes ["a", ""] tree (tree.take? "a.") := by
  intro tree
  have hinner : (Json.object [("", .array []), ("b", .null)]).Ordered :=
    (ordered_empty.insert "b" .null).insert "" (.array fun _ h => absurd h List.not_mem_nil)
  have hordered : tree.Ordered := ordered_empty.insert "a" hinner
  have hpath : ∀ name, segments "a." ≠ ["", name] := by
    have hsegments : segments "a." = ["a", ""] := rfl
    simp [hsegments]
  exact ⟨hordered, hpath, ((takes_iff "a.").2.2.1.mpr hpath) tree hordered⟩

-- What is taken is not what is found.
theorem taken_of_leading_dot :
    let tree := Json.object [("x", .array [])]
    tree.Ordered ∧ tree.take? ".x" = some (.array [], .object []) ∧ tree.lookup ".x" = none := by
  intro tree
  refine ⟨ordered_empty.insert "x" (.array fun _ h => absurd h List.not_mem_nil), ?_, ?_⟩
  · rfl
  · rfl

end Json

end Chronicle
