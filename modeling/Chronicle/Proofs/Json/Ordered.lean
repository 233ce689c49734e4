import Chronicle.Json.Reader
import Chronicle.Proofs.SortedMap

-- Trees that are kept as they should be: the members of every object are in the order
-- of their names, one for each name. All that is read from a text is such a tree.

namespace Chronicle.Json

inductive Ordered : Json → Prop where
  | null : Ordered .null
  | bool (b : Bool) : Ordered (.bool b)
  | number (n : JsonNumber) : Ordered (.number n)
  | string (s : String) : Ordered (.string s)
  | array {items : List Json} (h : ∀ item ∈ items, Ordered item) : Ordered (.array items)
  | object {members : List (String × Json)} (ascending : Ascending members)
      (h : ∀ member ∈ members, Ordered member.2) : Ordered (.object members)

variable {members : List (String × Json)}

theorem Ordered.ascending (h : (Json.object members).Ordered) : Ascending members := by
  cases h with
  | object ascending _ => exact ascending

theorem Ordered.of_mem (h : (Json.object members).Ordered) {member : String × Json}
    (hmem : member ∈ members) : member.2.Ordered := by
  cases h with
  | object _ h => exact h member hmem

theorem Ordered.of_get? (h : (Json.object members).Ordered) {name : String} {tree : Json}
    (hget : Entries.get? name members = some tree) : tree.Ordered :=
  h.of_mem ((Entries.get?_eq_some_iff h.ascending).mp hget)

theorem Ordered.of_item {items : List Json} (h : (Json.array items).Ordered) {item : Json}
    (hmem : item ∈ items) : item.Ordered := by
  cases h with
  | array h => exact h item hmem

theorem Ordered.insert (h : (Json.object members).Ordered) (name : String) {tree : Json}
    (htree : tree.Ordered) : (Json.object (Entries.insert name tree members)).Ordered := by
  refine .object (Entries.ascending_insert name tree h.ascending) fun member hmem => ?_
  rcases Entries.mem_insert hmem with rfl | hold
  · exact htree
  · exact h.of_mem hold

theorem Ordered.erase (h : (Json.object members).Ordered) (name : String) :
    (Json.object (Entries.erase name members)).Ordered :=
  .object (Entries.ascending_erase name h.ascending) fun _ hmem =>
    h.of_mem (Entries.mem_erase.mp hmem).1

theorem ordered_empty : (Json.object []).Ordered :=
  .object .nil fun _ h => absurd h List.not_mem_nil

theorem ordered_ofMembers (h : ∀ member ∈ members, member.2.Ordered) :
    (ofMembers members).Ordered := by
  have hfold : ∀ sorted, (Json.object sorted).Ordered → (Json.object (members.foldl
      (fun sorted member => Entries.insert member.1 member.2 sorted) sorted)).Ordered := by
    induction members with
    | nil => exact fun _ hsorted => hsorted
    | cons member rest ih =>
        intro sorted hsorted
        exact ih (fun other hother => h other (List.mem_cons_of_mem _ hother)) _
          (hsorted.insert member.1 (h member List.mem_cons_self))
  exact hfold [] ordered_empty

theorem ordered_of_number? {text rest : List Char} {tree : Json}
    (h : number? text = some (tree, rest)) : tree.Ordered := by
  unfold number? at h
  dsimp only at h
  split at h
  all_goals
    obtain ⟨⟨found, rest⟩, _, h⟩ := Option.bind_eq_some_iff.mp h
    cases h
    exact .number found

theorem ordered_of_word? {word text rest : List Char} {value tree : Json} (hvalue : value.Ordered)
    (h : word? word value text = some (tree, rest)) : tree.Ordered := by
  unfold word? at h
  split at h
  · cases h
    exact hvalue
  · contradiction

-- What the three readers read with some fuel.
structure ReadOrdered (fuel : Nat) : Prop where
  value : ∀ depth text tree rest, value? fuel depth text = some (tree, rest) → tree.Ordered
  items : ∀ depth read text tree rest, (∀ item ∈ read, item.Ordered) →
    items? fuel depth read text = some (tree, rest) → tree.Ordered
  members : ∀ depth read text tree rest, (∀ member ∈ read, member.2.Ordered) →
    members? fuel depth read text = some (tree, rest) → tree.Ordered

variable {fuel : Nat}

theorem ReadOrdered.value_succ (h : ReadOrdered fuel) {depth : Nat} {text rest : List Char}
    {tree : Json} (hread : value? (fuel + 1) depth text = some (tree, rest)) : tree.Ordered := by
  rw [value?] at hread
  split at hread
  · contradiction
  · exact ordered_of_word? .null hread
  · exact ordered_of_word? (.bool true) hread
  · exact ordered_of_word? (.bool false) hread
  · obtain ⟨⟨s, rest⟩, _, hread⟩ := Option.bind_eq_some_iff.mp hread
    cases hread
    exact .string s
  · split at hread
    · contradiction
    · split at hread
      · cases hread
        exact .array fun _ hmem => absurd hmem List.not_mem_nil
      · exact h.items _ [] _ _ _ (fun _ hmem => absurd hmem List.not_mem_nil) hread
  · split at hread
    · contradiction
    · split at hread
      · cases hread
        exact ordered_empty
      · exact h.members _ [] _ _ _ (fun _ hmem => absurd hmem List.not_mem_nil) hread
  · exact ordered_of_number? hread

theorem ReadOrdered.items_succ (h : ReadOrdered fuel) {depth : Nat} {read : List Json}
    {text rest : List Char} {tree : Json} (hitems : ∀ item ∈ read, item.Ordered)
    (hread : items? (fuel + 1) depth read text = some (tree, rest)) : tree.Ordered := by
  obtain ⟨⟨item, left⟩, hitem, hread⟩ := Option.bind_eq_some_iff.mp hread
  have hall : ∀ other ∈ item :: read, other.Ordered :=
    List.forall_mem_cons.mpr ⟨h.value _ _ _ _ hitem, hitems⟩
  dsimp only at hread
  split at hread
  · exact h.items _ _ _ _ _ hall hread
  · cases hread
    exact .array fun other hother => hall other (List.mem_reverse.mp hother)
  · contradiction

theorem ReadOrdered.members_succ (h : ReadOrdered fuel) {depth : Nat} {read : List (String × Json)}
    {text rest : List Char} {tree : Json} (hmembers : ∀ member ∈ read, member.2.Ordered)
    (hread : members? (fuel + 1) depth read text = some (tree, rest)) : tree.Ordered := by
  obtain ⟨⟨name, left⟩, _, hread⟩ := Option.bind_eq_some_iff.mp hread
  dsimp only at hread
  split at hread
  · obtain ⟨⟨value, left⟩, hvalue, hread⟩ := Option.bind_eq_some_iff.mp hread
    have hall : ∀ other ∈ (name, value) :: read, other.2.Ordered :=
      List.forall_mem_cons.mpr ⟨h.value _ _ _ _ hvalue, hmembers⟩
    dsimp only at hread
    split at hread
    · exact h.members _ _ _ _ _ hall hread
    · cases hread
      exact ordered_ofMembers fun other hother => hall other (List.mem_reverse.mp hother)
    · contradiction
  · contradiction

-- By induction on the fuel: what is read with one more step is made of what the
-- readers read with the steps that are left.
theorem readOrdered (fuel : Nat) : ReadOrdered fuel := by
  induction fuel with
  | zero => exact ⟨by simp [value?], by simp [items?], by simp [members?]⟩
  | succ fuel ih =>
      exact ⟨fun _ _ _ _ => ih.value_succ, fun _ _ _ _ _ => ih.items_succ,
        fun _ _ _ _ _ => ih.members_succ⟩

theorem ordered_of_parse? {text : String} {tree : Json} (h : parse? text = some tree) :
    tree.Ordered := by
  obtain ⟨⟨value, rest⟩, hvalue, h⟩ := Option.bind_eq_some_iff.mp h
  dsimp only at h
  split at h
  · cases h
    exact (readOrdered _).value _ _ _ _ hvalue
  · contradiction

end Chronicle.Json
