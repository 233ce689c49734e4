import Chronicle.Proofs.SortedMap
import Chronicle.Toml.Reader

-- The entries of every table that is read from a text are in the order of their names,
-- one for each name: every way to change a table while it is read leaves it so.

namespace Chronicle.Toml

inductive Ordered : Toml → Prop where
  | string (s : String) : Ordered (.string s)
  | integer (n : Int) : Ordered (.integer n)
  | float (x : Binary64) : Ordered (.float x)
  | boolean (b : Bool) : Ordered (.boolean b)
  | moment (m : Moment) : Ordered (.moment m)
  | illegible : Ordered .illegible
  | array {items : List Toml} (h : ∀ item ∈ items, Ordered item) : Ordered (.array items)
  | table {entries : List (String × Toml)} (ascending : Ascending entries)
      (h : ∀ entry ∈ entries, Ordered entry.2) : Ordered (.table entries)

theorem Ordered.ascending {entries : List (String × Toml)} (h : (Toml.table entries).Ordered) :
    Ascending entries := by
  cases h with
  | table ascending _ => exact ascending

theorem Ordered.of_mem {entries : List (String × Toml)} (h : (Toml.table entries).Ordered)
    {entry : String × Toml} (hmem : entry ∈ entries) : entry.2.Ordered := by
  cases h with
  | table _ h => exact h entry hmem

namespace Tables

inductive Sound : Node → Prop where
  | leaf {v : Toml} (h : v.Ordered) : Sound (.leaf v)
  | table (origin : Origin) {entries : List (String × Node)} (ascending : Ascending entries)
      (h : ∀ entry ∈ entries, Sound entry.2) : Sound (.table origin entries)
  | tables {newest : List (String × Node)} {older : List (List (String × Node))}
      (ascending : ∀ entries ∈ newest :: older, Ascending entries)
      (h : ∀ entries ∈ newest :: older, ∀ entry ∈ entries, Sound entry.2) :
      Sound (.tables newest older)

-- The entries of a table that is being read.
structure SoundEntries (entries : List (String × Node)) : Prop where
  ascending : Ascending entries
  sound : ∀ entry ∈ entries, Sound entry.2

theorem soundEntries_nil : SoundEntries [] := ⟨.nil, fun _ h => absurd h List.not_mem_nil⟩

variable {entries changed : List (String × Node)} {node : Node} {name : String}

theorem SoundEntries.table (h : SoundEntries entries) (origin : Origin) :
    Sound (.table origin entries) := .table origin h.ascending h.sound

theorem soundEntries_of_table {origin : Origin} (h : Sound (.table origin entries)) :
    SoundEntries entries := by
  cases h with
  | table _ ascending h => exact ⟨ascending, h⟩

theorem sound_tables_iff {newest : List (String × Node)} {older : List (List (String × Node))} :
    Sound (.tables newest older) ↔ ∀ entries ∈ newest :: older, SoundEntries entries := by
  constructor
  · intro h
    cases h with
    | tables ascending h => exact fun entries hmem => ⟨ascending entries hmem, h entries hmem⟩
  · exact fun h => .tables (fun entries hmem => (h entries hmem).ascending)
      fun entries hmem => (h entries hmem).sound

theorem SoundEntries.insert (h : SoundEntries entries) (name : String) (hnode : Sound node) :
    SoundEntries (Entries.insert name node entries) := by
  refine ⟨Entries.ascending_insert name node h.ascending, fun entry hmem => ?_⟩
  rcases Entries.mem_insert hmem with rfl | hold
  · exact hnode
  · exact h.sound entry hold

theorem SoundEntries.get? (h : SoundEntries entries)
    (hget : Entries.get? name entries = some node) : Sound node :=
  h.sound (name, node) ((Entries.get?_eq_some_iff h.ascending).mp hget)

theorem values_eq_map (entries : List (String × Node)) :
    values entries = entries.map fun entry => (entry.1, value entry.2) := by
  induction entries with
  | nil => rfl
  | cons entry rest ih => rw [values, ih, List.map_cons]

theorem items_eq_append (older : List (List (String × Node))) (newer : List Toml) :
    items older newer = (older.map fun entries => .table (values entries)).reverse ++ newer := by
  induction older generalizing newer with
  | nil => rfl
  | cons entries older ih =>
      rw [items, ih, List.map_cons, List.reverse_cons, List.append_assoc]
      rfl

theorem ordered_table_values (ascending : Ascending entries)
    (h : ∀ entry ∈ entries, (value entry.2).Ordered) : (Toml.table (values entries)).Ordered := by
  rw [values_eq_map]
  exact .table (List.pairwise_map.mpr ascending) (List.forall_mem_map.mpr h)

theorem Sound.ordered (h : Sound node) : (value node).Ordered := by
  induction h with
  | leaf h => exact h
  | table origin ascending _ ih => exact ordered_table_values ascending ih
  | @tables newest older ascending _ ih =>
      rw [value, items_eq_append]
      refine .array fun item hitem => ?_
      rw [List.mem_append, List.mem_reverse, List.mem_map, List.mem_singleton] at hitem
      rcases hitem with ⟨entries, hmem, rfl⟩ | rfl
      · exact ordered_table_values (ascending entries (List.mem_cons_of_mem _ hmem))
          (ih entries (List.mem_cons_of_mem _ hmem))
      · exact ordered_table_values (ascending newest List.mem_cons_self)
          (ih newest List.mem_cons_self)

theorem SoundEntries.ordered (h : SoundEntries entries) : (Toml.table (values entries)).Ordered :=
  ordered_table_values h.ascending fun entry hentry => (h.sound entry hentry).ordered

-- A change somewhere below keeps all tables sound if it does so where it is made.
theorem SoundEntries.modifyAt? {dotted : Bool}
    {change : Origin → List (String × Node) → Option (List (String × Node))}
    (hchange : ∀ origin entries changed, SoundEntries entries →
      change origin entries = some changed → SoundEntries changed)
    {path : List String} {origin : Origin} (h : SoundEntries entries)
    (hmodify : Tables.modifyAt? dotted change path origin entries = some changed) :
    SoundEntries changed := by
  induction path generalizing origin entries changed with
  | nil => exact hchange origin entries changed h hmodify
  | cons name path ih =>
      rw [Tables.modifyAt?] at hmodify
      split at hmodify
      · obtain ⟨inner, hinner, hmodify⟩ := Option.bind_eq_some_iff.mp hmodify
        cases hmodify
        exact h.insert name ((ih soundEntries_nil hinner).table _)
      · rename_i hget
        split at hmodify
        · contradiction
        · obtain ⟨inner, hinner, hmodify⟩ := Option.bind_eq_some_iff.mp hmodify
          cases hmodify
          exact h.insert name ((ih (soundEntries_of_table (h.get? hget)) hinner).table _)
      · rename_i newest older hget
        have hall := sound_tables_iff.mp (h.get? hget)
        obtain ⟨inner, hinner, hmodify⟩ := Option.bind_eq_some_iff.mp hmodify
        cases hmodify
        have hinner := ih (hall newest List.mem_cons_self) hinner
        exact h.insert name (sound_tables_iff.mpr (List.forall_mem_cons.mpr
          ⟨hinner, fun entries hmem => hall entries (List.mem_cons_of_mem _ hmem)⟩))
      · contradiction

theorem SoundEntries.find? {path : List String} (h : SoundEntries entries)
    (hfind : Tables.find? path entries = some node) : Sound node := by
  fun_induction Tables.find? path entries with
  | case1 => contradiction
  | case2 => exact h.get? hfind
  | case3 _ _ _ _ _ _ hget ih => exact ih (soundEntries_of_table (h.get? hget)) hfind
  | case4 _ _ _ _ _ _ hget ih =>
      exact ih (sound_tables_iff.mp (h.get? hget) _ List.mem_cons_self) hfind
  | case5 => contradiction

theorem SoundEntries.addValue? {path : List String} {v : Toml} (h : SoundEntries entries)
    (hv : v.Ordered) (hadd : Tables.addValue? path name v entries = some changed) :
    SoundEntries changed := by
  refine h.modifyAt? ?_ hadd
  intro origin entries changed hentries hchange
  split at hchange
  · unfold Tables.add? at hchange
    split at hchange
    · cases hchange
      exact hentries.insert name (.leaf hv)
    · contradiction
  · contradiction

structure State.Sound (state : State) : Prop where
  closed : SoundEntries state.closed
  current : SoundEntries state.current

variable {state next : State}

theorem State.Sound.close? (h : state.Sound) (hclose : state.close? = some changed) :
    SoundEntries changed := by
  unfold State.close? at hclose
  split at hclose
  · cases hclose
    exact h.current
  · rename_i header _
    refine h.closed.modifyAt? ?_ hclose
    intro origin entries changed hentries hchange
    split at hchange
    · split at hchange
      · cases hchange
        exact hentries.insert _ (sound_tables_iff.mpr (by simpa using h.current))
      · rename_i newest older hget
        cases hchange
        exact hentries.insert _ (sound_tables_iff.mpr (List.forall_mem_cons.mpr
          ⟨h.current, sound_tables_iff.mp (hentries.get? hget)⟩))
      · contradiction
    · cases hchange
      exact hentries.insert _ (h.current.table _)

theorem State.Sound.open? {header : Header} (h : state.Sound)
    (hopen : state.open? header = some next) : next.Sound := by
  obtain ⟨closed, hclose, hopen⟩ := Option.bind_eq_some_iff.mp hopen
  have hclosed := h.close? hclose
  split at hopen
  · cases hopen
    exact ⟨hclosed, soundEntries_nil⟩
  · split at hopen
    · cases hopen
      exact ⟨hclosed, soundEntries_nil⟩
    · rename_i hfind
      cases hopen
      exact ⟨hclosed, soundEntries_of_table (hclosed.find? hfind)⟩
    · contradiction

theorem State.Sound.add? {path : List String} {v : Toml} (h : state.Sound) (hv : v.Ordered)
    (hadd : state.add? path name v = some next) : next.Sound := by
  obtain ⟨current, hcurrent, hadd⟩ := Option.bind_eq_some_iff.mp hadd
  cases hadd
  exact ⟨h.closed, h.current.addValue? hv hcurrent⟩

end Tables

namespace Reader

open Tables (SoundEntries soundEntries_nil)

variable {text rest : List Char} {v : Toml}

theorem ordered_integer (negative : Bool) (base : Nat) (digits : List Char) :
    (integer negative base digits).Ordered := by
  unfold integer
  dsimp only
  split
  · exact .integer _
  · exact .illegible

theorem ordered_of_based? {base : Nat} {isDigit : Char → Bool}
    (h : based? base isDigit text = some v) : v.Ordered := by
  obtain ⟨digits, _, h⟩ := Option.bind_eq_some_iff.mp h
  split at h
  · cases h
    split
    · exact .illegible
    · exact ordered_integer _ _ _
  · contradiction

theorem ordered_of_decimal? (h : decimal? text = some v) : v.Ordered := by
  unfold decimal? at h
  generalize sign text = parts at h
  obtain ⟨digits, _, h⟩ := Option.bind_eq_some_iff.mp h
  generalize sign digits = others at h
  dsimp only at h
  split at h
  · cases h
    split
    · exact ordered_integer _ _ _
    · exact .illegible
  · contradiction

theorem ordered_of_float? (h : float? text = some v) : v.Ordered := by
  unfold float? at h
  generalize sign text = parts at h
  obtain ⟨digits, _, h⟩ := Option.bind_eq_some_iff.mp h
  obtain ⟨x, _, h⟩ := Option.bind_eq_some_iff.mp h
  split at h
  · cases h
    split
    · exact .float _
    · exact .illegible
  · contradiction

theorem ordered_of_number? (h : number? text = some v) : v.Ordered := by
  unfold number? at h
  split at h
  · exact ordered_of_based? h
  · exact ordered_of_based? h
  · exact ordered_of_based? h
  · split at h
    · exact ordered_of_float? h
    · exact ordered_of_decimal? h

theorem ordered_of_scalar? (h : scalar? text = some v) : v.Ordered := by
  simp only [scalar?, Option.orElse_eq_orElse, Option.orElse_eq_or, Option.or_eq_some_iff,
    Option.map_eq_some_iff] at h
  rcases h with ⟨b, _, rfl⟩ | ⟨_, ⟨x, _, rfl⟩ | ⟨_, ⟨m, _, rfl⟩ | ⟨_, h⟩⟩⟩
  · exact .boolean b
  · exact .float x
  · exact .moment m
  · exact ordered_of_number? h

-- What the three readers read with some fuel.
structure ReadOrdered (fuel : Nat) : Prop where
  value : ∀ depth text v rest, value? fuel depth text = some (v, rest) → v.Ordered
  items : ∀ depth read text v rest, (∀ item ∈ read, item.Ordered) →
    items? fuel depth read text = some (v, rest) → v.Ordered
  members : ∀ depth read text v rest, SoundEntries read →
    members? fuel depth read text = some (v, rest) → v.Ordered

variable {fuel depth : Nat}

theorem ReadOrdered.value_succ (h : ReadOrdered fuel)
    (hread : value? (fuel + 1) depth text = some (v, rest)) : v.Ordered := by
  rw [value?.eq_def] at hread
  dsimp only at hread
  split at hread
  · split at hread
    · contradiction
    · exact h.items _ [] _ _ _ (fun _ hmem => absurd hmem List.not_mem_nil) hread
  · split at hread
    · contradiction
    · exact h.members _ [] _ _ _ soundEntries_nil hread
  · obtain ⟨⟨s, left⟩, _, hread⟩ := Option.bind_eq_some_iff.mp hread
    cases hread
    exact .string s
  · obtain ⟨⟨s, left⟩, _, hread⟩ := Option.bind_eq_some_iff.mp hread
    cases hread
    exact .string s
  · obtain ⟨found, hscalar, hread⟩ := Option.bind_eq_some_iff.mp hread
    cases hread
    exact ordered_of_scalar? hscalar

theorem ReadOrdered.items_succ (h : ReadOrdered fuel) {read : List Toml}
    (hitems : ∀ item ∈ read, item.Ordered)
    (hread : items? (fuel + 1) depth read text = some (v, rest)) : v.Ordered := by
  rw [items?] at hread
  obtain ⟨filled, _, hread⟩ := Option.bind_eq_some_iff.mp hread
  have hreverse : ∀ {read : List Toml}, (∀ item ∈ read, item.Ordered) →
      (Toml.array read.reverse).Ordered := fun hall =>
    .array fun item hitem => hall item (List.mem_reverse.mp hitem)
  split at hread
  · cases hread
    exact hreverse hitems
  · obtain ⟨⟨item, left⟩, hitem, hread⟩ := Option.bind_eq_some_iff.mp hread
    obtain ⟨filled, _, hread⟩ := Option.bind_eq_some_iff.mp hread
    have hall : ∀ other ∈ item :: read, other.Ordered :=
      List.forall_mem_cons.mpr ⟨h.value _ _ _ _ hitem, hitems⟩
    split at hread
    · exact h.items _ _ _ _ _ hall hread
    · cases hread
      exact hreverse hall
    · contradiction

theorem ReadOrdered.members_succ (h : ReadOrdered fuel) {read : List (String × Node)}
    (hentries : SoundEntries read)
    (hread : members? (fuel + 1) depth read text = some (v, rest)) : v.Ordered := by
  rw [members?] at hread
  obtain ⟨filled, _, hread⟩ := Option.bind_eq_some_iff.mp hread
  split at hread
  · cases hread
    exact hentries.ordered
  · obtain ⟨⟨path, name, left⟩, _, hread⟩ := Option.bind_eq_some_iff.mp hread
    obtain ⟨filled, _, hread⟩ := Option.bind_eq_some_iff.mp hread
    dsimp only at hread
    split at hread
    · obtain ⟨filled, _, hread⟩ := Option.bind_eq_some_iff.mp hread
      obtain ⟨⟨found, left⟩, hvalue, hread⟩ := Option.bind_eq_some_iff.mp hread
      obtain ⟨added, hadd, hread⟩ := Option.bind_eq_some_iff.mp hread
      obtain ⟨filled, _, hread⟩ := Option.bind_eq_some_iff.mp hread
      have hadded : SoundEntries added := hentries.addValue? (h.value _ _ _ _ hvalue) hadd
      split at hread
      · exact h.members _ _ _ _ _ hadded hread
      · cases hread
        exact hadded.ordered
      · contradiction
    · contradiction

-- By induction on the fuel: what is read with one more step is made of what the
-- readers read with the steps that are left.
theorem readOrdered (fuel : Nat) : ReadOrdered fuel := by
  induction fuel with
  | zero => exact ⟨by simp [value?], by simp [items?], by simp [members?]⟩
  | succ fuel ih =>
      exact ⟨fun _ _ _ _ => ih.value_succ, fun _ _ _ _ _ => ih.items_succ,
        fun _ _ _ _ _ => ih.members_succ⟩

theorem ordered_of_readEntry {path : List String} {name : String}
    (h : entry? fuel text = some ((path, name, v), rest)) : v.Ordered := by
  obtain ⟨⟨path, name, left⟩, _, h⟩ := Option.bind_eq_some_iff.mp h
  dsimp only at h
  split at h
  · obtain ⟨⟨found, left⟩, hvalue, h⟩ := Option.bind_eq_some_iff.mp h
    cases h
    exact (readOrdered _).value _ _ _ _ hvalue
  · contradiction

theorem sound_of_lines? {state last : Tables.State} (h : state.Sound)
    (hlines : lines? fuel state text = some last) : last.Sound := by
  induction fuel generalizing state text with
  | zero => contradiction
  | succ fuel ih =>
      rw [lines?] at hlines
      split at hlines
      · cases hlines
        exact h
      · obtain ⟨⟨header, left⟩, _, hlines⟩ := Option.bind_eq_some_iff.mp hlines
        obtain ⟨next, hopen, hlines⟩ := Option.bind_eq_some_iff.mp hlines
        obtain ⟨ended, _, hlines⟩ := Option.bind_eq_some_iff.mp hlines
        exact ih (h.open? hopen) hlines
      · split at hlines
        · obtain ⟨ended, _, hlines⟩ := Option.bind_eq_some_iff.mp hlines
          exact ih h hlines
        · obtain ⟨⟨⟨path, name, v⟩, left⟩, hentry, hlines⟩ := Option.bind_eq_some_iff.mp hlines
          obtain ⟨next, hadd, hlines⟩ := Option.bind_eq_some_iff.mp hlines
          obtain ⟨ended, _, hlines⟩ := Option.bind_eq_some_iff.mp hlines
          exact ih (h.add? (ordered_of_readEntry hentry) hadd) hlines

end Reader

theorem ordered_of_parse? {text : String} {entries : List (String × Toml)}
    (h : parse? text = some entries) : (Toml.table entries).Ordered := by
  obtain ⟨state, hlines, h⟩ := Option.bind_eq_some_iff.mp h
  obtain ⟨closed, hclose, h⟩ := Option.bind_eq_some_iff.mp h
  cases h
  have hempty : Tables.State.empty.Sound := ⟨Tables.soundEntries_nil, Tables.soundEntries_nil⟩
  exact ((Reader.sound_of_lines? hempty hlines).close? hclose).ordered

end Chronicle.Toml
