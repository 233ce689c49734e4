import Chronicle.Proofs.Bytes
import Chronicle.Proofs.Keyed
import Chronicle.Proofs.Payload
import Mathlib.Data.List.Induction

-- Payloads as lists of fields that are changed in place: a field is found by its name,
-- and the place of a new one is found by halving. The list is in order only because
-- every step leaves it so.

namespace Chronicle

theorem Field.before_iff {first second : Field} :
    first.Before second ↔ first.tag < second.tag ∨
      first.tag = second.tag ∧ Bytes.ofText first.name < Bytes.ofText second.name := by
  rw [Field.Before, Bytes.ofText_lt_ofText_iff]

theorem Field.not_before_self (field : Field) : ¬ field.Before field := by
  simp [Field.Before, Std.lt_irrefl]

namespace Fields

-- The first place from `low` on whose field fails a test, when those before it pass
-- and those from `high` on fail.
def partitionPointFrom (test : Field → Bool) (fields : List Field) (low high : Nat) : Nat :=
  if low < high then
    let middle := low + (high - low) / 2
    if (fields[middle]?).any test then partitionPointFrom test fields (middle + 1) high
    else partitionPointFrom test fields low middle
  else low
termination_by high - low

def partitionPoint (test : Field → Bool) (fields : List Field) : Nat :=
  partitionPointFrom test fields 0 fields.length

-- The field of that name, and the fields without it.
def remove (name : String) (fields : List Field) : Option Field × List Field :=
  match fields.findIdx? fun field => field.name = name with
  | some place => (fields[place]?, fields.eraseIdx place)
  | none => (none, fields)

-- The field that is replaced, and the fields with the new one.
def insert (field : Field) (fields : List Field) : Option Field × List Field :=
  let (previous, others) := remove field.name fields
  (previous, others.insertIdx (partitionPoint (fun other => other.Before field) others) field)

def collect (fields : List Field) : List Field :=
  fields.foldl (fun kept field => (insert field kept).2) []

section PartitionPoint

variable {test : Field → Bool} {front back : List Field}

-- The search stays around the end of the fields that pass.
theorem partitionPointFrom_eq (hfront : ∀ field ∈ front, test field = true)
    (hback : ∀ field ∈ back, test field = false) {low high : Nat} (hlow : low ≤ front.length)
    (hhigh : front.length ≤ high) (hend : high ≤ front.length + back.length) :
    partitionPointFrom test (front ++ back) low high = front.length := by
  fun_induction partitionPointFrom test (front ++ back) low high with
  | case1 low high hlt middle hpasses ih =>
      refine ih ?_ hhigh hend
      by_contra hbeyond
      have hmiddle : (front ++ back)[middle]? = back[middle - front.length]? :=
        List.getElem?_append_right (by omega)
      rw [hmiddle] at hpasses
      obtain ⟨field, hfield, hpass⟩ := (Option.any_eq_true _ _).mp hpasses
      rw [hback field (List.mem_of_getElem? hfield)] at hpass
      contradiction
  | case2 low high hlt middle hfails ih =>
      refine ih hlow ?_ (by omega)
      by_contra hbefore
      have hmiddle : (front ++ back)[middle]? = some front[middle] := by
        rw [List.getElem?_append_left (by omega), List.getElem?_eq_getElem]
      rw [hmiddle] at hfails
      exact hfails (hfront _ (List.getElem_mem _))
  | case3 low high hlt => omega

theorem partitionPoint_append (hfront : ∀ field ∈ front, test field = true)
    (hback : ∀ field ∈ back, test field = false) :
    partitionPoint test (front ++ back) = front.length :=
  partitionPointFrom_eq hfront hback (Nat.zero_le _) (by simp) (by simp)

end PartitionPoint

theorem remove_eq (name : String) (fields : List Field) :
    remove name fields =
      (fields.find? fun field => field.name = name,
        fields.eraseP fun field => field.name = name) := by
  rw [remove, List.find?_eq_bind_findIdx?_getElem?, List.eraseP_eq_eraseIdx]
  cases fields.findIdx? fun field => field.name = name <;> rfl

-- Where no two fields have the same name, no other field of the name is left.
theorem eraseP_eq_filter {name : String} {fields : List Field}
    (h : fields.Pairwise fun first second => first.name ≠ second.name) :
    (fields.eraseP fun field => field.name = name) =
      fields.filter fun field => field.name ≠ name := by
  induction fields with
  | nil => rfl
  | cons first rest ih =>
      obtain ⟨hfirst, hrest⟩ := List.pairwise_cons.mp h
      by_cases hname : first.name = name
      · have hkept : (rest.filter fun field => field.name ≠ name) = rest := by
          rw [List.filter_eq_self]
          intro other hother
          simpa [hname] using (hfirst other hother).symm
        rw [List.eraseP_cons_of_pos (by simpa using hname),
          List.filter_cons_of_neg (by simpa using hname), hkept]
      · simpa [hname] using ih hrest

theorem insertIdx_length (field : Field) (front back : List Field) :
    (front ++ back).insertIdx front.length field = front ++ field :: back := by
  induction front with
  | nil => simp
  | cons first front ih => simpa using ih

-- Fields that are in order fall into those before a new one and those behind it.
theorem exists_insertField_eq {fields : List Field} (h : fields.Pairwise Field.Before)
    (field : Field) : ∃ front back, fields = front ++ back ∧
      (∀ other ∈ front, other.Before field) ∧ (∀ other ∈ back, ¬ other.Before field) ∧
      Payload.insertField field fields = front ++ field :: back := by
  induction fields with
  | nil => exact ⟨[], [], rfl, by simp, by simp, rfl⟩
  | cons first rest ih =>
      obtain ⟨hfirst, hrest⟩ := List.pairwise_cons.mp h
      by_cases hbefore : first.Before field
      · obtain ⟨front, back, rfl, hfront, hback, hinsert⟩ := ih hrest
        refine ⟨first :: front, back, rfl, List.forall_mem_cons.mpr ⟨hbefore, hfront⟩, hback, ?_⟩
        rw [Payload.insertField, if_pos hbefore, hinsert, List.cons_append]
      · refine ⟨[], first :: rest, rfl, by simp, List.forall_mem_cons.mpr ⟨hbefore, ?_⟩, ?_⟩
        · intro other hother hlater
          exact hbefore ((hfirst other hother).trans hlater)
        · rw [Payload.insertField, if_neg hbefore, List.nil_append]

end Fields

namespace Payload

variable {payload : Payload}

theorem remove_toList (payload : Payload) (name : String) :
    Fields.remove name payload.toList = (payload.field? name, (payload.erase name).toList) := by
  rw [Fields.remove_eq, Fields.eraseP_eq_filter payload.canonical.unique]
  rfl

theorem insert_toList (payload : Payload) (field : Field) :
    Fields.insert field payload.toList =
      (payload.field? field.name, (payload.insert field).toList) := by
  obtain ⟨front, back, hfields, hfront, hback, hinsert⟩ :=
    Fields.exists_insertField_eq (payload.erase field.name).canonical.ordered field
  have hplace : Fields.partitionPoint (fun other => other.Before field) (front ++ back) =
      front.length := Fields.partitionPoint_append (by simpa using hfront) (by simpa using hback)
  rw [Fields.insert, remove_toList]
  dsimp only [insert]
  rw [hinsert, hfields, hplace, Fields.insertIdx_length]

theorem collect_eq (fields : List Field) : Fields.collect fields = (ofList fields).toList := by
  have hfold : ∀ payload : Payload,
      fields.foldl (fun kept field => (Fields.insert field kept).2) payload.toList =
        (fields.foldl insert payload).toList := by
    induction fields with
    | nil => exact fun _ => rfl
    | cons field rest ih =>
        intro payload
        rw [List.foldl_cons, List.foldl_cons, insert_toList]
        exact ih _
  exact hfold ∅

-- What is done to a payload. Each field is asked about once when some are to be kept,
-- so a test that remembers what it was asked tells no more than one that does not.
inductive Step where
  | insert (field : Field)
  | add (tag : UInt32) (name : String) (value : Value)
  | remove (name : String)
  | retain (keep : Field → Bool)
  | collect (fields : List Field)

-- What a step gives back, and the fields as it leaves them.
def Step.perform : Step → List Field → Option Field × List Field
  | .insert field, fields => Fields.insert field fields
  | .add tag name value, fields => (none, (Fields.insert ⟨tag, name, value⟩ fields).2)
  | .remove name, fields => Fields.remove name fields
  | .retain keep, fields => (none, fields.filter keep)
  | .collect new, _ => (none, Fields.collect new)

def stored (steps : List Step) : List Field :=
  steps.foldl (fun fields step => (step.perform fields).2) []

def after (payload : Payload) : Step → Payload
  | .insert field => payload.insert field
  | .add tag name value => payload.insert ⟨tag, name, value⟩
  | .remove name => payload.erase name
  | .retain keep => payload.filter keep
  | .collect fields => ofList fields

def run (steps : List Step) : Payload := steps.foldl after ∅

-- What a step makes of the field that is held under a name: the last one that was put
-- there, until it is taken away.
def Step.hold (name : String) (held : Option Field) : Step → Option Field
  | .insert field => if field.name = name then some field else held
  | .add tag other value => if other = name then some ⟨tag, other, value⟩ else held
  | .remove other => if other = name then none else held
  | .retain keep => held.filter keep
  | .collect fields => fields.findRev? fun field => field.name = name

def held (steps : List Step) (name : String) : Option Field :=
  steps.foldl (Step.hold name) none

theorem snd_perform (payload : Payload) (step : Step) :
    (step.perform payload.toList).2 = (payload.after step).toList := by
  cases step with
  | insert field => exact congrArg Prod.snd (payload.insert_toList field)
  | add tag name value => exact congrArg Prod.snd (payload.insert_toList ⟨tag, name, value⟩)
  | remove name => exact congrArg Prod.snd (payload.remove_toList name)
  | retain keep => rfl
  | collect fields => exact collect_eq fields

-- The order that every step relies on is the one that the steps before it have left.
theorem stored_eq (steps : List Step) : stored steps = (run steps).toList := by
  have hfold : ∀ payload : Payload,
      steps.foldl (fun fields step => (step.perform fields).2) payload.toList =
        (steps.foldl after payload).toList := by
    induction steps with
    | nil => exact fun _ => rfl
    | cons step rest ih =>
        intro payload
        rw [List.foldl_cons, List.foldl_cons, snd_perform]
        exact ih _
  exact hfold ∅

theorem field?_eq_some_iff {name : String} {field : Field} :
    payload.field? name = some field ↔ field ∈ payload.toList ∧ field.name = name :=
  find?_key_eq_some_iff payload.nodup_names

theorem field?_insert (payload : Payload) (field : Field) (name : String) :
    (payload.insert field).field? name =
      if field.name = name then some field else payload.field? name := by
  apply Option.ext
  intro found
  rw [field?_eq_some_iff, mem_insert]
  by_cases hname : field.name = name
  · subst hname
    simp only [if_true, Option.some.injEq]
    constructor
    · rintro ⟨rfl | ⟨_, hother⟩, hsame⟩
      · rfl
      · exact absurd hsame hother
    · rintro rfl
      exact ⟨.inl rfl, rfl⟩
  · rw [if_neg hname, field?_eq_some_iff]
    constructor
    · rintro ⟨rfl | ⟨hmem, _⟩, hfound⟩
      · exact absurd hfound hname
      · exact ⟨hmem, hfound⟩
    · rintro ⟨hmem, rfl⟩
      exact ⟨.inr ⟨hmem, fun hsame => hname hsame.symm⟩, rfl⟩

theorem field?_filter (payload : Payload) (keep : Field → Bool) (name : String) :
    (payload.filter keep).field? name = (payload.field? name).filter keep := by
  apply Option.ext
  intro found
  rw [field?_eq_some_iff, Option.filter_eq_some_iff, field?_eq_some_iff, filter, List.mem_filter]
  exact and_right_comm

theorem field?_erase (payload : Payload) (gone name : String) :
    (payload.erase gone).field? name = if gone = name then none else payload.field? name := by
  rw [erase, field?_filter]
  cases hfound : payload.field? name with
  | none => simp
  | some field =>
      obtain ⟨_, rfl⟩ := field?_eq_some_iff.mp hfound
      by_cases hname : gone = field.name
      · simp [hname]
      · simp [hname, Ne.symm hname]

-- Of the fields of one name the last one is kept.
theorem field?_ofList (fields : List Field) (name : String) :
    (ofList fields).field? name = fields.findRev? fun field => field.name = name := by
  induction fields using List.reverseRecOn with
  | nil => rfl
  | append_singleton fields field ih =>
      have hlast : ofList (fields ++ [field]) = (ofList fields).insert field := by simp [ofList]
      rw [hlast, field?_insert, ih, List.findRev?_eq_find?_reverse, List.findRev?_eq_find?_reverse,
        List.reverse_concat, List.find?_cons]
      by_cases hname : field.name = name <;> simp [hname]

theorem field?_after (payload : Payload) (step : Step) (name : String) :
    (payload.after step).field? name = step.hold name (payload.field? name) := by
  cases step with
  | insert field => exact payload.field?_insert field name
  | add tag other value => exact payload.field?_insert ⟨tag, other, value⟩ name
  | remove other => exact payload.field?_erase other name
  | retain keep => exact payload.field?_filter keep name
  | collect fields => exact field?_ofList fields name

theorem field?_run (steps : List Step) (name : String) :
    (run steps).field? name = held steps name := by
  have hfold : ∀ payload : Payload,
      (steps.foldl after payload).field? name =
        steps.foldl (Step.hold name) (payload.field? name) := by
    induction steps with
    | nil => exact fun _ => rfl
    | cons step rest ih =>
        intro payload
        rw [List.foldl_cons, List.foldl_cons, ← field?_after]
        exact ih _
  exact hfold ∅

-- The first field of a tag is the one of the least name.
theorem byTag?_eq_some_iff {tag : UInt32} (h : tag ≠ Field.untagged) {field : Field} :
    payload.byTag? tag = some field ↔ field ∈ payload.toList ∧ field.tag = tag ∧
      ∀ other ∈ payload.toList, other.tag = tag →
        Bytes.ofText field.name ≤ Bytes.ofText other.name := by
  have hleast : ∀ found, payload.byTag? tag = some found → found ∈ payload.toList ∧
      found.tag = tag ∧ ∀ other ∈ payload.toList, other.tag = tag →
        Bytes.ofText found.name ≤ Bytes.ofText other.name := by
    intro found hfound
    rw [byTag?, if_neg h, List.find?_eq_some_iff_append] at hfound
    obtain ⟨htag, front, back, hfields, hfront⟩ := hfound
    have hordered := payload.canonical.ordered
    rw [decide_eq_true_eq] at htag
    rw [hfields] at hordered ⊢
    refine ⟨by simp, htag, ?_⟩
    intro other hother hsame
    rcases List.mem_append.mp hother with hearlier | hlater
    · simpa [hsame] using hfront other hearlier
    · rcases List.mem_cons.mp hlater with rfl | hlater
      · exact Std.le_refl _
      · have hback := (List.pairwise_append.mp hordered).2.1
        have hbefore := (List.pairwise_cons.mp hback).1 other hlater
        rcases Field.before_iff.mp hbefore with hlt | ⟨_, hlt⟩
        · rw [htag, hsame] at hlt
          exact absurd hlt (UInt32.lt_irrefl _)
        · exact Std.le_of_lt hlt
  constructor
  · exact hleast field
  · rintro ⟨hmem, htag, hall⟩
    cases hfound : payload.byTag? tag with
    | none =>
        rw [byTag?, if_neg h, List.find?_eq_none] at hfound
        simpa [htag] using hfound field hmem
    | some found =>
        obtain ⟨hmem', htag', hall'⟩ := hleast found hfound
        have hname : found.name = field.name := Bytes.ofText_injective
          (Std.le_antisymm (hall' field hmem htag) (hall found hmem' htag'))
        rw [List.inj_on_of_nodup_map payload.nodup_names hmem' hmem hname]

theorem byTag?_eq_none_iff {tag : UInt32} (h : tag ≠ Field.untagged) :
    payload.byTag? tag = none ↔ ∀ field ∈ payload.toList, field.tag ≠ tag := by
  simp [byTag?, h]

-- Payloads are told apart by their fields.
theorem eq_of_mem_iff {other : Payload}
    (h : ∀ field, field ∈ payload.toList ↔ field ∈ other.toList) : payload = other := by
  have hperm : payload.toList.Perm other.toList :=
    (List.perm_ext_iff_of_nodup payload.nodup_names.of_map other.nodup_names.of_map).mpr h
  refine toList_injective
    (hperm.eq_of_pairwise ?_ payload.canonical.ordered other.canonical.ordered)
  intro first second _ _ hbefore hafter
  exact absurd (hbefore.trans hafter) first.not_before_self

-- A list of fields that is a map from names to the fields that some steps have left.
structure Maps (steps : List Step) (fields : List Field) : Prop where
  ascending : fields.Pairwise fun first second =>
    first.tag < second.tag ∨
      first.tag = second.tag ∧ Bytes.ofText first.name < Bytes.ofText second.name
  distinct : (fields.map (·.name)).Nodup
  inserted : ∀ field, (Fields.insert field fields).1 = held steps field.name
  removed : ∀ name, (Fields.remove name fields).1 = held steps name

-- What is found in a payload after some steps.
structure Finds (steps : List Step) (payload : Payload) : Prop where
  field_eq : ∀ name, payload.field? name = held steps name
  get_eq : ∀ name, payload.get? name = (held steps name).map (·.value)
  byTag_iff : ∀ tag, tag ≠ Field.untagged → ∀ field, payload.byTag? tag = some field ↔
    field ∈ payload.toList ∧ field.tag = tag ∧ ∀ other ∈ payload.toList, other.tag = tag →
      Bytes.ofText field.name ≤ Bytes.ofText other.name
  byTag_none : ∀ tag, tag ≠ Field.untagged →
    (payload.byTag? tag = none ↔ ∀ field ∈ payload.toList, field.tag ≠ tag)

-- Whatever the steps and their order, the same fields are left as the same list.
theorem maps_run (steps : List Step) :
    stored steps = (run steps).toList ∧ Maps steps (stored steps) ∧ Finds steps (run steps) ∧
      ∀ others, (∀ field, field ∈ stored steps ↔ field ∈ stored others) →
        stored steps = stored others ∧ run steps = run others := by
  refine ⟨stored_eq steps, ?_, ?_, ?_⟩
  · rw [stored_eq]
    refine ⟨?_, (run steps).nodup_names, ?_, ?_⟩
    · exact (run steps).canonical.ordered.imp Field.before_iff.mp
    · intro field
      rw [insert_toList, field?_run]
    · intro name
      rw [remove_toList, field?_run]
  · refine ⟨field?_run steps, ?_, ?_, ?_⟩
    · intro name
      rw [get?, field?_run]
    · exact fun tag htag field => byTag?_eq_some_iff htag
    · exact fun tag htag => byTag?_eq_none_iff htag
  · intro others hsame
    rw [stored_eq, stored_eq] at hsame ⊢
    have heq : run steps = run others := eq_of_mem_iff hsame
    exact ⟨congrArg toList heq, heq⟩

end Payload

end Chronicle
