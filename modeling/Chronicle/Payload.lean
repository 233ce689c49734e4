import Chronicle.Value

-- Payloads: fields in the order of their tags and names, with unique names.

namespace Chronicle

structure Field where
  tag : UInt32
  name : String
  value : Value
  deriving DecidableEq

-- The tag of fields that have no slot in any schema.
def Field.untagged : UInt32 := 0

-- By tag, then by name.
def Field.Before (first second : Field) : Prop :=
  first.tag < second.tag ∨ (first.tag = second.tag ∧ first.name < second.name)

instance (first second : Field) : Decidable (first.Before second) :=
  inferInstanceAs (Decidable (_ ∨ _))

theorem Field.Before.trans {first second third : Field} (h : first.Before second)
    (h' : second.Before third) : first.Before third := by
  rcases h with h | ⟨h, hn⟩ <;> rcases h' with h' | ⟨h', hn'⟩
  · exact .inl (UInt32.lt_trans h h')
  · exact .inl (h' ▸ h)
  · exact .inl (h ▸ h')
  · exact .inr ⟨h.trans h', String.lt_trans hn hn'⟩

-- Fields with different names are ordered one way or the other.
theorem Field.before_of_not_before {first second : Field} (hname : first.name ≠ second.name)
    (h : ¬ first.Before second) : second.Before first := by
  simp only [Field.Before, not_or, not_and] at h ⊢
  obtain ⟨ht, hn⟩ := h
  have htag := UInt32.not_lt.mp ht
  by_cases he : second.tag = first.tag
  · refine .inr ⟨he, ?_⟩
    have hle := Std.not_lt.mp (hn he.symm)
    exact Std.lt_of_le_of_ne hle fun h => hname h.symm
  · exact .inl (UInt32.lt_of_le_of_ne htag he)

structure Canonical (fields : List Field) : Prop where
  ordered : fields.Pairwise Field.Before
  unique : fields.Pairwise fun first second => first.name ≠ second.name

structure Payload where
  toList : List Field
  canonical : Canonical toList

namespace Payload

instance : DecidableEq Payload := fun first second =>
  decidable_of_iff (first.toList = second.toList)
    ⟨fun h => by cases first; cases second; simp_all, fun h => by rw [h]⟩

def empty : Payload := ⟨[], .nil, .nil⟩

instance : EmptyCollection Payload := ⟨empty⟩

instance : Inhabited Payload := ⟨empty⟩

def size (payload : Payload) : Nat := payload.toList.length

def isEmpty (payload : Payload) : Bool := payload.toList.isEmpty

def field? (payload : Payload) (name : String) : Option Field :=
  payload.toList.find? fun field => field.name = name

def get? (payload : Payload) (name : String) : Option Value :=
  (payload.field? name).map (·.value)

-- The first field with a tag. Untagged fields cannot be asked for.
def byTag? (payload : Payload) (tag : UInt32) : Option Field :=
  if tag = Field.untagged then none else payload.toList.find? fun field => field.tag = tag

theorem canonical_filter (keep : Field → Bool) {fields : List Field} (h : Canonical fields) :
    Canonical (fields.filter keep) :=
  ⟨h.ordered.filter _, h.unique.filter _⟩

def filter (keep : Field → Bool) (payload : Payload) : Payload :=
  ⟨payload.toList.filter keep, canonical_filter keep payload.canonical⟩

-- Without the field of that name.
def erase (payload : Payload) (name : String) : Payload :=
  payload.filter fun field => field.name ≠ name

-- Puts a field in its place among fields of other names.
def insertField (field : Field) : List Field → List Field
  | [] => [field]
  | first :: rest =>
      if first.Before field then first :: insertField field rest else field :: first :: rest

theorem mem_insertField {field other : Field} {fields : List Field} :
    other ∈ insertField field fields ↔ other = field ∨ other ∈ fields := by
  induction fields with
  | nil => simp [insertField]
  | cons first rest ih =>
      simp only [insertField]
      split
      · simp only [List.mem_cons, ih]
        constructor
        · rintro (h | h | h) <;> simp [h]
        · rintro (h | h | h) <;> simp [h]
      · simp

theorem canonical_insertField {field : Field} {fields : List Field} (h : Canonical fields)
    (hname : ∀ other ∈ fields, other.name ≠ field.name) :
    Canonical (insertField field fields) := by
  induction fields with
  | nil => exact ⟨by simp [insertField], by simp [insertField]⟩
  | cons first rest ih =>
      have ho := List.pairwise_cons.mp h.ordered
      have hu := List.pairwise_cons.mp h.unique
      have hrest := ih ⟨ho.2, hu.2⟩ fun other ho => hname other (List.mem_cons_of_mem _ ho)
      have hfirst := hname first List.mem_cons_self
      simp only [insertField]
      split
      · rename_i hb
        refine ⟨List.pairwise_cons.mpr ⟨?_, hrest.ordered⟩,
          List.pairwise_cons.mpr ⟨?_, hrest.unique⟩⟩
        · intro other hmem
          rcases mem_insertField.mp hmem with rfl | hmem
          · exact hb
          · exact ho.1 other hmem
        · intro other hmem
          rcases mem_insertField.mp hmem with rfl | hmem
          · exact hfirst
          · exact hu.1 other hmem
      · rename_i hb
        have hbefore := Field.before_of_not_before hfirst hb
        refine ⟨List.pairwise_cons.mpr ⟨?_, h.ordered⟩, List.pairwise_cons.mpr ⟨?_, h.unique⟩⟩
        · intro other hmem
          rcases List.mem_cons.mp hmem with rfl | hmem
          · exact hbefore
          · exact hbefore.trans (ho.1 other hmem)
        · intro other hmem
          exact (hname other hmem).symm

-- A field replaces the one of its name.
def insert (payload : Payload) (field : Field) : Payload :=
  ⟨insertField field (payload.erase field.name).toList,
    canonical_insertField (payload.erase field.name).canonical fun other h => by
      simpa using (List.mem_filter.mp h).2⟩

-- Later fields replace earlier ones of the same name.
def ofList (fields : List Field) : Payload := fields.foldl insert empty

def contains (payload : Payload) (name : String) : Bool := (payload.field? name).isSome

end Payload

end Chronicle
