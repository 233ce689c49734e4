import Chronicle.Payload
import Mathlib.Data.List.Induction
import Mathlib.Data.List.Nodup

-- Payloads as finite maps: what insertion and erasure do to the list of fields
-- and to the field of a name.

namespace Chronicle.Payload

theorem toList_injective {first second : Payload} (h : first.toList = second.toList) :
    first = second := by
  cases first
  cases second
  simpa using h

@[simp] theorem toList_empty : (∅ : Payload).toList = [] := rfl

theorem contains_eq_false_iff {payload : Payload} {name : String} :
    payload.contains name = false ↔ ∀ field ∈ payload.toList, field.name ≠ name := by
  simp [contains, field?]

theorem contains_iff {payload : Payload} {name : String} :
    payload.contains name = true ↔ ∃ field ∈ payload.toList, field.name = name := by
  simp [contains, field?]

theorem nodup_names (payload : Payload) : (payload.toList.map (·.name)).Nodup :=
  List.pairwise_map.mpr payload.canonical.unique

theorem mem_erase {payload : Payload} {name : String} {field : Field} :
    field ∈ (payload.erase name).toList ↔ field ∈ payload.toList ∧ field.name ≠ name := by
  simp [erase, filter]

theorem mem_insert {payload : Payload} {field other : Field} :
    other ∈ (payload.insert field).toList ↔
      other = field ∨ (other ∈ payload.toList ∧ other.name ≠ field.name) := by
  simp only [insert, mem_insertField, mem_erase]

theorem contains_insert {payload : Payload} {field : Field} {name : String} :
    (payload.insert field).contains name = true ↔
      field.name = name ∨ payload.contains name = true := by
  simp only [contains_iff, mem_insert]
  constructor
  · rintro ⟨other, rfl | ⟨hmem, _⟩, hname⟩
    · exact .inl hname
    · exact .inr ⟨other, hmem, hname⟩
  · rintro (hname | ⟨other, hmem, hname⟩)
    · exact ⟨field, .inl rfl, hname⟩
    · by_cases h : other.name = field.name
      · exact ⟨field, .inl rfl, h.symm.trans hname⟩
      · exact ⟨other, .inr ⟨hmem, h⟩, hname⟩

-- Of fields that are inserted in turn, some may be replaced, but no name is lost.
theorem mem_of_foldl_insert {payload : Payload} {fields : List Field} {field : Field}
    (h : field ∈ (fields.foldl insert payload).toList) :
    field ∈ payload.toList ∨ field ∈ fields := by
  induction fields generalizing payload with
  | nil => exact .inl h
  | cons first rest ih =>
      rcases ih h with hmem | hrest
      · rcases mem_insert.mp hmem with rfl | ⟨hold, _⟩
        · exact .inr List.mem_cons_self
        · exact .inl hold
      · exact .inr (List.mem_cons_of_mem _ hrest)

theorem contains_foldl_insert {payload : Payload} {fields : List Field} {name : String} :
    (fields.foldl insert payload).contains name = true ↔
      payload.contains name = true ∨ ∃ field ∈ fields, field.name = name := by
  induction fields generalizing payload with
  | nil => simp
  | cons first rest ih =>
      rw [List.foldl_cons, ih, contains_insert, List.exists_mem_cons_iff]
      exact ⟨fun h => by rcases h with (h | h) | h <;> simp [h],
        fun h => by rcases h with h | h | h <;> simp [h]⟩

theorem mem_of_ofList {fields : List Field} {field : Field} (h : field ∈ (ofList fields).toList) :
    field ∈ fields := by
  rcases mem_of_foldl_insert h with hmem | hmem
  · exact absurd hmem List.not_mem_nil
  · exact hmem

theorem contains_ofList {fields : List Field} {name : String} :
    (ofList fields).contains name = true ↔ ∃ field ∈ fields, field.name = name := by
  rw [ofList, contains_foldl_insert, or_iff_right]
  exact Bool.eq_false_iff.mp rfl

theorem erase_of_not_contains {payload : Payload} {name : String}
    (h : payload.contains name = false) : payload.erase name = payload := by
  apply toList_injective
  simp only [erase, filter, List.filter_eq_self]
  intro field hf
  simpa using contains_eq_false_iff.mp h field hf

-- A field that comes after all others is put behind them.
theorem insertField_of_before {field : Field} {fields : List Field}
    (h : ∀ other ∈ fields, other.Before field) : insertField field fields = fields ++ [field] := by
  induction fields with
  | nil => rfl
  | cons first rest ih =>
      have hfirst := h first List.mem_cons_self
      have hrest := ih fun other ho => h other (List.mem_cons_of_mem _ ho)
      rw [insertField, if_pos hfirst, hrest, List.cons_append]

theorem insertField_perm (field : Field) (fields : List Field) :
    (insertField field fields).Perm (field :: fields) := by
  induction fields with
  | nil => exact List.Perm.refl _
  | cons first rest ih =>
      rw [insertField]
      split
      · exact (ih.cons first).trans (List.Perm.swap field first rest)
      · exact List.Perm.refl _

-- A field of a new name joins the others.
theorem toList_insert_perm {payload : Payload} {field : Field}
    (hname : payload.contains field.name = false) :
    (payload.insert field).toList.Perm (field :: payload.toList) := by
  simp only [insert, erase_of_not_contains hname]
  exact insertField_perm field payload.toList

theorem contains_ofList_of_nodup {before after : List Field} {field : Field}
    (h : ((before ++ field :: after).map (·.name)).Nodup) :
    (ofList before).contains field.name = false := by
  rw [List.map_append, List.map_cons] at h
  have hapart := (List.nodup_append.mp h).2.2
  rw [Bool.eq_false_iff, ne_eq, contains_ofList]
  rintro ⟨other, hother, hname⟩
  exact hapart other.name (List.mem_map_of_mem hother) field.name List.mem_cons_self hname

-- Fields of different names are all kept.
theorem toList_ofList_perm {fields : List Field} (h : (fields.map (·.name)).Nodup) :
    (ofList fields).toList.Perm fields := by
  induction fields using List.reverseRecOn with
  | nil => exact List.Perm.refl _
  | append_singleton fields field ih =>
      have hfields : (fields.map (·.name)).Nodup :=
        h.sublist ((List.sublist_append_left fields [field]).map _)
      have hlast : ofList (fields ++ [field]) = (ofList fields).insert field := by simp [ofList]
      rw [hlast]
      exact (toList_insert_perm (contains_ofList_of_nodup h)).trans
        (((ih hfields).cons field).trans (List.perm_append_singleton field fields).symm)

theorem toList_insert_of_last {payload : Payload} {field : Field}
    (hname : payload.contains field.name = false)
    (h : ∀ other ∈ payload.toList, other.Before field) :
    (payload.insert field).toList = payload.toList ++ [field] := by
  simp only [insert, erase_of_not_contains hname]
  exact insertField_of_before h

end Chronicle.Payload
