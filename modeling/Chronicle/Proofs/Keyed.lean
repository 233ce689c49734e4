import Mathlib.Data.List.Nodup

-- Lists whose members are told apart by a key.

namespace Chronicle

variable {α β κ : Type}

theorem find?_key_eq_some_iff [DecidableEq κ] {key : α → κ} {xs : List α}
    (h : (xs.map key).Nodup) {k : κ} {x : α} :
    xs.find? (fun y => key y = k) = some x ↔ x ∈ xs ∧ key x = k := by
  constructor
  · intro hfound
    exact ⟨List.mem_of_find?_eq_some hfound, by simpa using List.find?_some hfound⟩
  · rintro ⟨hmem, rfl⟩
    cases hfound : xs.find? fun y => key y = key x with
    | none =>
        have hother := List.find?_eq_none.mp hfound x hmem
        simp at hother
    | some y =>
        have hkey : key y = key x := by simpa using List.find?_some hfound
        rw [List.inj_on_of_nodup_map h (List.mem_of_find?_eq_some hfound) hmem hkey]

-- Two lists that correspond still do so when the same is kept of both.
theorem perm_filter_of_map {ε : Type} {f : α → Except ε β} {xs : List α} {ys : List β}
    (h : (xs.map f).Perm (ys.map .ok)) {p : α → Bool} {q : β → Bool}
    (hpq : ∀ x ∈ xs, ∀ y, f x = .ok y → p x = q y) :
    ((xs.filter p).map f).Perm ((ys.filter q).map .ok) := by
  let kept : Except ε β → Bool := fun outcome => outcome.toOption.any q
  have hys : (ys.map Except.ok).filter kept = (ys.filter q).map .ok := by
    rw [List.filter_map]
    rfl
  have hxs : (xs.map f).filter kept = (xs.filter p).map f := by
    rw [List.filter_map]
    congr 1
    apply List.filter_congr
    intro x hx
    obtain ⟨y, _, hy⟩ := List.mem_map.mp (h.subset (List.mem_map_of_mem hx))
    have hkept : kept (f x) = q y := by
      rw [← hy]
      rfl
    rw [hpq x hx y hy.symm, Function.comp_apply, hkept]
  rw [← hxs, ← hys]
  exact h.filter kept

end Chronicle
