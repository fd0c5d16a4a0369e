import Mathlib.Data.Nat.ModEq

/-!
# Cyclic arrays

An array of `n` cells used cyclically for an unbounded list: element number `k` is written to
cell `k % n`, over element `k - n`. `Holds a l` says that the array still has the last `n`
elements of `l`, each in its cell.

## Main results

* `mod_ne_of_window`: elements less than `n` apart have different cells;
* `exists_later_same_cell_iff`: which elements have been written over;
* `holds_nil`, `Holds.push`: the array holds the list it was filled from.
-/

namespace CyclicArray

/-- Element numbers less than `n` apart have different cells. -/
theorem mod_ne_of_window {n j k : ℕ} (hlt : k < j) (hwin : j < k + n) : j % n ≠ k % n := by
  intro heq
  have hdvd : n ∣ j - k := (Nat.modEq_iff_dvd' hlt.le).mp heq.symm
  have hle : n ≤ j - k := Nat.le_of_dvd (by omega) hdvd
  omega

/-- Among the first `len` elements a later one shares the cell of element `k` exactly when
element `k + n` is one of them. -/
theorem exists_later_same_cell_iff {n k len : ℕ} (hn : 0 < n) :
    (∃ j, k < j ∧ j < len ∧ j % n = k % n) ↔ k + n < len := by
  constructor
  · rintro ⟨j, hkj, hjlen, hcell⟩
    by_contra hlen
    exact mod_ne_of_window hkj (by omega) hcell
  · intro hlen
    exact ⟨k + n, by omega, hlen, Nat.add_mod_right k n⟩

variable {α : Type*}

/-- `a` holds the last `a.size` elements of `l`, element number `k` in cell `k % a.size`. -/
def Holds (a : Array α) (l : List α) : Prop :=
  ∀ k, k < l.length → l.length ≤ k + a.size → a[k % a.size]? = l[k]?

/-- Every array holds the empty list. -/
theorem holds_nil (a : Array α) : Holds a [] := by
  intro k hk
  simp at hk

/-- Writing the next element to its cell keeps the last elements held. -/
theorem Holds.push {a : Array α} {l : List α} (h : Holds a l) (hpos : 0 < a.size) (x : α) :
    Holds (a.setIfInBounds (l.length % a.size) x) (l ++ [x]) := by
  intro k hk hwin
  simp only [List.length_append, List.length_singleton, Array.size_setIfInBounds] at hk hwin ⊢
  have hlt : l.length % a.size < a.size := Nat.mod_lt _ hpos
  rcases Nat.lt_succ_iff_lt_or_eq.mp hk with hold | rfl
  -- an older element of the window is in another cell
  · have hne : l.length % a.size ≠ k % a.size := mod_ne_of_window hold (by omega)
    rw [Array.getElem?_setIfInBounds_ne hne, List.getElem?_append_left hold]
    exact h k hold (by omega)
  · rw [Array.getElem?_setIfInBounds_self_of_lt hlt]
    simp

/-! ## Cells changed in place -/

section Modify

variable (xs : Array α) (i : ℕ)

theorem modify_modify (g f : α → α) : (xs.modify i f).modify i g = xs.modify i (g ∘ f) := by
  apply Array.ext_getElem?
  intro j
  by_cases hj : i = j <;> simp [Array.getElem?_modify, hj]

/-- Changes to a cell do not matter once it is written over. -/
theorem setIfInBounds_modify (f : α → α) (x : α) :
    (xs.modify i f).setIfInBounds i x = xs.setIfInBounds i x := by
  apply Array.ext_getElem?
  intro j
  by_cases hj : i = j
  · simp [Array.getElem?_setIfInBounds, hj]
  · simp [Array.getElem?_modify, hj]

/-- Changing a cell to a constant is writing it. -/
theorem modify_const (x : α) : (xs.modify i fun _ => x) = xs.setIfInBounds i x := by
  apply Array.ext_getElem?
  intro j
  by_cases hj : i = j
  · subst hj
    rcases Nat.lt_or_ge i xs.size with hlt | hge
    · simp [hlt, Array.getElem_modify]
    · simp [Nat.not_lt.mpr hge]
  · simp [Array.getElem?_modify, hj]

theorem modify_id : (xs.modify i fun x => x) = xs := by
  apply Array.ext_getElem?
  intro j
  by_cases hj : i = j <;> simp [Array.getElem?_modify, hj]

end Modify

end CyclicArray
