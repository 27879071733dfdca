import Mathlib.Data.List.Basic

/-!
# Sorting by a comparison function

A comparison function returns a number whose sign says how two values compare.
`Consistent` is what a library's sorting routine asks of it, and `Sorts` what the
routine does with any such function; nothing else about the routine is known.

* `Sorts.unique` — if only equal values compare equal, the result does not depend
  on the routine, nor on the order of the input.
* `le_countP_before`, `le_countP_from` — how many values are on either side of a
  place in a sorted list.
-/

namespace SysLab.Foundation

/-- The signs belong to a total preorder. -/
structure Consistent {α : Type*} (cmp : α → α → Int) : Prop where
  swap : ∀ a b, (cmp a b).sign = -(cmp b a).sign
  trans : ∀ a b c, cmp a b ≤ 0 → cmp b c ≤ 0 → cmp a c ≤ 0

/-- A sorting routine, which is given a comparison function. -/
def Sorts {α : Type*} (qsort : (α → α → Int) → List α → List α) : Prop :=
  ∀ cmp, Consistent cmp → ∀ xs,
    (qsort cmp xs).Perm xs ∧ (qsort cmp xs).Pairwise fun a b => cmp a b ≤ 0

section Routine

variable {α : Type*} {cmp : α → α → Int}

theorem Consistent.total (h : Consistent cmp) (a b : α) : cmp a b ≤ 0 ∨ cmp b a ≤ 0 := by
  have hswap := h.swap a b
  rcases Int.lt_or_le 0 (cmp a b) with hpos | hle
  · right
    rw [Int.sign_eq_one_of_pos hpos] at hswap
    have hneg : (cmp b a).sign = -1 := by omega
    exact Int.le_of_lt (Int.sign_eq_neg_one_iff_neg.mp hneg)
  · exact .inl hle

/-- There is such a routine. -/
theorem mergeSort_sorts :
    Sorts (α := α) fun cmp xs => xs.mergeSort fun a b => decide (cmp a b ≤ 0) := by
  intro cmp h xs
  refine ⟨List.mergeSort_perm xs _, ?_⟩
  have htrans : ∀ a b c, decide (cmp a b ≤ 0) = true → decide (cmp b c ≤ 0) = true →
      decide (cmp a c ≤ 0) = true := by
    simp only [decide_eq_true_eq]
    exact h.trans
  have htotal : ∀ a b, (decide (cmp a b ≤ 0) || decide (cmp b a ≤ 0)) = true := by
    simp only [Bool.or_eq_true, decide_eq_true_eq]
    exact h.total
  exact (List.pairwise_mergeSort htrans htotal xs).imp fun hle => of_decide_eq_true hle

/-- If values that compare equal are equal, a list has one sorted form. -/
theorem Sorts.unique {qsort qsort' : (α → α → Int) → List α → List α} (hq : Sorts qsort)
    (hq' : Sorts qsort') (h : Consistent cmp)
    (heq : ∀ a b, cmp a b ≤ 0 → cmp b a ≤ 0 → a = b) {xs ys : List α} (hperm : xs.Perm ys) :
    qsort cmp xs = qsort' cmp ys := by
  obtain ⟨hxs, hsorted⟩ := hq cmp h xs
  obtain ⟨hys, hsorted'⟩ := hq' cmp h ys
  exact List.Perm.eq_of_pairwise (fun a b _ _ => heq a b) hsorted hsorted'
    (hxs.trans (hperm.trans hys.symm))

end Routine

/-! ## Places in a sorted list -/

section Ranks

variable {α : Type*} {r : α → α → Prop} [DecidableRel r] {xs : List α} {i : Nat}

/-- A value in a sorted list has those before it on its left. -/
theorem le_countP_before (hrefl : ∀ a, r a a) (h : xs.Pairwise r) (hi : i < xs.length) :
    i + 1 ≤ xs.countP (r · xs[i]) := by
  have htake : (xs.take (i + 1)).countP (r · xs[i]) = (xs.take (i + 1)).length := by
    rw [List.countP_eq_length]
    intro x hx
    obtain ⟨j, hj, rfl⟩ := List.mem_iff_getElem.mp hx
    rw [List.length_take] at hj
    rw [List.getElem_take, decide_eq_true_eq]
    rcases Nat.lt_or_ge j i with hlt | hge
    · exact List.pairwise_iff_getElem.mp h j i _ hi hlt
    · have hji : j = i := by omega
      subst hji
      exact hrefl _
  have hsub := (List.take_sublist (i + 1) xs).countP_le (p := fun x => decide (r x xs[i]))
  rw [htake, List.length_take] at hsub
  omega

/-- And those from it on. -/
theorem le_countP_from (hrefl : ∀ a, r a a) (h : xs.Pairwise r) (hi : i < xs.length) :
    xs.length - i ≤ xs.countP (r xs[i] ·) := by
  have hdrop : (xs.drop i).countP (r xs[i] ·) = (xs.drop i).length := by
    rw [List.countP_eq_length]
    intro x hx
    obtain ⟨j, hj, rfl⟩ := List.mem_iff_getElem.mp hx
    rw [List.getElem_drop, decide_eq_true_eq]
    rcases Nat.eq_zero_or_pos j with rfl | hpos
    · exact hrefl _
    · exact List.pairwise_iff_getElem.mp h i (i + j) hi _ (by omega)
  have hsub := (List.drop_sublist i xs).countP_le (p := fun x => decide (r xs[i] x))
  rwa [hdrop, List.length_drop] at hsub

end Ranks

end SysLab.Foundation
