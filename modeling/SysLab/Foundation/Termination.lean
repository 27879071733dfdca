import Mathlib.Algebra.Order.BigOperators.Group.Finset
import SysLab.Foundation.Transition

/-!
# Runs that end

A system whose steps all use up something of which there is only so much has no run
longer than that.  If besides it can always go on until a goal is reached, then it
reaches the goal whatever it does: a run that cannot be continued has reached it.

* `Run.spent` — what the steps of a run cost, and what is left.
* `Run.length_le_grants` — the same where some events give something back.
* `exists_last_of_bounded` — runs that have a bound can be continued to one that cannot.
* `Completes` — no run goes on for ever, and each ends in the goal.
-/

namespace SysLab.Foundation.System

variable {σ : Type*} {ε : Type*} {T : System σ ε}

/-- What the events cost together. -/
def spent (cost : ε → Nat) : List ε → Nat
  | [] => 0
  | e :: es => cost e + spent cost es

theorem spent_eq_zero {cost : ε → Nat} {es : List ε} (h : ∀ e ∈ es, cost e = 0) :
    spent cost es = 0 := by
  induction es with
  | nil => rfl
  | cons e es ih =>
      rw [spent, h e List.mem_cons_self, ih fun e he => h e (List.mem_cons_of_mem _ he)]

/-- A reachable state is the end of a run from the start. -/
theorem Reachable.exists_run {s : σ} (h : T.Reachable s) :
    ∃ s₀ es, T.init s₀ ∧ T.Run s₀ es s := by
  induction h with
  | start h₀ => exact ⟨_, [], h₀, .nil _⟩
  | step _ hnext ih =>
      obtain ⟨s₀, es, h₀, hrun⟩ := ih
      exact ⟨s₀, _, h₀, hrun.snoc hnext⟩

section Rank

variable {m : σ → Nat} {cost : ε → Nat} {s t : σ} {es : List ε}

/-- If each step uses up its cost, a run uses up what its steps cost together. -/
theorem Run.spent (hstep : ∀ s e t, T.Reachable s → T.next s e t → m t + cost e = m s)
    (hs : T.Reachable s) (h : T.Run s es t) : m t + spent cost es = m s := by
  induction h with
  | nil s => rfl
  | cons hnext _ ih =>
      have hfirst := hstep _ _ _ hs hnext
      have hrest := ih (hs.step hnext)
      rw [System.spent]
      omega

/-- If no step is free, there are no more of them than they cost. -/
theorem Run.length_le_spent (hstep : ∀ s e t, T.Reachable s → T.next s e t → 1 ≤ cost e)
    (hs : T.Reachable s) (h : T.Run s es t) : es.length ≤ System.spent cost es := by
  induction h with
  | nil s => exact Nat.le_refl 0
  | cons hnext _ ih =>
      have hfirst := hstep _ _ _ hs hnext
      have hrest := ih (hs.step hnext)
      rw [List.length_cons, System.spent]
      omega

/-- A step uses something up, but for what its event grants. -/
theorem Run.length_le_grants {grant : ε → Nat}
    (hstep : ∀ s e t, T.Reachable s → T.next s e t → m t + 1 ≤ m s + grant e)
    (hs : T.Reachable s) (h : T.Run s es t) :
    es.length + m t ≤ m s + System.spent grant es := by
  induction h with
  | nil s => exact Nat.le_of_eq (Nat.zero_add _)
  | cons hnext _ ih =>
      have hfirst := hstep _ _ _ hs hnext
      have hrest := ih (hs.step hnext)
      rw [List.length_cons, System.spent]
      omega

/-- Then every run can be continued to one that cannot. -/
theorem Reachable.exists_last (hstep : ∀ s e t, T.Reachable s → T.next s e t → m t < m s)
    (hs : T.Reachable s) : ∃ es t, T.Run s es t ∧ ¬ T.Enabled t := by
  induction hm : m s using Nat.strongRecOn generalizing s with
  | _ k ih =>
      by_cases hmove : T.Enabled s
      · obtain ⟨e, t, hnext⟩ := hmove
        obtain ⟨es, u, hrun, hlast⟩ := ih (m t) (hm ▸ hstep s e t hs hnext) (hs.step hnext) rfl
        exact ⟨e :: es, u, .cons hnext hrun, hlast⟩
      · exact ⟨[], s, .nil s, hmove⟩

end Rank

/-- If the runs from a state have a bound, one of them cannot be continued. -/
theorem exists_last_of_bounded {s : σ} {N : Nat}
    (h : ∀ es t, T.Run s es t → es.length ≤ N) : ∃ es t, T.Run s es t ∧ ¬ T.Enabled t := by
  by_contra hnone
  -- otherwise there are runs of any length
  have hlong : ∀ n, ∃ es t, T.Run s es t ∧ es.length = n := by
    intro n
    induction n with
    | zero => exact ⟨[], s, .nil s, rfl⟩
    | succ n ih =>
        obtain ⟨es, t, hrun, hlength⟩ := ih
        have hmove : T.Enabled t := by
          by_contra hlast
          exact hnone ⟨es, t, hrun, hlast⟩
        obtain ⟨e, u, hnext⟩ := hmove
        refine ⟨es ++ [e], u, hrun.snoc hnext, ?_⟩
        rw [List.length_append, List.length_singleton, hlength]
  obtain ⟨es, t, hrun, hlength⟩ := hlong (N + 1)
  have hle := h es t hrun
  omega

/-- Whatever the system does, it comes to an end in `G`. -/
structure Completes (T : System σ ε) (G : σ → Prop) : Prop where
  bounded : ∀ s, T.Reachable s → ∃ N, ∀ es t, T.Run s es t → es.length ≤ N
  ends : ∀ t, T.Reachable t → ¬ T.Enabled t → G t

/-! ## Of several parts -/

/-- One part of a sum changes by what it uses up and is given, the others do not grow. -/
theorem sum_add_le {ι : Type*} [Fintype ι] [DecidableEq ι] {f g : ι → Nat} (i : ι) {a b : Nat}
    (hi : g i + a ≤ f i + b) (hrest : ∀ j, j ≠ i → g j ≤ f j) :
    ∑ j, g j + a ≤ ∑ j, f j + b := by
  have hle : ∑ j ∈ Finset.univ.erase i, g j ≤ ∑ j ∈ Finset.univ.erase i, f j :=
    Finset.sum_le_sum fun j hj => hrest j (Finset.ne_of_mem_erase hj)
  have hf := Finset.add_sum_erase Finset.univ f (Finset.mem_univ i)
  have hg := Finset.add_sum_erase Finset.univ g (Finset.mem_univ i)
  omega

end SysLab.Foundation.System
