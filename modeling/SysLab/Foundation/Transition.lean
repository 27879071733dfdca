import Mathlib.Data.List.Basic

/-!
# Labelled transition systems

A program together with its environment is a `System`: the states it may start
in and the labelled steps it may take.  This module supplies the vocabulary of
runs and reachable states and the induction rules through which every
invariant of the development is proved.

* `Reachable.induct` — a property that holds initially and that every step
  from a *reachable* state preserves holds of every reachable state.  An
  invariant proved earlier may be used in the step of a later one.
* `Reachable.exists_goal` — a goal that some measure leads to is reachable.
* `restrict` — the runs all of whose steps meet a condition.  Whatever holds
  of the unrestricted system holds of the restricted one
  (`Reachable.of_restrict`).
* `within` — the runs that stay within a set of states; `within_run_iff` says
  which condition on the steps is exactly what keeps a run there.
* `Abstracts` — one system seen through a function of its states, step for
  step in both directions; reachability and the possibility of a step carry
  over.
* `Simulation` — one system follows another, standing still at times; what is
  reachable is related to what is reachable there.
* `Bisimulation` — two systems over the same events that match each other step
  for step; `run_forth` and `run_back` match whole runs.
-/

namespace SysLab.Foundation

/-- A labelled transition system over states `σ` and events `ε`. -/
structure System (σ : Type*) (ε : Type*) where
  init : σ → Prop
  next : σ → ε → σ → Prop

namespace System

variable {σ : Type*} {ε : Type*} {T : System σ ε}

/-- `Run T s es t`: performing the events `es` in order leads from `s` to `t`. -/
inductive Run (T : System σ ε) : σ → List ε → σ → Prop
  | nil (s : σ) : Run T s [] s
  | cons {s t u : σ} {e : ε} {es : List ε} :
      T.next s e t → Run T t es u → Run T s (e :: es) u

/-- The states that some run from an initial state ends in. -/
inductive Reachable (T : System σ ε) : σ → Prop
  | start {s : σ} : T.init s → Reachable T s
  | step {s t : σ} {e : ε} : Reachable T s → T.next s e t → Reachable T t

/-- Invariant rule.  The step may use that the state it leaves is reachable,
hence every invariant already established. -/
theorem Reachable.induct {I : σ → Prop} (hinit : ∀ s, T.init s → I s)
    (hstep : ∀ s e t, T.Reachable s → I s → T.next s e t → I t)
    {s : σ} (h : T.Reachable s) : I s := by
  induction h with
  | start h₀ => exact hinit _ h₀
  | step hs hnext ih => exact hstep _ _ _ hs ih hnext

/-- If from every reachable state with `I` that is no goal one with a smaller measure
can be reached, a goal can. -/
theorem Reachable.exists_goal {I G : σ → Prop} (m : σ → Nat)
    (hstep : ∀ s, T.Reachable s → I s → ¬ G s → ∃ t, T.Reachable t ∧ I t ∧ m t < m s)
    {s : σ} (hs : T.Reachable s) (hI : I s) : ∃ t, T.Reachable t ∧ I t ∧ G t := by
  have hbound : ∀ k s, m s < k → T.Reachable s → I s →
      ∃ t, T.Reachable t ∧ I t ∧ G t := by
    intro k
    induction k with
    | zero =>
        intro s hlt
        exact absurd hlt (Nat.not_lt_zero _)
    | succ k ih =>
        intro s hlt hs hI
        by_cases hgoal : G s
        · exact ⟨s, hs, hI, hgoal⟩
        · obtain ⟨t, ht, hIt, hsmaller⟩ := hstep s hs hI hgoal
          exact ih t (Nat.lt_of_lt_of_le hsmaller (Nat.le_of_lt_succ hlt)) ht hIt
  exact hbound (m s + 1) s (Nat.lt_succ_self _) hs hI

/-- Runs stay inside the reachable states. -/
theorem Run.reachable {s t : σ} {es : List ε} (h : T.Run s es t)
    (hs : T.Reachable s) : T.Reachable t := by
  induction h with
  | nil s => exact hs
  | cons hnext _ ih => exact ih (hs.step hnext)

theorem Run.trans {s t u : σ} {es es' : List ε} (h : T.Run s es t)
    (h' : T.Run t es' u) : T.Run s (es ++ es') u := by
  induction h with
  | nil s => exact h'
  | cons hnext _ ih => exact .cons hnext (ih h')

/-- A run step by step, its last step last. -/
theorem Run.snoc {s t u : σ} {es : List ε} {e : ε} (h : T.Run s es t)
    (hnext : T.next t e u) : T.Run s (es ++ [e]) u :=
  h.trans (.cons hnext (.nil u))

/-- The last step of a run, taken off. -/
theorem Run.of_snoc {s u : σ} {es : List ε} {e : ε} (h : T.Run s (es ++ [e]) u) :
    ∃ t, T.Run s es t ∧ T.next t e u := by
  induction es generalizing s with
  | nil =>
      cases h with
      | cons hnext hrest =>
          cases hrest
          exact ⟨s, .nil s, hnext⟩
  | cons e' es ih =>
      cases h with
      | cons hnext hrest =>
          obtain ⟨t, hrun, hlast⟩ := ih hrest
          exact ⟨t, .cons hnext hrun, hlast⟩

/-- If the event decides where a step leads, the events decide where a run
leads. -/
theorem Run.unique (hnext : ∀ s e t t', T.next s e t → T.next s e t' → t = t')
    {s t t' : σ} {es : List ε} (h : T.Run s es t) (h' : T.Run s es t') : t = t' := by
  induction h with
  | nil s =>
      cases h'
      rfl
  | cons hstep _ ih =>
      cases h' with
      | cons hstep' hrest =>
          cases hnext _ _ _ _ hstep hstep'
          exact ih hrest

/-! ## Restricting the environment -/

/-- The runs of `T` all of whose steps meet `P`. -/
def restrict (T : System σ ε) (P : σ → ε → Prop) : System σ ε where
  init := T.init
  next s e t := T.next s e t ∧ P s e

/-- The runs of `T` all of whose states, after the first, meet `E`. -/
def within (T : System σ ε) (E : σ → Prop) : System σ ε where
  init := T.init
  next s e t := T.next s e t ∧ E t

/-- If a step that meets `P` keeps the invariant, and only such a step leads to
a state that meets `E`, then the runs that stay within `E` are those whose
steps meet `P`. -/
theorem within_run_iff {I E : σ → Prop} {P : σ → ε → Prop}
    (hE : ∀ s, I s → E s)
    (hstep : ∀ s e t, T.Reachable s → I s → T.next s e t →
      (P s e → I t) ∧ (E t → P s e))
    {s t : σ} {es : List ε} (hs : T.Reachable s) (hI : I s) :
    (T.within E).Run s es t ↔ (T.restrict P).Run s es t := by
  constructor
  · intro hrun
    induction hrun with
    | nil s => exact .nil s
    | cons hnext _ ih =>
        obtain ⟨hkeeps, honly⟩ := hstep _ _ _ hs hI hnext.1
        have hP := honly hnext.2
        exact .cons ⟨hnext.1, hP⟩ (ih (hs.step hnext.1) (hkeeps hP))
  · intro hrun
    induction hrun with
    | nil s => exact .nil s
    | cons hnext _ ih =>
        have hkept := (hstep _ _ _ hs hI hnext.1).1 hnext.2
        exact .cons ⟨hnext.1, hE _ hkept⟩ (ih (hs.step hnext.1) hkept)

theorem Reachable.of_restrict {P : σ → ε → Prop} {s : σ}
    (h : (T.restrict P).Reachable s) : T.Reachable s := by
  induction h with
  | start h₀ => exact .start h₀
  | step _ hnext ih => exact ih.step hnext.1

/-! ## Abstraction -/

/-- Some step is possible. -/
def Enabled (T : System σ ε) (s : σ) : Prop := ∃ e t, T.next s e t

/-- `U` is what `T` looks like through `f`: under the invariant `I` every step
of `T` is one of `U`, and every step of `U` is taken by `T`. -/
structure Abstracts {σ' ε' : Type*} (T : System σ ε) (U : System σ' ε')
    (f : σ → σ') (I : σ → Prop) : Prop where
  init_inv : ∀ s, T.init s → I s
  step_inv : ∀ s e t, I s → T.next s e t → I t
  init : ∀ s, T.init s → U.init (f s)
  init_lift : ∀ u, U.init u → ∃ s, T.init s ∧ f s = u
  step : ∀ s e t, I s → T.next s e t → ∃ e', U.next (f s) e' (f t)
  step_lift : ∀ s e' u, I s → U.next (f s) e' u → ∃ e t, T.next s e t ∧ f t = u

namespace Abstracts

variable {σ' ε' : Type*} {U : System σ' ε'} {f : σ → σ'} {I : σ → Prop}

theorem inv (h : Abstracts T U f I) {s : σ} (hs : T.Reachable s) : I s :=
  hs.induct h.init_inv fun s e t _ hI hnext => h.step_inv s e t hI hnext

/-- Reachable states look reachable. -/
theorem reachable (h : Abstracts T U f I) {s : σ} (hs : T.Reachable s) :
    U.Reachable (f s) := by
  induction hs with
  | start h₀ => exact .start (h.init _ h₀)
  | step hs hnext ih =>
      obtain ⟨e', hnext'⟩ := h.step _ _ _ (h.inv hs) hnext
      exact ih.step hnext'

/-- What looks reachable is. -/
theorem reachable_lift (h : Abstracts T U f I) {u : σ'} (hu : U.Reachable u) :
    ∃ s, T.Reachable s ∧ f s = u := by
  induction hu with
  | start h₀ =>
      obtain ⟨s, hs, hf⟩ := h.init_lift _ h₀
      exact ⟨s, .start hs, hf⟩
  | step _ hnext ih =>
      obtain ⟨s, hs, rfl⟩ := ih
      obtain ⟨e, t, hnext', hf⟩ := h.step_lift _ _ _ (h.inv hs) hnext
      exact ⟨t, hs.step hnext', hf⟩

/-- A state can move exactly when it looks as if it could. -/
theorem enabled_iff (h : Abstracts T U f I) {s : σ} (hs : T.Reachable s) :
    T.Enabled s ↔ U.Enabled (f s) := by
  constructor
  · rintro ⟨e, t, hnext⟩
    obtain ⟨e', hnext'⟩ := h.step _ _ _ (h.inv hs) hnext
    exact ⟨e', f t, hnext'⟩
  · rintro ⟨e', u, hnext⟩
    obtain ⟨e, t, hnext', _⟩ := h.step_lift _ _ _ (h.inv hs) hnext
    exact ⟨e, t, hnext'⟩

end Abstracts

/-! ## Simulation -/

/-- Each step of `T` is a step of `U`, or none, between states that `R` relates. -/
structure Simulation {σ' ε' : Type*} (T : System σ ε) (U : System σ' ε')
    (R : σ → σ' → Prop) : Prop where
  init : ∀ s, T.init s → ∃ u, U.init u ∧ R s u
  step : ∀ s u e t, U.Reachable u → R s u → T.next s e t →
    R t u ∨ ∃ e' v, U.next u e' v ∧ R t v

/-- A reachable state is related to a reachable one. -/
theorem Simulation.reachable {σ' ε' : Type*} {U : System σ' ε'} {R : σ → σ' → Prop}
    (h : Simulation T U R) {s : σ} (hs : T.Reachable s) : ∃ u, U.Reachable u ∧ R s u := by
  induction hs with
  | start h₀ =>
      obtain ⟨u, hu, hR⟩ := h.init _ h₀
      exact ⟨u, .start hu, hR⟩
  | step _ hnext ih =>
      obtain ⟨u, hu, hR⟩ := ih
      rcases h.step _ _ _ _ hu hR hnext with hR' | ⟨e', v, hnext', hR'⟩
      · exact ⟨u, hu, hR'⟩
      · exact ⟨v, hu.step hnext', hR'⟩

/-! ## Bisimulation -/

/-- `R` relates the initial states, and each step from related states is matched
by one of the other system on the same event. -/
structure Bisimulation {σ' : Type*} (T : System σ ε) (U : System σ' ε)
    (R : σ → σ' → Prop) : Prop where
  init : ∀ s u, T.init s → U.init u → R s u
  forth : ∀ s u e t, R s u → T.next s e t → ∃ v, U.next u e v ∧ R t v
  back : ∀ s u e v, R s u → U.next u e v → ∃ t, T.next s e t ∧ R t v

namespace Bisimulation

variable {σ' : Type*} {U : System σ' ε} {R : σ → σ' → Prop}

theorem run_forth (h : Bisimulation T U R) {s t : σ} {u : σ'} {es : List ε}
    (hR : R s u) (hrun : T.Run s es t) : ∃ v, U.Run u es v ∧ R t v := by
  induction hrun generalizing u with
  | nil s => exact ⟨u, .nil u, hR⟩
  | cons hnext _ ih =>
      obtain ⟨v, hnext', hR'⟩ := h.forth _ _ _ _ hR hnext
      obtain ⟨w, hrun', hR''⟩ := ih hR'
      exact ⟨w, .cons hnext' hrun', hR''⟩

theorem run_back (h : Bisimulation T U R) {s : σ} {u v : σ'} {es : List ε}
    (hR : R s u) (hrun : U.Run u es v) : ∃ t, T.Run s es t ∧ R t v := by
  induction hrun generalizing s with
  | nil u => exact ⟨s, .nil s, hR⟩
  | cons hnext _ ih =>
      obtain ⟨t, hnext', hR'⟩ := h.back _ _ _ _ hR hnext
      obtain ⟨w, hrun', hR''⟩ := ih hR'
      exact ⟨w, .cons hnext' hrun', hR''⟩

end Bisimulation

end System

end SysLab.Foundation
