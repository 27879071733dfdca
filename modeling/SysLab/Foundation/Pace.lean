import SysLab.Foundation.Termination

/-!
# Following a system at another pace

`T` follows `U` at its own pace if each of its steps is answered by a run of `U`, which
may be longer than a step, or empty.  `L` says which events of `U` may answer an event
of `T`; a step that is answered by nothing has to bring `pos` down, and a run that
answers one may put it up again by `K` for each of its steps.  So a bound on the runs
of `U` gives one on the runs of `T`.

* `Paced.run` — whole runs are followed.
* `Paced.restrict` — a condition on the events carries over.
* `Paced.length_le` — how long the runs are.
-/

namespace SysLab.Foundation.System

variable {σ : Type*} {ε : Type*} {σ' : Type*} {ε' : Type*} {T : System σ ε}
  {U : System σ' ε'}

/-- A run all of whose events meet a condition. -/
theorem Run.restrict {P : σ → ε → Prop} {s t : σ} {es : List ε} (h : T.Run s es t)
    (hP : ∀ e ∈ es, ∀ s, P s e) : (T.restrict P).Run s es t := by
  induction h with
  | nil s => exact .nil s
  | @cons s t u e es hnext _ ih =>
      refine .cons ⟨hnext, hP e List.mem_cons_self s⟩ (ih fun e' he' => ?_)
      exact hP e' (List.mem_cons_of_mem _ he')

/-- A restricted run is one. -/
theorem Run.of_restrict {P : σ → ε → Prop} {s t : σ} {es : List ε}
    (h : (T.restrict P).Run s es t) : T.Run s es t := by
  induction h with
  | nil s => exact .nil s
  | cons hnext _ ih => exact .cons hnext.1 ih

/-- A condition that every step meets as long as all have met it is no restriction. -/
theorem Reachable.restrict {P : σ → ε → Prop}
    (h : ∀ s e t, (T.restrict P).Reachable s → T.next s e t → P s e) {s : σ}
    (hs : T.Reachable s) : (T.restrict P).Reachable s := by
  induction hs with
  | start h₀ => exact .start h₀
  | step _ hnext ih => exact ih.step ⟨hnext, h _ _ _ ih hnext⟩

theorem Run.restrict_of_reachable {P : σ → ε → Prop}
    (h : ∀ s e t, (T.restrict P).Reachable s → T.next s e t → P s e) {s t : σ} {es : List ε}
    (hs : T.Reachable s) (hrun : T.Run s es t) : (T.restrict P).Run s es t := by
  induction hrun with
  | nil s => exact .nil s
  | cons hnext _ ih => exact .cons ⟨hnext, h _ _ _ (hs.restrict h) hnext⟩ (ih (hs.step hnext))

/-- `T` follows `U` at its own pace. -/
structure Paced (T : System σ ε) (U : System σ' ε') (R : σ → σ' → Prop)
    (L : ε → ε' → Prop) (pos : σ → Nat) (K : Nat) : Prop where
  init : ∀ s, T.init s → ∃ u, U.Reachable u ∧ R s u
  step : ∀ s u e t, T.Reachable s → U.Reachable u → R s u → T.next s e t →
    ∃ es v, U.Run u es v ∧ R t v ∧ (∀ e' ∈ es, L e e') ∧ pos t + 1 ≤ pos s + K * es.length

namespace Paced

variable {R : σ → σ' → Prop} {L : ε → ε' → Prop} {pos : σ → Nat} {K : Nat}

/-- A reachable state is related to a reachable one. -/
theorem reachable (h : Paced T U R L pos K) {s : σ} (hs : T.Reachable s) :
    ∃ u, U.Reachable u ∧ R s u := by
  induction hs with
  | start h₀ => exact h.init _ h₀
  | step hs hnext ih =>
      obtain ⟨u, hu, hR⟩ := ih
      obtain ⟨es, v, hrun, hR', _, _⟩ := h.step _ _ _ _ hs hu hR hnext
      exact ⟨v, hrun.reachable hu, hR'⟩

/-- A run is answered by a run. -/
theorem run (h : Paced T U R L pos K) {s t : σ} {u : σ'} {es : List ε} (hs : T.Reachable s)
    (hu : U.Reachable u) (hR : R s u) (hrun : T.Run s es t) :
    ∃ es' v, U.Run u es' v ∧ R t v ∧ (∀ e' ∈ es', ∃ e ∈ es, L e e') ∧
      es.length + pos t ≤ pos s + K * es'.length := by
  induction hrun generalizing u with
  | nil s => exact ⟨[], u, .nil u, hR, fun _ h => absurd h List.not_mem_nil, by simp⟩
  | cons hnext _ ih =>
      obtain ⟨es₁, v, hrun₁, hR₁, hL₁, hpos₁⟩ := h.step _ _ _ _ hs hu hR hnext
      obtain ⟨es₂, w, hrun₂, hR₂, hL₂, hpos₂⟩ :=
        ih (hs.step hnext) (hrun₁.reachable hu) hR₁
      refine ⟨es₁ ++ es₂, w, hrun₁.trans hrun₂, hR₂, fun e' he' => ?_, ?_⟩
      · rcases List.mem_append.mp he' with he' | he'
        · exact ⟨_, List.mem_cons_self, hL₁ e' he'⟩
        · obtain ⟨e, he, hL⟩ := hL₂ e' he'
          exact ⟨e, List.mem_cons_of_mem _ he, hL⟩
      · rw [List.length_cons, List.length_append, Nat.mul_add]
        omega

/-- Conditions on the events that go together. -/
theorem restrict (h : Paced T U R L pos K) {P : ε → Prop} {Q : ε' → Prop}
    (hinit : ∀ s, T.init s → ∃ u, (U.restrict fun _ e => Q e).Reachable u ∧ R s u)
    (hL : ∀ e e', P e → L e e' → Q e') :
    Paced (T.restrict fun _ e => P e) (U.restrict fun _ e => Q e) R L pos K where
  init := hinit
  step s u e t hs hu hR hnext := by
    obtain ⟨es, v, hrun, hR', hall, hpos⟩ :=
      h.step s u e t hs.of_restrict hu.of_restrict hR hnext.1
    exact ⟨es, v, hrun.restrict fun e' he' _ => hL e e' hnext.2 (hall e' he'), hR', hall, hpos⟩

/-- The runs are no longer than those that answer them allow. -/
theorem length_le (h : Paced T U R L pos K) {s t : σ} {u : σ'} {es : List ε} {N : Nat}
    (hs : T.Reachable s) (hu : U.Reachable u) (hR : R s u)
    (hbound : ∀ es' v, U.Run u es' v → (∀ e' ∈ es', ∃ e, L e e') → es'.length ≤ N)
    (hrun : T.Run s es t) : es.length + pos t ≤ pos s + K * N := by
  obtain ⟨es', v, hrun', _, hL, hlength⟩ := h.run hs hu hR hrun
  have hN := hbound es' v hrun' fun e' he' => by
    obtain ⟨e, _, he⟩ := hL e' he'
    exact ⟨e, he⟩
  have hmul := Nat.mul_le_mul_left K hN
  omega

end Paced

end SysLab.Foundation.System
