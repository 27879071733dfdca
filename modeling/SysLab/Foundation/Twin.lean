import SysLab.Foundation.Transition

/-!
# Runs with extra events

A list of `Twin` events describes two runs at once: the *plain* one performs the
shared events, the *disturbed* one the inserted events as well.  `Tolerates`
says that a relation between the two survives shared events, and inserted ones
that are quiet; `Tolerates.run` is what whole runs then owe, and
`Tolerates.agree_iff` the exact condition under which the two runs agree at
every point.
-/

namespace SysLab.Foundation

/-- An event of both runs, or of the disturbed one alone. -/
inductive Twin (ε : Type*)
  | shared (e : ε)
  | inserted (e : ε)

namespace Twin

variable {ε : Type*}

/-- The run without the insertions. -/
def plain : List (Twin ε) → List ε
  | [] => []
  | shared e :: es => e :: plain es
  | inserted _ :: es => plain es

/-- The run with them. -/
def disturbed : List (Twin ε) → List ε
  | [] => []
  | shared e :: es => e :: disturbed es
  | inserted e :: es => e :: disturbed es

/-- Every inserted event meets `P`. -/
def Inserts (P : ε → Prop) (es : List (Twin ε)) : Prop :=
  ∀ e, inserted e ∈ es → P e

theorem Inserts.tail {P : ε → Prop} {x : Twin ε} {es : List (Twin ε)}
    (h : Inserts P (x :: es)) : Inserts P es :=
  fun e he => h e (List.mem_cons_of_mem x he)

end Twin

namespace System

variable {σ : Type*} {ε : Type*} {T : System σ ε}

open Twin

/-- The relation `R` between the state of the plain run and that of the disturbed
one survives what both do and a quiet insertion, and lets the disturbed run
follow the plain one. -/
structure Tolerates (T : System σ ε) (R : σ → σ → Prop) (quiet : ε → Prop) : Prop where
  shared : ∀ s t e s' t', R s t → T.next s e s' → T.next t e t' → R s' t'
  follow : ∀ s t e s', R s t → T.next s e s' → ∃ t', T.next t e t'
  inserted : ∀ s t e t', R s t → quiet e → T.next t e t' → R s t'

namespace Tolerates

variable {R : σ → σ → Prop} {quiet : ε → Prop}

/-- Quiet insertions keep the two runs related. -/
theorem run (h : T.Tolerates R quiet) {es : List (Twin ε)} (hquiet : Inserts quiet es)
    {s t s' t' : σ} (hR : R s t) (hplain : T.Run s (plain es) s')
    (hdisturbed : T.Run t (disturbed es) t') : R s' t' := by
  induction es generalizing s t with
  | nil =>
      cases hplain
      cases hdisturbed
      exact hR
  | cons x es ih =>
      cases x with
      | shared e =>
          cases hplain with
          | cons hs hplain =>
              cases hdisturbed with
              | cons ht hdisturbed =>
                  exact ih hquiet.tail (h.shared _ _ _ _ _ hR hs ht) hplain hdisturbed
      | inserted e =>
          cases hdisturbed with
          | cons ht hdisturbed =>
              have hq : quiet e := hquiet e List.mem_cons_self
              exact ih hquiet.tail (h.inserted _ _ _ _ hR hq ht) hplain hdisturbed

/-- If an insertion that is not quiet breaks the agreement, then the two runs agree
at every point exactly when all insertions are quiet. -/
theorem agree_iff (h : T.Tolerates R quiet) (Agree : σ → σ → Prop) {allowed : ε → Prop}
    (hagree : ∀ s t, R s t → Agree s t)
    (hloud : ∀ s t e t', R s t → allowed e → ¬ quiet e → T.next t e t' → ¬ Agree s t')
    {es : List (Twin ε)} (hallowed : Inserts allowed es) {s t s' t' : σ} (hR : R s t)
    (hplain : T.Run s (plain es) s') (hdisturbed : T.Run t (disturbed es) t') :
    (∀ past, past <+: es → ∀ u v, T.Run s (plain past) u →
      T.Run t (disturbed past) v → Agree u v) ↔ Inserts quiet es := by
  constructor
  · intro hall
    induction es generalizing s t with
    | nil => exact fun e he => absurd he List.not_mem_nil
    | cons x es ih =>
        cases x with
        | shared e =>
            cases hplain with
            | cons hs hplain =>
                cases hdisturbed with
                | cons ht hdisturbed =>
                    have hrest : Inserts quiet es := by
                      refine ih hallowed.tail (h.shared _ _ _ _ _ hR hs ht) hplain
                        hdisturbed fun past hpast u v hu hv => ?_
                      exact hall (.shared e :: past) (List.cons_prefix_cons.mpr ⟨rfl, hpast⟩)
                        u v (.cons hs hu) (.cons ht hv)
                    intro e' he'
                    rcases List.mem_cons.mp he' with heq | he'
                    · cases heq
                    · exact hrest e' he'
        | inserted e =>
            cases hdisturbed with
            | cons ht hdisturbed =>
                have hnow := hall [.inserted e]
                  (List.cons_prefix_cons.mpr ⟨rfl, List.nil_prefix⟩) s _ (.nil s)
                  (.cons ht (.nil _))
                have hq : quiet e := by
                  by_contra hq
                  exact hloud _ _ _ _ hR (hallowed e List.mem_cons_self) hq ht hnow
                have hrest : Inserts quiet es := by
                  refine ih hallowed.tail (h.inserted _ _ _ _ hR hq ht) hplain
                    hdisturbed fun past hpast u v hu hv => ?_
                  exact hall (.inserted e :: past) (List.cons_prefix_cons.mpr ⟨rfl, hpast⟩)
                    u v hu (.cons ht hv)
                intro e' he'
                rcases List.mem_cons.mp he' with heq | he'
                · cases heq
                  exact hq
                · exact hrest e' he'
  · intro hquiet past hpast u v hu hv
    have hpastQuiet : Inserts quiet past := fun e he => hquiet e (hpast.subset he)
    exact hagree u v (h.run hpastQuiet hR hu hv)

end Tolerates

end System

end SysLab.Foundation
