import Mathlib.Data.List.Basic

/-!
# Loops, pass by pass

The body of a loop either goes round `again` with new values of the variables
or is `done`, with what the loop leaves behind.  `run` makes a given number of
passes, so that a loop is seen at every moment and not only at its end.

* `run_inv` — what every pass preserves holds at every moment, and what a last
  pass establishes holds at the end.
* `exists_done` — a loop whose passes decrease a measure ends, with what a last
  pass establishes.
* `trace` — what the passes of a run show; `trace_inv` is the invariant rule for
  what has been seen so far.
* `nest` — a loop whose body runs a loop to its end; one pass of it is one pass
  of the inner loop.
* `Leads` — the moments a loop comes to; `leads_of_done` passes over a loop that a
  larger program runs to its end.
-/

namespace SysLab.Foundation

/-- What one pass of a loop comes to. -/
inductive Progress (σ : Type*) (β : Type*)
  | again (s : σ)
  | done (b : β)
  deriving DecidableEq

/-- What holds of the result holds of a loop that is done. -/
theorem Progress.of_done {σ : Type*} {β : Type*} {P : σ → Prop} {Q : β → Prop} {b : β}
    (h : Q b) : (∀ s, Progress.done b = .again s → P s) ∧
      ∀ b', (Progress.done b : Progress σ β) = .done b' → Q b' := by
  constructor
  · intro s hagain
    cases hagain
  · intro b' hdone
    cases hdone
    exact h

namespace Loop

variable {σ : Type*} {β : Type*} {τ : Type*} {γ : Type*}

/-- At most `n` passes. -/
def run (body : σ → Progress σ β) : Nat → σ → Progress σ β
  | 0, s => .again s
  | n + 1, s =>
      match body s with
      | .again t => run body n t
      | .done b => .done b

section Run

variable {body : σ → Progress σ β} {s : σ}

theorem run_again {t : σ} (h : body s = .again t) (n : Nat) :
    run body (n + 1) s = run body n t := by
  rw [run, h]

theorem run_done {b : β} (h : body s = .done b) (n : Nat) :
    run body (n + 1) s = .done b := by
  rw [run, h]

/-- The invariant rule. -/
theorem run_inv {I : σ → Prop} {Q : β → Prop}
    (hagain : ∀ s t, I s → body s = .again t → I t)
    (hdone : ∀ s b, I s → body s = .done b → Q b) (n : Nat) (h : I s) :
    (∀ t, run body n s = .again t → I t) ∧ ∀ b, run body n s = .done b → Q b := by
  induction n generalizing s with
  | zero =>
      constructor
      · intro t hrun
        cases hrun
        exact h
      · intro b hrun
        cases hrun
  | succ n ih =>
      rcases hbody : body s with t | b
      · rw [run_again hbody]
        exact ih (hagain s t h hbody)
      · rw [run_done hbody]
        exact Progress.of_done (hdone s b h hbody)

/-- The rule of total correctness: a measure besides the invariant. -/
theorem exists_done {I : σ → Prop} {Q : β → Prop} (m : σ → Nat)
    (hagain : ∀ s t, I s → body s = .again t → I t ∧ m t < m s)
    (hdone : ∀ s b, I s → body s = .done b → Q b) (h : I s) :
    ∃ n b, run body n s = .done b ∧ Q b := by
  induction hm : m s using Nat.strongRecOn generalizing s with
  | _ k ih =>
      rcases hbody : body s with t | b
      · obtain ⟨ht, hless⟩ := hagain s t h hbody
        obtain ⟨n, b, hrun, hb⟩ := ih (m t) (hm ▸ hless) ht rfl
        exact ⟨n + 1, b, (run_again hbody n).trans hrun, hb⟩
      · exact ⟨1, b, run_done hbody 0, hdone s b h hbody⟩

end Run

/-! ## What is seen of a run -/

/-- What at most `n` passes show, `emit` saying what each does. -/
def trace {ε : Type*} (emit : σ → List ε) (body : σ → Progress σ β) : Nat → σ → List ε
  | 0, _ => []
  | n + 1, s =>
      emit s ++
        match body s with
        | .again t => trace emit body n t
        | .done _ => []

/-- The invariant rule, for what has been seen and the state. -/
theorem trace_inv {ε : Type*} {emit : σ → List ε} {body : σ → Progress σ β}
    {I : List ε → σ → Prop} {Q : List ε → β → Prop}
    (hagain : ∀ seen s t, I seen s → body s = .again t → I (seen ++ emit s) t)
    (hdone : ∀ seen s b, I seen s → body s = .done b → Q (seen ++ emit s) b)
    (n : Nat) {seen : List ε} {s : σ} (h : I seen s) :
    (∀ t, run body n s = .again t → I (seen ++ trace emit body n s) t) ∧
      ∀ b, run body n s = .done b → Q (seen ++ trace emit body n s) b := by
  induction n generalizing seen s with
  | zero =>
      constructor
      · intro t hrun
        cases hrun
        rwa [trace, List.append_nil]
      · intro b hrun
        cases hrun
  | succ n ih =>
      rw [trace]
      rcases hbody : body s with t | b
      · rw [run_again hbody]
        dsimp only
        rw [← List.append_assoc]
        exact ih (hagain seen s t h hbody)
      · rw [run_done hbody]
        dsimp only
        rw [List.append_nil]
        exact Progress.of_done (P := fun t => I (seen ++ emit s) t) (hdone seen s b h hbody)

/-! ## A loop in the body of a loop -/

/-- One pass of the inner loop; when that is done, `after` says how the outer
one goes on. -/
def nest (inner : σ → Progress σ β) (after : τ → β → Progress (τ × σ) γ)
    (x : τ × σ) : Progress (τ × σ) γ :=
  match inner x.2 with
  | .again s => .again (x.1, s)
  | .done b => after x.1 b

section Nest

variable {inner : σ → Progress σ β} {after : τ → β → Progress (τ × σ) γ}
  {t : τ} {s : σ}

theorem nest_again {s' : σ} (h : inner s = .again s') :
    nest inner after (t, s) = .again (t, s') := by
  rw [nest, h]

theorem nest_done {b : β} (h : inner s = .done b) :
    nest inner after (t, s) = after t b := by
  rw [nest, h]

/-- A pass that goes round again is one of the inner loop, or the inner loop is
done and the outer one goes on. -/
theorem nest_eq_again {x : τ × σ} (h : nest inner after (t, s) = .again x) :
    (∃ s', inner s = .again s' ∧ x = (t, s')) ∨
      ∃ b, inner s = .done b ∧ after t b = .again x := by
  rcases hinner : inner s with s' | b
  · rw [nest_again hinner] at h
    cases h
    exact .inl ⟨s', rfl, rfl⟩
  · rw [nest_done hinner] at h
    exact .inr ⟨b, rfl, h⟩

theorem nest_eq_done {c : γ} (h : nest inner after (t, s) = .done c) :
    ∃ b, inner s = .done b ∧ after t b = .done c := by
  rcases hinner : inner s with s' | b
  · rw [nest_again hinner] at h
    cases h
  · rw [nest_done hinner] at h
    exact ⟨b, rfl, h⟩

end Nest

/-! ## A loop in a larger program -/

/-- The variables and the result under other names. -/
def rename (f : σ → τ) (g : β → γ) : Progress σ β → Progress τ γ
  | .again s => .again (f s)
  | .done b => .done (g b)

/-- A loop is the same under other names. -/
theorem run_rename {body : σ → Progress σ β} {body' : τ → Progress τ γ} {f : σ → τ} {g : β → γ}
    (h : ∀ s, body' (f s) = rename f g (body s)) (n : Nat) (s : σ) :
    run body' n (f s) = rename f g (run body n s) := by
  induction n generalizing s with
  | zero => rfl
  | succ n ih =>
      have hbody' := h s
      rcases hbody : body s with t | b
      · rw [hbody] at hbody'
        rw [run_again hbody, run_again hbody', ih]
      · rw [hbody] at hbody'
        rw [run_done hbody, run_done hbody']
        rfl

/-- The loop comes to `t` from `s`. -/
def Leads (body : σ → Progress σ β) (s t : σ) : Prop := ∃ n, run body n s = .again t

section Leads

variable {body : σ → Progress σ β} {s t u : σ}

theorem Leads.refl (body : σ → Progress σ β) (s : σ) : Leads body s s := ⟨0, rfl⟩

theorem run_add {n : Nat} (h : run body n s = .again t) (m : Nat) :
    run body (n + m) s = run body m t := by
  induction n generalizing s with
  | zero =>
      cases h
      rw [Nat.zero_add]
  | succ n ih =>
      rcases hbody : body s with u | b
      · rw [run_again hbody] at h
        rw [Nat.succ_add, run_again hbody, ih h]
      · rw [run_done hbody] at h
        cases h

theorem Leads.trans (h : Leads body s t) (h' : Leads body t u) : Leads body s u := by
  obtain ⟨n, hrun⟩ := h
  obtain ⟨m, hrun'⟩ := h'
  exact ⟨n + m, (run_add hrun m).trans hrun'⟩

theorem Leads.step (h : body s = .again t) : Leads body s t := ⟨1, run_again h 0⟩

/-- A loop that ends from `t` ends from `s`. -/
theorem Leads.exists_done {Q : β → Prop} (h : Leads body s t)
    (hends : ∃ n b, run body n t = .done b ∧ Q b) : ∃ n b, run body n s = .done b ∧ Q b := by
  obtain ⟨n, hrun⟩ := h
  obtain ⟨m, b, hdone, hb⟩ := hends
  exact ⟨n + m, b, (run_add hrun m).trans hdone, hb⟩

/-- A program that runs a loop in passes of its own comes past the loop when it ends. -/
theorem leads_of_done {inner : τ → Progress τ γ} {f : τ → σ} {c : γ}
    (hagain : ∀ x y, inner x = .again y → body (f x) = .again (f y))
    (hdone : ∀ x, inner x = .done c → body (f x) = .again t) {n : Nat} {x : τ}
    (h : run inner n x = .done c) : Leads body (f x) t := by
  induction n generalizing x with
  | zero => cases h
  | succ n ih =>
      rcases hinner : inner x with y | c'
      · rw [run_again hinner] at h
        exact (Leads.step (hagain x y hinner)).trans (ih h)
      · rw [run_done hinner] at h
        cases h
        exact Leads.step (hdone x hinner)

end Leads

end Loop

end SysLab.Foundation
