import Mathlib.Data.Fintype.Card
import SysLab.Foundation.Transition

/-!
# Work handed from a producer to a pool of sleeping workers

A producer receives pieces of work and puts them in a queue; the workers take them
out and go to sleep when there are none.  Putting one in wakes at least one sleeper,
if any; a sleeper may also wake for no reason, and a worker that is awake may get
there first.

* `reachable_exclusive` — no piece of work is in two places.
* `reachable_fifo` — work is taken in the order in which it was put in.
* `reachable_awake` — while somebody sleeps, there are at least as many workers
  woken and not yet running as pieces of work in the queue: no wake-up is lost.
-/

namespace SysLab.Foundation.WorkQueue

/-- What a worker is doing. -/
inductive Stage (κ : Type*)
  | idle
  | waiting
  | woken
  | busy (k : κ)
  deriving DecidableEq

/-- The producer's hand, the queue, the workers, and what has been put in and
taken so far. -/
structure State (κ : Type*) (ι : Type*) where
  hand : Option κ
  queue : List κ
  stage : ι → Stage κ
  pushed : List κ
  popped : List (ι × κ)

/-- Woken, and not yet running. -/
def Stage.isWoken {κ : Type*} : Stage κ → Bool
  | .woken => true
  | _ => false

/-- Where a piece of work may be. -/
inductive Place (ι : Type*)
  | hand
  | queue
  | worker (i : ι)

section Model

variable {κ : Type*} {ι : Type*}

/-- A piece of work is in a place. -/
def State.Holds (s : State κ ι) : Place ι → κ → Prop
  | .hand, k => s.hand = some k
  | .queue, k => k ∈ s.queue
  | .worker i, k => s.stage i = .busy k

/-- A worker that looks at the queue next. -/
def State.Looks (s : State κ ι) (i : ι) : Prop :=
  s.stage i = .idle ∨ s.stage i = .woken

/-- The sleepers a signal may wake: at least one, if there is one. -/
structure State.Signals (s : State κ ι) (wake : Finset ι) : Prop where
  waiting : ∀ i ∈ wake, s.stage i = .waiting
  nonempty : (∃ i, s.stage i = .waiting) → wake.Nonempty

inductive Move (κ : Type*) (ι : Type*)
  | receive (k : κ)
  | refuse
  | push (wake : Finset ι)
  | pop (i : ι)
  | rouse (i : ι)
  | finish (i : ι)

variable [DecidableEq ι]

/-- The workers in `wake` are woken. -/
def rouse (stage : ι → Stage κ) (wake : Finset ι) (i : ι) : Stage κ :=
  if i ∈ wake then .woken else stage i

inductive Step : State κ ι → Move κ ι → State κ ι → Prop
  | receive {s : State κ ι} {k : κ} : s.hand = none → (∀ p, ¬ s.Holds p k) →
      Step s (.receive k) { s with hand := some k }
  | refuse {s : State κ ι} {k : κ} : s.hand = some k →
      Step s .refuse { s with hand := none }
  | push {s : State κ ι} {k : κ} {wake : Finset ι} : s.hand = some k → s.Signals wake →
      Step s (.push wake) { s with
        hand := none
        queue := s.queue ++ [k]
        stage := rouse s.stage wake
        pushed := s.pushed ++ [k] }
  | sleep {s : State κ ι} {i : ι} : s.Looks i → s.queue = [] →
      Step s (.pop i) { s with stage := Function.update s.stage i .waiting }
  | take {s : State κ ι} {i : ι} {k : κ} {rest : List κ} : s.Looks i →
      s.queue = k :: rest →
      Step s (.pop i) { s with
        queue := rest
        stage := Function.update s.stage i (.busy k)
        popped := s.popped ++ [(i, k)] }
  | rouse {s : State κ ι} {i : ι} : s.stage i = .waiting →
      Step s (.rouse i) { s with stage := Function.update s.stage i .woken }
  | finish {s : State κ ι} {i : ι} {k : κ} : s.stage i = .busy k →
      Step s (.finish i) { s with stage := Function.update s.stage i .idle }

/-- Nothing has been received yet. -/
def start : State κ ι := ⟨none, [], fun _ => .idle, [], []⟩

def system (κ : Type*) (ι : Type*) [DecidableEq ι] : System (State κ ι) (Move κ ι) where
  init s := s = start
  next := Step

/-! ## First in, first out -/

theorem reachable_fifo {s : State κ ι} (hs : (system κ ι).Reachable s) :
    s.pushed = s.popped.map Prod.snd ++ s.queue := by
  refine hs.induct (I := fun s => s.pushed = s.popped.map Prod.snd ++ s.queue) ?_ ?_
  · rintro s rfl
    rfl
  · intro s m t _ h hstep
    cases hstep with
    | receive _ _ => exact h
    | refuse _ => exact h
    | push _ _ =>
        dsimp only
        rw [h, List.append_assoc]
    | sleep _ _ => exact h
    | take _ hqueue =>
        rw [hqueue] at h
        dsimp only
        rw [h, List.map_append, List.append_assoc]
        rfl
    | rouse _ => exact h
    | finish _ => exact h

/-! ## One place for each piece of work -/

/-- No piece of work is in two places, or twice in the queue. -/
structure Exclusive (s : State κ ι) : Prop where
  place : ∀ p p' k, s.Holds p k → s.Holds p' k → p = p'
  nodup : s.queue.Nodup

section Exclusive

variable {s t : State κ ι}

omit [DecidableEq ι] in
/-- Whoever lets go of work stays exclusive. -/
theorem Exclusive.mono (h : Exclusive s) (hholds : ∀ p k, t.Holds p k → s.Holds p k)
    (hqueue : t.queue = s.queue) : Exclusive t where
  place p p' k hp hp' := h.place p p' k (hholds p k hp) (hholds p' k hp')
  nodup := hqueue ▸ h.nodup

omit [DecidableEq ι] in
/-- So does a pool in which one piece of work has come to the place `b`. -/
theorem Exclusive.moved (h : Exclusive s) {k : κ} {b : Place ι}
    (hmove : ∀ p x, t.Holds p x → s.Holds p x ∧ x ≠ k ∨ x = k ∧ p = b)
    (hnodup : t.queue.Nodup) : Exclusive t where
  place p p' x hp hp' := by
    rcases hmove p x hp with ⟨hold, hne⟩ | ⟨rfl, rfl⟩
    · rcases hmove p' x hp' with ⟨hold', _⟩ | ⟨heq, _⟩
      · exact h.place p p' x hold hold'
      · exact absurd heq hne
    · rcases hmove p' x hp' with ⟨_, hne⟩ | ⟨_, rfl⟩
      · exact absurd rfl hne
      · rfl
  nodup := hnodup

/-- A stage other than the one just entered is that of another worker. -/
theorem stage_update_of_ne {stage : ι → Stage κ} {i j : ι} {st st' : Stage κ}
    (hst : st ≠ st') (h : Function.update stage i st j = st') :
    j ≠ i ∧ stage j = st' := by
  by_cases hj : j = i
  · subst hj
    rw [Function.update_self] at h
    exact absurd h hst
  · rw [Function.update_of_ne hj] at h
    exact ⟨hj, h⟩

/-- So does a pool in which a worker has nothing to do any more. -/
theorem Exclusive.freed (h : Exclusive s) (i : ι) {st : Stage κ}
    (hst : ∀ k, st ≠ .busy k) :
    Exclusive { s with stage := Function.update s.stage i st } := by
  refine h.mono (fun p x hp => ?_) rfl
  cases p with
  | hand => exact hp
  | queue => exact hp
  | worker j => exact (stage_update_of_ne (hst x) hp).2

theorem rouse_busy {stage : ι → Stage κ} {wake : Finset ι} {j : ι} {k : κ}
    (h : rouse stage wake j = .busy k) : stage j = .busy k := by
  unfold rouse at h
  split at h
  · cases h
  · exact h

/-- Work put into the queue. -/
theorem Exclusive.push (h : Exclusive s) {k : κ} (hhand : s.hand = some k)
    (wake : Finset ι) :
    Exclusive { s with
      hand := none
      queue := s.queue ++ [k]
      stage := WorkQueue.rouse s.stage wake
      pushed := s.pushed ++ [k] } := by
  have hk : ∀ p x, s.Holds p x → p ≠ .hand → x ≠ k := by
    rintro p x hp hne rfl
    exact hne (h.place p .hand x hp hhand)
  refine h.moved (k := k) (b := .queue) ?_ ?_
  · intro p x hp
    cases p with
    | hand => cases hp
    | queue =>
        rcases List.mem_append.mp hp with hmem | hmem
        · exact .inl ⟨hmem, hk .queue x hmem (by simp)⟩
        · exact .inr ⟨List.mem_singleton.mp hmem, rfl⟩
    | worker j =>
        have hbusy : s.Holds (.worker j) x := rouse_busy hp
        exact .inl ⟨hbusy, hk _ x hbusy (by simp)⟩
  · refine List.Nodup.append h.nodup (List.nodup_singleton k) ?_
    intro x hx hxk
    rw [List.mem_singleton] at hxk
    exact hk .queue x hx (by simp) hxk

/-- Work taken from the queue. -/
theorem Exclusive.take (h : Exclusive s) {i : ι} {k : κ} {rest : List κ}
    (hlooks : s.Looks i) (hqueue : s.queue = k :: rest) :
    Exclusive { s with
      queue := rest
      stage := Function.update s.stage i (.busy k)
      popped := s.popped ++ [(i, k)] } := by
  have hnodup := h.nodup
  rw [hqueue] at hnodup
  obtain ⟨hnot, hrest⟩ := List.nodup_cons.mp hnodup
  have hhead : s.Holds .queue k := by
    show k ∈ s.queue
    rw [hqueue]
    exact List.mem_cons_self
  have hk : ∀ p x, s.Holds p x → p ≠ .queue → x ≠ k := by
    rintro p x hp hne rfl
    exact hne (h.place p .queue x hp hhead)
  refine h.moved (k := k) (b := .worker i) ?_ hrest
  intro p x hp
  cases p with
  | hand => exact .inl ⟨hp, hk .hand x hp (by simp)⟩
  | queue =>
      have hmem : s.Holds .queue x := by
        show x ∈ s.queue
        rw [hqueue]
        exact List.mem_cons_of_mem k hp
      refine .inl ⟨hmem, ?_⟩
      rintro rfl
      exact hnot hp
  | worker j =>
      change Function.update s.stage i (.busy k) j = .busy x at hp
      by_cases hj : j = i
      · subst hj
        rw [Function.update_self] at hp
        cases hp
        exact .inr ⟨rfl, rfl⟩
      · rw [Function.update_of_ne hj] at hp
        have hbusy : s.Holds (.worker j) x := hp
        exact .inl ⟨hbusy, hk _ x hbusy (by simp)⟩

theorem reachable_exclusive (hs : (system κ ι).Reachable s) : Exclusive s := by
  refine hs.induct ?_ ?_
  · rintro s rfl
    refine ⟨fun p p' k hp => ?_, List.nodup_nil⟩
    cases p with
    | hand => cases hp
    | queue => cases hp
    | worker i => cases hp
  · intro s m t _ h hstep
    cases hstep with
    | @receive k _ hfresh =>
        refine h.moved (k := k) (b := .hand) ?_ h.nodup
        intro p x hp
        cases p with
        | hand => exact .inr ⟨(Option.some.inj hp).symm, rfl⟩
        | queue => exact .inl ⟨hp, fun heq => hfresh .queue (heq ▸ hp)⟩
        | worker j => exact .inl ⟨hp, fun heq => hfresh (.worker j) (heq ▸ hp)⟩
    | refuse _ =>
        refine h.mono (fun p x hp => ?_) rfl
        cases p with
        | hand => cases hp
        | queue => exact hp
        | worker j => exact hp
    | push hhand _ => exact h.push hhand _
    | @sleep i _ _ => exact h.freed i (by simp)
    | take hlooks hqueue => exact h.take hlooks hqueue
    | @rouse i _ => exact h.freed i (by simp)
    | @finish i _ _ => exact h.freed i (by simp)

end Exclusive

/-! ## What is around -/

section Held

variable {s t : State κ ι} {m : Move κ ι}

/-- A piece of work is somewhere. -/
def State.Held (s : State κ ι) (k : κ) : Prop := ∃ p, s.Holds p k

/-- What a move brings in. -/
def Move.Gains : Move κ ι → κ → Prop
  | .receive k, x => x = k
  | _, _ => False

/-- What a move gives away. -/
def State.Drops (s : State κ ι) : Move κ ι → κ → Prop
  | .refuse, x => s.hand = some x
  | .finish i, x => s.stage i = .busy x
  | _, _ => False

omit [DecidableEq ι] in
theorem held_iff {k : κ} :
    s.Held k ↔ s.hand = some k ∨ k ∈ s.queue ∨ ∃ i, s.stage i = .busy k := by
  constructor
  · rintro ⟨p, hp⟩
    cases p with
    | hand => exact .inl hp
    | queue => exact .inr (.inl hp)
    | worker i => exact .inr (.inr ⟨i, hp⟩)
  · rintro (hhand | hqueue | ⟨i, hi⟩)
    · exact ⟨.hand, hhand⟩
    · exact ⟨.queue, hqueue⟩
    · exact ⟨.worker i, hi⟩

/-- Other workers stay busy with what they have. -/
theorem busy_update {stage : ι → Stage κ} {i : ι} {st : Stage κ} {x : κ} :
    (∃ j, Function.update stage i st j = .busy x) ↔
      st = .busy x ∨ ∃ j, j ≠ i ∧ stage j = .busy x := by
  constructor
  · rintro ⟨j, hj⟩
    by_cases hji : j = i
    · subst hji
      rw [Function.update_self] at hj
      exact .inl hj
    · rw [Function.update_of_ne hji] at hj
      exact .inr ⟨j, hji, hj⟩
  · rintro (hst | ⟨j, hji, hj⟩)
    · exact ⟨i, (Function.update_self _ _ _).trans hst⟩
    · exact ⟨j, (Function.update_of_ne hji _ _).trans hj⟩

/-- A worker that was not busy has nothing to lose. -/
theorem busy_update_of_free {stage : ι → Stage κ} {i : ι} {st : Stage κ} {x : κ}
    (hfree : ∀ k, stage i ≠ .busy k) :
    (∃ j, Function.update stage i st j = .busy x) ↔
      st = .busy x ∨ ∃ j, stage j = .busy x := by
  rw [busy_update]
  constructor
  · rintro (hst | ⟨j, _, hj⟩)
    · exact .inl hst
    · exact .inr ⟨j, hj⟩
  · rintro (hst | ⟨j, hj⟩)
    · exact .inl hst
    · refine .inr ⟨j, ?_, hj⟩
      rintro rfl
      exact hfree x hj

omit [DecidableEq ι] in
theorem State.Looks.free {i : ι} (h : s.Looks i) (k : κ) : s.stage i ≠ .busy k := by
  rcases h with h | h <;> simp [h]

/-- Work comes in by `receive` and goes out by `refuse` and `finish` only. -/
theorem Step.held_iff (hexcl : Exclusive s) (hstep : Step s m t) (x : κ) :
    t.Held x ↔ s.Held x ∧ ¬ s.Drops m x ∨ m.Gains x := by
  cases hstep with
  | @receive k hhand _ =>
      simp only [WorkQueue.held_iff, State.Drops, Move.Gains, hhand]
      grind
  | @refuse k hhand =>
      have hplace := hexcl.place .hand
      have hqueue : x = k → x ∉ s.queue := by
        rintro rfl hmem
        cases hplace .queue x hhand hmem
      have hbusy : ∀ i, x = k → s.stage i ≠ .busy x := by
        rintro i rfl hi
        cases hplace (.worker i) x hhand hi
      simp only [WorkQueue.held_iff, State.Drops, Move.Gains, hhand]
      grind
  | @push k wake hhand hsignals =>
      have hbusy : (∃ i, WorkQueue.rouse s.stage wake i = .busy x) ↔
          ∃ i, s.stage i = .busy x := by
        refine exists_congr fun i => ⟨rouse_busy, fun hi => ?_⟩
        have hnot : i ∉ wake := fun hmem => by
          rw [hsignals.waiting i hmem] at hi
          cases hi
        exact (if_neg hnot).trans hi
      simp only [WorkQueue.held_iff, State.Drops, Move.Gains, hhand, hbusy]
      grind
  | @sleep i hlooks hqueue =>
      simp only [WorkQueue.held_iff, State.Drops, Move.Gains,
        busy_update_of_free hlooks.free]
      grind
  | @take i k rest hlooks hqueue =>
      simp only [WorkQueue.held_iff, State.Drops, Move.Gains,
        busy_update_of_free hlooks.free, hqueue]
      grind
  | @rouse i hi =>
      have hfree : ∀ k, s.stage i ≠ .busy k := by simp [hi]
      simp only [WorkQueue.held_iff, State.Drops, Move.Gains, busy_update_of_free hfree]
      grind
  | @finish i k hi =>
      have hplace := hexcl.place (.worker i)
      have hqueue : x = k → x ∉ s.queue := by
        rintro rfl hmem
        cases hplace .queue x hi hmem
      have hhand : x = k → s.hand ≠ some x := by
        rintro rfl hmem
        cases hplace .hand x hi hmem
      have hbusy : ∀ j, x = k → s.stage j = .busy x → j = i := by
        rintro j rfl hj
        cases hplace (.worker j) x hi hj
        rfl
      simp only [WorkQueue.held_iff, State.Drops, Move.Gains, busy_update, hi]
      grind

end Held

/-! ## No lost wake-up -/

section Awake

variable [Fintype ι] {s t : State κ ι}

/-- The workers woken that have not looked at the queue yet. -/
def State.wokenWorkers (s : State κ ι) : Finset ι :=
  Finset.univ.filter fun i => (s.stage i).isWoken

omit [DecidableEq ι] in
theorem mem_wokenWorkers {i : ι} : i ∈ s.wokenWorkers ↔ s.stage i = .woken := by
  rw [State.wokenWorkers, Finset.mem_filter]
  cases s.stage i <;> simp [Stage.isWoken]

/-- While somebody sleeps, each piece of work in the queue has a worker woken for
it. -/
def Awake (s : State κ ι) : Prop :=
  (∃ i, s.stage i = .waiting) → s.queue.length ≤ s.wokenWorkers.card

omit [DecidableEq ι] in
/-- Nobody new falls asleep, and the workers woken are still there. -/
theorem Awake.mono (h : Awake s)
    (hsleep : (∃ i, t.stage i = .waiting) → ∃ i, s.stage i = .waiting)
    (hwoken : ∀ i, s.stage i = .woken → t.stage i = .woken)
    (hqueue : t.queue = s.queue) : Awake t := by
  intro hwaiting
  have hsubset : s.wokenWorkers ⊆ t.wokenWorkers := fun i hi =>
    mem_wokenWorkers.mpr (hwoken i (mem_wokenWorkers.mp hi))
  calc
    t.queue.length = s.queue.length := by rw [hqueue]
    _ ≤ s.wokenWorkers.card := h (hsleep hwaiting)
    _ ≤ t.wokenWorkers.card := Finset.card_le_card hsubset

/-- A signal wakes somebody for the work it announces. -/
theorem Awake.push (h : Awake s) {wake : Finset ι} (hsignals : s.Signals wake) (k : κ) :
    Awake { s with
      hand := none
      queue := s.queue ++ [k]
      stage := WorkQueue.rouse s.stage wake
      pushed := s.pushed ++ [k] } := by
  rintro ⟨j, hj⟩
  have hwaiting : ∃ i, s.stage i = .waiting := by
    refine ⟨j, ?_⟩
    change WorkQueue.rouse s.stage wake j = .waiting at hj
    unfold WorkQueue.rouse at hj
    split at hj
    · cases hj
    · exact hj
  obtain ⟨i, hi⟩ := hsignals.nonempty hwaiting
  have hnot : i ∉ s.wokenWorkers := by
    intro hmem
    have hwoken := mem_wokenWorkers.mp hmem
    rw [hsignals.waiting i hi] at hwoken
    cases hwoken
  have hsubset : insert i s.wokenWorkers ⊆
      State.wokenWorkers { s with
        hand := none
        queue := s.queue ++ [k]
        stage := WorkQueue.rouse s.stage wake
        pushed := s.pushed ++ [k] } := by
    intro j hj
    refine mem_wokenWorkers.mpr ?_
    show WorkQueue.rouse s.stage wake j = .woken
    unfold WorkQueue.rouse
    rcases Finset.mem_insert.mp hj with rfl | hj
    · exact if_pos hi
    · rw [mem_wokenWorkers.mp hj, ite_self]
  calc
    (s.queue ++ [k]).length = s.queue.length + 1 := List.length_append
    _ ≤ s.wokenWorkers.card + 1 := Nat.succ_le_succ (h hwaiting)
    _ = (insert i s.wokenWorkers).card := (Finset.card_insert_of_notMem hnot).symm
    _ ≤ _ := Finset.card_le_card hsubset

/-- A worker that takes work, woken for it or not, uses up one wake-up at most. -/
theorem Awake.take (h : Awake s) {i : ι} {k : κ} {rest : List κ}
    (hqueue : s.queue = k :: rest) :
    Awake { s with
      queue := rest
      stage := Function.update s.stage i (.busy k)
      popped := s.popped ++ [(i, k)] } := by
  rintro ⟨j, hj⟩
  change Function.update s.stage i (.busy k) j = .waiting at hj
  have hji : j ≠ i := by
    rintro rfl
    rw [Function.update_self] at hj
    cases hj
  rw [Function.update_of_ne hji] at hj
  have hbefore := h ⟨j, hj⟩
  rw [hqueue, List.length_cons] at hbefore
  have hsubset : s.wokenWorkers.erase i ⊆
      State.wokenWorkers { s with
        queue := rest
        stage := Function.update s.stage i (.busy k)
        popped := s.popped ++ [(i, k)] } := by
    intro j hj
    obtain ⟨hne, hj⟩ := Finset.mem_erase.mp hj
    refine mem_wokenWorkers.mpr ?_
    show Function.update s.stage i (.busy k) j = .woken
    rw [Function.update_of_ne hne]
    exact mem_wokenWorkers.mp hj
  have hcard := Finset.card_le_card hsubset
  have herase : s.wokenWorkers.card - 1 ≤ (s.wokenWorkers.erase i).card :=
    Finset.pred_card_le_card_erase
  dsimp only
  omega

theorem reachable_awake (hs : (system κ ι).Reachable s) : Awake s := by
  refine hs.induct ?_ ?_
  · rintro s rfl ⟨i, hi⟩
    cases hi
  · intro s m t _ h hstep
    cases hstep with
    | receive _ _ => exact h
    | refuse _ => exact h
    | push _ hsignals => exact h.push hsignals _
    | sleep _ hqueue =>
        intro _
        dsimp only
        rw [hqueue]
        exact Nat.zero_le _
    | take _ hqueue => exact h.take hqueue
    | @rouse i hi =>
        refine h.mono (fun _ => ⟨i, hi⟩) (fun j hj => ?_) rfl
        by_cases hji : j = i
        · subst hji
          exact Function.update_self _ _ _
        · show Function.update s.stage i .woken j = .woken
          rw [Function.update_of_ne hji]
          exact hj
    | @finish i k hi =>
        refine h.mono (fun ⟨j, hj⟩ => ⟨j, ?_⟩) (fun j hj => ?_) rfl
        · exact (stage_update_of_ne (by simp) hj).2
        · have hji : j ≠ i := by
            rintro rfl
            rw [hi] at hj
            cases hj
          show Function.update s.stage i .idle j = .woken
          rw [Function.update_of_ne hji]
          exact hj

end Awake

end Model

end SysLab.Foundation.WorkQueue
