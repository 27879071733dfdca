import SysLab.PartB.ThreadpoolQueue

/-!
# What the threads of the server can do next

Nothing but the kernel holds up a thread of `threadpool_server.c`: where it is at
`malloc`, at the mutex, or has a popped node, its step is defined.  A worker in
`write_full` has always bytes left, and a `write` that moves some of them never
makes it close the client.
-/

namespace SysLab.PartB.ThreadpoolServer

open SysLab.Foundation

variable {threadCount : Nat} {base : Finset Int} {s t : State threadCount}
  {w : Fin threadCount}

/-! ## `write_full` -/

/-- The client that `write_full` writes to, the bytes in the buffer and those
written. -/
def WorkerPc.transfer : WorkerPc → Option (Int × Nat × Nat)
  | .writing fd n done => some (fd, n, done)
  | _ => none

theorem writing_of_transfer {pc : WorkerPc} {fd : Int} {n done : Nat}
    (h : pc.transfer = some (fd, n, done)) : pc = .writing fd n done := by
  cases pc with
  | writing fd' n' done' =>
      cases h
      rfl
  | lock => cases h
  | waiting => cases h
  | woken => cases h
  | popped node => cases h
  | reading fd => cases h

/-- `write_full` has part of a buffer to write. -/
def WorkerPc.InTransfer (pc : WorkerPc) : Prop :=
  ∀ fd n done, pc.transfer = some (fd, n, done) → done < n ∧ n ≤ 4096

theorem inTransfer_of_none {pc : WorkerPc} (h : pc.transfer = none) : pc.InTransfer := by
  intro fd n done hsome
  rw [h] at hsome
  cases hsome

/-- The rest of the buffer is what `write` is asked to take. -/
theorem length_window {fd : Int} {n done : Nat} {worker : Worker}
    (hpc : worker.pc = .writing fd n done) (h : worker.pc.InTransfer) :
    (worker.buffer.window done n).length = n - done := by
  have hwriting : worker.pc.transfer = some (fd, n, done) := by
    rw [hpc]
    rfl
  exact worker.buffer.length_window (h fd n done hwriting).2

/-- A `write` that moves bytes leaves the rest to be written, or the loop at
`read`. -/
theorem writeStep_ok {fd : Int} {n done k : Nat} (hk : 0 < k) (hdone : done + k ≤ n) :
    writeStep s w fd n done (.ok k) =
      State.setPc { s with
        trace := .write fd ((s.workers w).buffer.window done n) (.ok k) :: s.trace } w
        (if done + k < n then .writing fd n (done + k) else .reading fd) := by
  have hnext : writeFull n done (.ok k) = .resume n (done + k) := transferStep_ok hk
  rw [writeStep, hnext, Transfer.resume]
  by_cases hmore : done + k < n
  · rw [if_pos hmore, if_pos hmore]
  · have hall : done + k = n := by omega
    rw [if_neg hmore, if_neg hmore]
    exact if_pos hall

theorem inTransfer_update {workers : Fin threadCount → Worker}
    (h : ∀ v, (workers v).pc.InTransfer) {worker : Worker} (hw : worker.pc.InTransfer)
    (v : Fin threadCount) : (Function.update workers w worker v).pc.InTransfer := by
  by_cases hv : v = w
  · subst hv
    rw [Function.update_self]
    exact hw
  · rw [Function.update_of_ne hv]
    exact h v

/-! ## Steps without a call -/

/-- No call on a descriptor is made. -/
def Event.Quiet : Event threadCount → Prop
  | .malloc (some _) => True
  | .push _ => True
  | .pop _ => True
  | .spurious _ => True
  | .take _ => True
  | _ => False

/-- The other steps make one. -/
theorem Event.not_quiet {e : Event threadCount} (he : ¬ e.Quiet) :
    (∃ res, e = .accept res) ∨ e = .malloc none ∨ (∃ w res, e = .read w res) ∨
      ∃ w res, e = .write w res := by
  cases e with
  | accept res => exact .inl ⟨res, rfl⟩
  | malloc node =>
      cases node with
      | none => exact .inr (.inl rfl)
      | some node => exact absurd trivial he
  | push wake => exact absurd trivial he
  | pop w => exact absurd trivial he
  | spurious w => exact absurd trivial he
  | take w => exact absurd trivial he
  | read w res => exact .inr (.inr (.inl ⟨w, res, rfl⟩))
  | write w res => exact .inr (.inr (.inr ⟨w, res, rfl⟩))

theorem transfer_update {workers : Fin threadCount → Worker} {worker : Worker}
    (hold : (workers w).pc.transfer = none) (hnew : worker.pc.transfer = none)
    (v : Fin threadCount) :
    (Function.update workers w worker v).pc.transfer = (workers v).pc.transfer := by
  by_cases hv : v = w
  · subst hv
    rw [Function.update_self, hold, hnew]
  · rw [Function.update_of_ne hv]

/-- Nothing of these steps is seen outside the process. -/
theorem step_quiet {e : Event threadCount} (he : e.Quiet) (hstep : step s e = some t) :
    t.trace = s.trace ∧ ∀ v, (t.workers v).pc.transfer = (s.workers v).pc.transfer := by
  cases e with
  | accept res => cases he
  | read w res => cases he
  | write w res => cases he
  | malloc node =>
      cases node with
      | none => cases he
      | some node =>
          simp only [step] at hstep
          split at hstep
          · simp only [mallocStep] at hstep
            split at hstep
            · cases hstep
              exact ⟨rfl, fun _ => rfl⟩
            · cases hstep
          · cases hstep
  | push wake =>
      simp only [step] at hstep
      split at hstep
      · simp only [pushStep] at hstep
        split at hstep
        · next hsignals =>
            obtain ⟨queue, _, rfl⟩ := Option.map_eq_some_iff.mp hstep
            refine ⟨rfl, fun v => ?_⟩
            show (wakeUp s.workers wake v).pc.transfer = (s.workers v).pc.transfer
            unfold wakeUp
            split
            · next hv =>
                rw [hsignals.waiting v hv]
                rfl
            · rfl
        · cases hstep
      · cases hstep
  | pop w =>
      have hpop : ∀ pc, (s.workers w).pc = pc → pc.transfer = none → popStep s w = some t →
          t.trace = s.trace ∧ ∀ v, (t.workers v).pc.transfer = (s.workers v).pc.transfer := by
        intro pc hpc hnone hpop
        rw [← hpc] at hnone
        unfold popStep at hpop
        split at hpop
        · cases hpop
          exact ⟨rfl, transfer_update hnone rfl⟩
        · obtain ⟨⟨node, queue⟩, _, rfl⟩ := Option.map_eq_some_iff.mp hpop
          exact ⟨rfl, transfer_update hnone rfl⟩
      simp only [step] at hstep
      split at hstep
      · next hpc => exact hpop _ hpc rfl hstep
      · next hpc => exact hpop _ hpc rfl hstep
      · cases hstep
  | spurious w =>
      simp only [step] at hstep
      split at hstep
      · next hpc =>
          cases hstep
          exact ⟨rfl, transfer_update (by rw [hpc]; rfl) rfl⟩
      · cases hstep
  | take w =>
      simp only [step] at hstep
      split at hstep
      · next node hpc =>
          simp only [takeStep] at hstep
          split at hstep
          · cases hstep
          · cases hstep
            exact ⟨rfl, transfer_update (by rw [hpc]; rfl) rfl⟩
      · cases hstep

/-! ## What holds at every moment -/

theorem Queue.link_heap {q q' : Queue} {node : Nat} (h : q.link node = some q') {n : Nat}
    (hn : q'.heap n ≠ none) : q.heap n ≠ none := by
  unfold Queue.link at h
  split at h
  · cases h
    exact hn
  · next tail htail =>
      split at h
      · cases h
      · next last hlast =>
          cases h
          by_cases heq : n = tail
          · subst heq
            simp [hlast]
          · dsimp only at hn
            rwa [Function.update_of_ne heq] at hn

theorem Queue.unlink_heap {q q' : Queue} {node : Nat} (h : q.unlink = some (node, q')) :
    q'.heap = q.heap := by
  unfold Queue.unlink at h
  split at h
  · cases h
  · split at h
    · cases h
    · cases h
      rfl

/-- Whoever is in `write_full` has bytes left. -/
theorem reachable_inTransfer (hs : (system threadCount base).Reachable s)
    (w : Fin threadCount) : (s.workers w).pc.InTransfer := by
  revert w
  refine hs.induct (I := fun s => ∀ w, (s.workers w).pc.InTransfer) ?_ ?_
  · rintro s rfl w
    exact inTransfer_of_none rfl
  · intro s e t _ h hnext
    obtain ⟨hstep, hkernel⟩ := hnext
    by_cases hquiet : e.Quiet
    · intro v fd n done hv
      rw [(step_quiet hquiet hstep).2] at hv
      exact h v fd n done hv
    · rcases Event.not_quiet hquiet with ⟨res, rfl⟩ | rfl | ⟨w, res, rfl⟩ | ⟨w, res, rfl⟩
      · simp only [step] at hstep
        split at hstep
        · cases hstep
          rcases res with e | fd
          · exact h
          · exact h
        · cases hstep
      · simp only [step] at hstep
        split at hstep
        · cases hstep
          exact h
        · cases hstep
      · simp only [step] at hstep
        split at hstep
        · cases hstep
          rcases res with e | bytes
          · rw [readStep]
            split
            · exact h
            · exact inTransfer_update h (inTransfer_of_none rfl)
          · cases bytes with
            | nil => exact inTransfer_update h (inTransfer_of_none rfl)
            | cons b bs =>
                refine inTransfer_update h ?_
                rintro fd n done ⟨⟩
                exact ⟨Nat.succ_pos _, hkernel.1⟩
        · cases hstep
      · simp only [step] at hstep
        split at hstep
        · next fd n done hpc =>
            have hold := h w fd n done (by rw [hpc]; rfl)
            cases hstep
            rw [writeStep]
            split
            · next done' hrunning =>
                refine inTransfer_update h ?_
                rintro fd' n' d' ⟨⟩
                exact ⟨transferStep_running hrunning, hold.2⟩
            · split
              · exact inTransfer_update h (inTransfer_of_none rfl)
              · exact inTransfer_update h (inTransfer_of_none rfl)
            · exact inTransfer_update h (inTransfer_of_none rfl)
        · cases hstep

/-- One node is allocated at a time. -/
theorem step_heap {e : Event threadCount} (hstep : step s e = some t) :
    ∃ node, ∀ n, t.queue.heap n ≠ none → s.queue.heap n ≠ none ∨ n = node := by
  have hsame : t.queue.heap = s.queue.heap →
      ∃ node, ∀ n, t.queue.heap n ≠ none → s.queue.heap n ≠ none ∨ n = node :=
    fun heq => ⟨0, fun n hn => .inl (by rwa [heq] at hn)⟩
  cases e with
  | accept res =>
      simp only [step] at hstep
      split at hstep
      · cases hstep
        rcases res with e | fd
        · exact hsame rfl
        · exact hsame rfl
      · cases hstep
  | malloc node =>
      simp only [step] at hstep
      split at hstep
      · cases node with
        | none =>
            cases hstep
            exact hsame rfl
        | some node =>
            simp only [mallocStep] at hstep
            split at hstep
            · cases hstep
              refine ⟨node, fun n hn => ?_⟩
              by_cases heq : n = node
              · exact .inr heq
              · dsimp only at hn
                rw [Function.update_of_ne heq] at hn
                exact .inl hn
            · cases hstep
      · cases hstep
  | push wake =>
      simp only [step] at hstep
      split at hstep
      · next node hpc =>
          simp only [pushStep] at hstep
          split at hstep
          · obtain ⟨queue, hlink, rfl⟩ := Option.map_eq_some_iff.mp hstep
            exact ⟨0, fun n hn => .inl (Queue.link_heap hlink hn)⟩
          · cases hstep
      · cases hstep
  | pop w =>
      have hpop : popStep s w = some t → t.queue.heap = s.queue.heap := by
        intro hpop
        unfold popStep at hpop
        split at hpop
        · cases hpop
          rfl
        · obtain ⟨⟨node, queue⟩, hunlink, rfl⟩ := Option.map_eq_some_iff.mp hpop
          exact Queue.unlink_heap hunlink
      simp only [step] at hstep
      split at hstep
      · exact hsame (hpop hstep)
      · exact hsame (hpop hstep)
      · cases hstep
  | spurious w =>
      simp only [step] at hstep
      split at hstep
      · cases hstep
        exact hsame rfl
      · cases hstep
  | take w =>
      simp only [step] at hstep
      split at hstep
      · next node hpc =>
          simp only [takeStep] at hstep
          split at hstep
          · cases hstep
          · cases hstep
            refine ⟨0, fun n hn => .inl ?_⟩
            dsimp only at hn
            by_cases heq : n = node
            · subst heq
              rw [Function.update_self] at hn
              exact absurd rfl hn
            · rwa [Function.update_of_ne heq] at hn
      · cases hstep
  | read w res =>
      simp only [step] at hstep
      split at hstep
      · cases hstep
        refine hsame ?_
        rcases res with e | bytes
        · rw [readStep]
          split
          · rfl
          · rfl
        · cases bytes with
          | nil => rfl
          | cons b bs => rfl
      · cases hstep
  | write w res =>
      simp only [step] at hstep
      split at hstep
      · cases hstep
        refine hsame ?_
        rw [writeStep]
        split
        · rfl
        · split
          · rfl
          · rfl
        · rfl
      · cases hstep

/-- There is always memory left to allocate. -/
theorem reachable_unallocated (hs : (system threadCount base).Reachable s) :
    ∃ bound, ∀ node, bound ≤ node → s.queue.heap node = none := by
  refine hs.induct (I := fun s => ∃ bound, ∀ node, bound ≤ node → s.queue.heap node = none)
    ?_ ?_
  · rintro s rfl
    exact ⟨0, fun _ _ => rfl⟩
  · rintro s e t _ ⟨bound, h⟩ ⟨hstep, -⟩
    obtain ⟨node, hnode⟩ : ∃ node, ∀ n, t.queue.heap n ≠ none →
        s.queue.heap n ≠ none ∨ n = node := step_heap hstep
    refine ⟨max bound (node + 1), fun n hn => ?_⟩
    by_contra hallocated
    rcases hnode n hallocated with hbefore | heq
    · exact hbefore (h n (le_trans (le_max_left _ _) hn))
    · omega

theorem reachable_kernelOk (hs : (system threadCount base).Reachable s) :
    KernelOk base s.trace := by
  cases hs with
  | start h₀ =>
      cases h₀
      exact trivial
  | step _ hnext => exact hnext.2

theorem reachable_lawful (hs : (system threadCount base).Reachable s) :
    Transcript.Lawful base s.trace := by
  obtain ⟨a, _, h⟩ := (simulates_workQueue threadCount base).reachable hs
  exact h.lawful

/-- A worker's client is open, and no other worker's. -/
theorem reachable_serving (hs : (system threadCount base).Reachable s) {fd : Int}
    (hfd : fd ∈ s.queue.serving (s.workers w).pc) :
    fd ∈ Transcript.clients base s.trace ∧
      ∀ v, fd ∈ s.queue.serving (s.workers v).pc → v = w := by
  obtain ⟨a, ha, h⟩ := (simulates_workQueue threadCount base).reachable hs
  have hbusy : a.stage w = .busy fd := ((h.stage w).mem_serving fd).mp hfd
  refine ⟨h.mem_clients_of_busy hbusy, fun v hv => ?_⟩
  have hbusy' : a.stage v = .busy fd := ((h.stage v).mem_serving fd).mp hv
  cases (WorkQueue.reachable_exclusive ha).place (.worker v) (.worker w) fd hbusy' hbusy
  rfl

/-! ## Who is held up -/

section Blocked

theorem exists_malloc (hs : (system threadCount base).Reachable s) {fd : Int}
    (hpc : s.acceptor = .malloc fd) :
    ∃ node t, step s (.malloc (some node)) = some t := by
  obtain ⟨bound, hbound⟩ := reachable_unallocated hs
  have hfree : s.queue.heap bound = none := hbound bound (le_refl bound)
  obtain ⟨t, ht⟩ : ∃ t, mallocStep s fd (some bound) = some t := ⟨_, if_pos hfree⟩
  refine ⟨bound, t, ?_⟩
  simp only [step, hpc, ht]

/-- A signal wakes whoever waits. -/
theorem exists_signals (s : State threadCount) : ∃ wake, s.Signals wake := by
  refine ⟨Finset.univ.filter fun w => (s.workers w).pc = .waiting, ?_, ?_⟩
  · intro w hw
    exact (Finset.mem_filter.mp hw).2
  · rintro ⟨w, hw⟩
    exact ⟨w, Finset.mem_filter.mpr ⟨Finset.mem_univ w, hw⟩⟩

theorem exists_push (hs : (system threadCount base).Reachable s) {node : Nat}
    (hpc : s.acceptor = .lock node) : ∃ wake t, step s (.push wake) = some t := by
  obtain ⟨a, ha, h⟩ := (simulates_workQueue threadCount base).reachable hs
  obtain ⟨wake, hsignals⟩ := exists_signals s
  obtain ⟨t, ht, _⟩ := h.push (WorkQueue.reachable_exclusive ha) hpc hsignals
  refine ⟨wake, t, ?_⟩
  simp only [step, hpc, ht]

theorem exists_pop (hs : (system threadCount base).Reachable s)
    (hpc : (s.workers w).pc = .lock ∨ (s.workers w).pc = .woken) :
    ∃ t, step s (.pop w) = some t := by
  obtain ⟨a, ha, h⟩ := (simulates_workQueue threadCount base).reachable hs
  obtain ⟨t, ht, _⟩ := h.pop (WorkQueue.reachable_exclusive ha) hpc
  refine ⟨t, ?_⟩
  rcases hpc with hpc | hpc
  · simp only [step, hpc, ht]
  · simp only [step, hpc, ht]

theorem exists_take (hs : (system threadCount base).Reachable s) {node : Nat}
    (hpc : (s.workers w).pc = .popped node) : ∃ t, step s (.take w) = some t := by
  obtain ⟨a, ha, h⟩ := (simulates_workQueue threadCount base).reachable hs
  obtain ⟨t, ht, _⟩ := h.take (WorkQueue.reachable_exclusive ha) hpc
  refine ⟨t, ?_⟩
  simp only [step, hpc, ht]

/-- Only the kernel can move the process on: the main thread is at `accept`, and
each worker waits, reads or writes. -/
structure Blocked (s : State threadCount) : Prop where
  acceptor : s.acceptor = .accept
  workers : ∀ w, (s.workers w).pc = .waiting ∨ (∃ fd, (s.workers w).pc = .reading fd) ∨
    ∃ fd n done, (s.workers w).pc = .writing fd n done

/-- A process that is not blocked has a step of its own. -/
theorem blocked_or_step (hs : (system threadCount base).Reachable s) :
    Blocked s ∨ ∃ e t, Event.Quiet e ∧ (∀ w, e ≠ .spurious w) ∧ step s e = some t := by
  by_cases hworkers : ∀ w, (s.workers w).pc = .waiting ∨
      (∃ fd, (s.workers w).pc = .reading fd) ∨ ∃ fd n done, (s.workers w).pc = .writing fd n done
  · cases hpc : s.acceptor with
    | accept => exact .inl ⟨hpc, hworkers⟩
    | malloc fd =>
        obtain ⟨node, t, hstep⟩ := exists_malloc hs hpc
        exact .inr ⟨.malloc (some node), t, trivial, by simp, hstep⟩
    | lock node =>
        obtain ⟨wake, t, hstep⟩ := exists_push hs hpc
        exact .inr ⟨.push wake, t, trivial, by simp, hstep⟩
  · obtain ⟨w, hw⟩ := not_forall.mp hworkers
    right
    cases hpc : (s.workers w).pc with
    | lock =>
        obtain ⟨t, hstep⟩ := exists_pop hs (.inl hpc)
        exact ⟨.pop w, t, trivial, by simp, hstep⟩
    | woken =>
        obtain ⟨t, hstep⟩ := exists_pop hs (.inr hpc)
        exact ⟨.pop w, t, trivial, by simp, hstep⟩
    | popped node =>
        obtain ⟨t, hstep⟩ := exists_take hs hpc
        exact ⟨.take w, t, trivial, by simp, hstep⟩
    | waiting => exact absurd (.inl hpc) hw
    | reading fd => exact absurd (.inr (.inl ⟨fd, hpc⟩)) hw
    | writing fd n done => exact absurd (.inr (.inr ⟨fd, n, done, hpc⟩)) hw

/-- While a worker of a blocked process waits, every client is with another. -/
theorem Blocked.serving (hblocked : Blocked s) (hs : (system threadCount base).Reachable s)
    (hwaiting : ∃ w, (s.workers w).pc = .waiting) {fd : Int}
    (hfd : fd ∈ Transcript.clients base s.trace) :
    ∃ w, fd ∈ s.queue.serving (s.workers w).pc := by
  obtain ⟨a, ha, h⟩ := (simulates_workQueue threadCount base).reachable hs
  obtain ⟨w, hw⟩ := hwaiting
  have hnone : a.wokenWorkers = ∅ := by
    refine Finset.eq_empty_of_forall_notMem fun v hv => ?_
    have hwoken := (h.woken_iff v).mp (WorkQueue.mem_wokenWorkers.mp hv)
    rcases hblocked.workers v with hpc | ⟨fd, hpc⟩ | ⟨fd, n, done, hpc⟩
    · simp [hpc] at hwoken
    · simp [hpc] at hwoken
    · simp [hpc] at hwoken
  have hqueue : a.queue = [] := by
    have hawake := WorkQueue.reachable_awake ha ⟨w, (h.waiting_iff w).mpr hw⟩
    rw [hnone, Finset.card_empty, Nat.le_zero] at hawake
    exact List.length_eq_zero_iff.mp hawake
  have hhand : a.hand = none := by
    have hhand := h.hand
    rwa [hblocked.acceptor] at hhand
  rcases WorkQueue.held_iff.mp ((h.held fd).mp hfd) with hheld | hmem | ⟨v, hv⟩
  · rw [hhand] at hheld
    cases hheld
  · rw [hqueue] at hmem
    cases hmem
  · exact ⟨v, ((h.stage v).mem_serving fd).mpr hv⟩

end Blocked

end SysLab.PartB.ThreadpoolServer
