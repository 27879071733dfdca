import SysLab.PartB.WorkerMain

/-!
# The workers of the thread-pool server

Each worker of the server is `worker_main` by itself, with the clients that
`queue_pop` returns to it: whatever the other threads do meanwhile, it makes a step
of that program or none.
-/

namespace SysLab.PartB.WorkerMain

open SysLab.Foundation

variable {threadCount : Nat} {base : Finset Int} {w v : Fin threadCount}
  {s t : ThreadpoolServer.State threadCount} {u : State}

/-- Where `worker_main` is; all of `queue_pop` is one place. -/
def mainPc : ThreadpoolServer.WorkerPc → Pc
  | .reading fd => .reading fd
  | .writing fd n done => .writing fd n done
  | _ => .queuePop

/-- The calls in a log, and the clients popped, newest first. -/
def calls (log : Trace) : Trace := log.filter fun c => !c.opens

def popped (log : Trace) : List Int :=
  log.filterMap fun
    | .accept fd => some fd
    | _ => none

/-- The clients that `queue_pop` has returned to a worker, newest first. -/
def returnedTo (w : Fin threadCount) (returns : List (Fin threadCount × Int)) : List Int :=
  ((returns.filter fun r => r.1 = w).map Prod.snd).reverse

/-- The worker `w` of the server, and one by itself. -/
structure Follows (w : Fin threadCount) (s : ThreadpoolServer.State threadCount)
    (u : State) : Prop where
  pc : u.pc = mainPc (s.workers w).pc
  buffer : u.buffer = (s.workers w).buffer
  calls : (calls u.log).Sublist s.trace
  popped : popped u.log = returnedTo w s.returns
  sane : Transcript.Always (fun c _ => c.Sane) u.log

/-! ## Steps that do not show -/

/-- The worker stays where it was. -/
theorem Follows.still (h : Follows w s u)
    (hpc : mainPc (t.workers w).pc = mainPc (s.workers w).pc)
    (hbuffer : (t.workers w).buffer = (s.workers w).buffer)
    (htrace : s.trace <:+ t.trace) (hreturns : returnedTo w t.returns = returnedTo w s.returns) :
    Follows w t u where
  pc := h.pc.trans hpc.symm
  buffer := h.buffer.trans hbuffer.symm
  calls := h.calls.trans htrace.sublist
  popped := h.popped.trans hreturns.symm
  sane := h.sane

/-- The worker has not been touched. -/
theorem Follows.untouched (h : Follows w s u) (hworker : t.workers w = s.workers w)
    (htrace : s.trace <:+ t.trace) (hreturns : returnedTo w t.returns = returnedTo w s.returns) :
    Follows w t u :=
  h.still (by rw [hworker]) (by rw [hworker]) htrace hreturns

theorem returnedTo_append (w v : Fin threadCount) (returns : List (Fin threadCount × Int))
    (fd : Int) :
    returnedTo w (returns ++ [(v, fd)]) =
      if v = w then fd :: returnedTo w returns else returnedTo w returns := by
  unfold returnedTo
  rw [List.filter_append, List.map_append, List.reverse_append]
  by_cases hv : v = w
  · simp [hv]
  · simp [hv]

/-! ## Steps of the worker -/

/-- Both have made a call. -/
theorem Follows.logged (h : Follows w s u) {c : Syscall} (hopens : c.opens = false)
    (hsane : c.Sane) :
    Follows w { s with trace := c :: s.trace } { u with log := c :: u.log } where
  pc := h.pc
  buffer := h.buffer
  calls := by
    show (List.filter _ (c :: u.log)).Sublist (c :: s.trace)
    rw [List.filter_cons_of_pos (by rw [hopens]; rfl)]
    exact h.calls.cons_cons c
  popped := by
    cases c with
    | accept fd => cases hopens
    | read fd asked res => exact h.popped
    | write fd chunk res => exact h.popped
    | close fd => exact h.popped
  sane := ⟨hsane, h.sane⟩

/-- Both have moved on. -/
theorem Follows.moved (h : Follows w s u) (pc : ThreadpoolServer.WorkerPc)
    (buffer : Buffer UInt8 4096) :
    Follows w { s with workers := Function.update s.workers w ⟨pc, buffer⟩ }
      { u with pc := mainPc pc, buffer := buffer } where
  pc := by
    show mainPc pc = mainPc (Function.update s.workers w ⟨pc, buffer⟩ w).pc
    rw [Function.update_self]
  buffer := by
    show buffer = (Function.update s.workers w ⟨pc, buffer⟩ w).buffer
    rw [Function.update_self]
  calls := h.calls
  popped := h.popped
  sane := h.sane

/-- With the buffer as it was. -/
theorem Follows.setPc (h : Follows w s u) (pc : ThreadpoolServer.WorkerPc) :
    Follows w (s.setPc w pc) { u with pc := mainPc pc } := by
  have hmoved := h.moved pc u.buffer
  rw [h.buffer] at hmoved
  exact { hmoved with buffer := h.buffer.trans hmoved.buffer }

theorem Follows.closed (h : Follows w s u) (fd : Int) :
    Follows w (ThreadpoolServer.closeClient s w fd) (u.closed fd) :=
  (h.logged (c := Call.close fd) rfl trivial).setPc .lock

theorem Follows.read (h : Follows w s u) {fd : Int} {res : Except Errno (List UInt8)}
    (hsane : (Call.read fd 4096 res : Syscall).Sane) :
    Follows w (ThreadpoolServer.readStep s w fd res) (readStep u fd res) := by
  have hlogged := h.logged (c := Call.read fd 4096 res) rfl hsane
  rcases res with e | _ | ⟨b, bs⟩
  · unfold ThreadpoolServer.readStep readStep
    dsimp only
    split
    · exact hlogged
    · exact hlogged.closed fd
  · exact hlogged.closed fd
  · unfold ThreadpoolServer.readStep readStep
    dsimp only
    rw [h.buffer]
    exact hlogged.moved (.writing fd (b :: bs).length 0) _

theorem Follows.write (h : Follows w s u) {fd : Int} {n done : Nat}
    {res : Except Errno Nat}
    (hsane : (Call.write fd ((s.workers w).buffer.window done n) res : Syscall).Sane) :
    Follows w (ThreadpoolServer.writeStep s w fd n done res)
      (writeStep u fd n done res) := by
  rw [← h.buffer] at hsane
  have hlogged := h.logged (c := Call.write fd (u.buffer.window done n) res) rfl hsane
  unfold ThreadpoolServer.writeStep writeStep
  rw [← h.buffer]
  cases writeFull n done res with
  | running done' => exact hlogged.setPc (.writing fd n done')
  | returned res' =>
      cases res' with
      | error e => exact hlogged.closed fd
      | ok m =>
          dsimp only
          split
          · exact hlogged.setPc (.reading fd)
          · exact hlogged.closed fd

/-- `queue_pop` returns a client. -/
theorem Follows.pop (h : Follows w s u) {fd : Int} {queue : ThreadpoolServer.Queue} :
    Follows w { s.setPc w (.reading fd) with
      queue := queue
      returns := s.returns ++ [(w, fd)] } (popStep u fd) := by
  have hmoved := h.setPc (.reading fd)
  refine ⟨hmoved.pc, hmoved.buffer, h.calls, ?_, ⟨trivial, h.sane⟩⟩
  show fd :: WorkerMain.popped u.log = returnedTo w (s.returns ++ [(w, fd)])
  rw [returnedTo_append, if_pos rfl, h.popped]

/-! ## The simulation -/

/-- What another worker, or the main thread, does. -/
structure Elsewhere (w : Fin threadCount) (s t : ThreadpoolServer.State threadCount) :
    Prop where
  worker : t.workers w = s.workers w
  trace : s.trace <:+ t.trace
  returns : t.returns = s.returns

theorem elsewhere_closeClient (hne : w ≠ v) (s : ThreadpoolServer.State threadCount)
    (fd : Int) : Elsewhere w s (ThreadpoolServer.closeClient s v fd) where
  worker := Function.update_of_ne hne _ _
  trace := List.suffix_cons _ _
  returns := rfl

theorem elsewhere_log (w : Fin threadCount) (s : ThreadpoolServer.State threadCount)
    (c : Syscall) : Elsewhere w s { s with trace := c :: s.trace } where
  worker := rfl
  trace := List.suffix_cons _ _
  returns := rfl

theorem Elsewhere.trans {s' : ThreadpoolServer.State threadCount} (h : Elsewhere w s t)
    (h' : Elsewhere w t s') : Elsewhere w s s' where
  worker := h'.worker.trans h.worker
  trace := h.trace.trans h'.trace
  returns := h'.returns.trans h.returns

theorem elsewhere_setPc (hne : w ≠ v) (s : ThreadpoolServer.State threadCount)
    (pc : ThreadpoolServer.WorkerPc) : Elsewhere w s (s.setPc v pc) where
  worker := Function.update_of_ne hne _ _
  trace := List.suffix_refl _
  returns := rfl

theorem elsewhere_readStep (hne : w ≠ v) (s : ThreadpoolServer.State threadCount)
    (fd : Int) (res : Except Errno (List UInt8)) :
    Elsewhere w s (ThreadpoolServer.readStep s v fd res) := by
  have hlog := elsewhere_log w s (.read fd 4096 res)
  rcases res with e | _ | ⟨b, bs⟩
  · unfold ThreadpoolServer.readStep
    dsimp only
    split
    · exact hlog
    · exact hlog.trans (elsewhere_closeClient hne _ fd)
  · exact hlog.trans (elsewhere_closeClient hne _ fd)
  · exact { hlog with worker := Function.update_of_ne hne _ _ }

theorem elsewhere_writeStep (hne : w ≠ v) (s : ThreadpoolServer.State threadCount)
    (fd : Int) (n done : Nat) (res : Except Errno Nat) :
    Elsewhere w s (ThreadpoolServer.writeStep s v fd n done res) := by
  have hlog := elsewhere_log w s (.write fd ((s.workers v).buffer.window done n) res)
  unfold ThreadpoolServer.writeStep
  dsimp only
  split
  · exact hlog.trans (elsewhere_setPc hne _ _)
  · split
    · exact hlog.trans (elsewhere_setPc hne _ _)
    · exact hlog.trans (elsewhere_closeClient hne _ fd)
  · exact hlog.trans (elsewhere_closeClient hne _ fd)

theorem Follows.elsewhere (h : Follows w s u) (helse : Elsewhere w s t) : Follows w t u :=
  h.untouched helse.worker helse.trace (by rw [helse.returns])

/-- The last call of a `read` and of a `write` is one that the kernel has answered. -/
theorem sane_of_read {fd : Int} {res : Except Errno (List UInt8)}
    (hkernel : KernelOk base (ThreadpoolServer.readStep s v fd res).trace) :
    (Call.read fd 4096 res : Syscall).Sane := by
  have hsuffix : .read fd 4096 res :: s.trace <:+
      (ThreadpoolServer.readStep s v fd res).trace := by
    rcases res with e | _ | ⟨b, bs⟩
    · unfold ThreadpoolServer.readStep
      dsimp only
      split
      · exact List.suffix_refl _
      · exact List.suffix_cons _ _
    · exact List.suffix_cons _ _
    · exact List.suffix_refl _
  exact (hkernel.of_suffix hsuffix).1

theorem sane_of_write {fd : Int} {n done : Nat} {res : Except Errno Nat}
    (hkernel : KernelOk base (ThreadpoolServer.writeStep s v fd n done res).trace) :
    (Call.write fd ((s.workers v).buffer.window done n) res : Syscall).Sane := by
  have hsuffix : .write fd ((s.workers v).buffer.window done n) res :: s.trace <:+
      (ThreadpoolServer.writeStep s v fd n done res).trace := by
    unfold ThreadpoolServer.writeStep
    split
    · exact List.suffix_refl _
    · split
      · exact List.suffix_refl _
      · exact List.suffix_cons _ _
    · exact List.suffix_cons _ _
  exact (hkernel.of_suffix hsuffix).1

/-- Moves within `queue_pop` do not show. -/
theorem Follows.within (h : Follows w s u) {pc : ThreadpoolServer.WorkerPc}
    (hpc : mainPc (s.workers v).pc = .queuePop) (hpc' : mainPc pc = .queuePop) :
    Follows w (s.setPc v pc) u := by
  by_cases hv : w = v
  · subst hv
    have hself : (s.setPc w pc).workers w = { s.workers w with pc := pc } :=
      Function.update_self ..
    exact h.still (by rw [hself]; exact hpc'.trans hpc.symm) (by rw [hself])
      (List.suffix_refl _) rfl
  · exact h.elsewhere (elsewhere_setPc hv s pc)

/-- `queue_push` wakes workers that wait. -/
theorem Follows.push (h : Follows w s u) {node : Nat} {wake : Finset (Fin threadCount)}
    (hstep : ThreadpoolServer.pushStep s node wake = some t) : Follows w t u := by
  unfold ThreadpoolServer.pushStep at hstep
  split at hstep
  · next hsignals =>
      obtain ⟨queue, _, rfl⟩ := Option.map_eq_some_iff.mp hstep
      have hwoken : mainPc (ThreadpoolServer.wakeUp s.workers wake w).pc =
          mainPc (s.workers w).pc ∧
            (ThreadpoolServer.wakeUp s.workers wake w).buffer = (s.workers w).buffer := by
        unfold ThreadpoolServer.wakeUp
        split
        · next hmem =>
            rw [hsignals.waiting w hmem]
            exact ⟨rfl, rfl⟩
        · exact ⟨rfl, rfl⟩
      exact h.still hwoken.1 hwoken.2 (List.suffix_refl _) rfl
  · cases hstep

/-- Taking a node off the queue is within `queue_pop`. -/
theorem Follows.unlink (h : Follows w s u) (hpc : mainPc (s.workers v).pc = .queuePop)
    (hstep : ThreadpoolServer.popStep s v = some t) : Follows w t u := by
  unfold ThreadpoolServer.popStep at hstep
  split at hstep
  · cases hstep
    exact h.within hpc rfl
  · obtain ⟨⟨node, queue⟩, _, rfl⟩ := Option.map_eq_some_iff.mp hstep
    have hmoved : Follows w (s.setPc v (.popped node)) u := h.within hpc rfl
    exact { hmoved with }

/-- `queue_pop` returns. -/
theorem Follows.take (h : Follows w s u) {node : Nat} (hpc : (s.workers v).pc = .popped node)
    (hstep : ThreadpoolServer.takeStep s v node = some t) :
    Follows w t u ∨ ∃ e u', system.next u e u' ∧ Follows w t u' := by
  unfold ThreadpoolServer.takeStep at hstep
  split at hstep
  · cases hstep
  · next node' _ =>
      cases hstep
      by_cases hv : v = w
      · subst hv
        have hqueue : u.pc = .queuePop := by rw [h.pc, hpc]; rfl
        refine .inr ⟨.pop node'.fd, popStep u node'.fd, ⟨?_, ⟨trivial, h.sane⟩⟩, h.pop⟩
        rw [step, hqueue]
      · have helse := elsewhere_setPc (Ne.symm hv) s (.reading node'.fd)
        refine .inl (h.untouched helse.worker helse.trace ?_)
        rw [returnedTo_append, if_neg hv]

/-- Each worker of the server is a worker by itself: it has its program counter and
buffer, makes its calls in this order among those of the process, and serves the
clients that `queue_pop` returns to it. -/
theorem follows_simulation (w : Fin threadCount) (base : Finset Int) :
    System.Simulation (ThreadpoolServer.system threadCount base) system (Follows w) where
  init := by
    rintro s rfl
    exact ⟨started (.fill 4096 0), ⟨_, rfl⟩, rfl, rfl, List.Sublist.slnil, rfl, trivial⟩
  step := by
    rintro s u e t _ h ⟨hstep, hkernel⟩
    cases e with
    | accept res =>
        simp only [ThreadpoolServer.step] at hstep
        split at hstep
        · cases hstep
          cases res with
          | error e => exact .inl h
          | ok fd =>
              exact .inl (h.untouched rfl (List.suffix_cons _ _) rfl)
        · cases hstep
    | malloc node =>
        simp only [ThreadpoolServer.step] at hstep
        split at hstep
        · cases node with
          | none =>
              cases hstep
              exact .inl (h.untouched rfl (List.suffix_cons _ _) rfl)
          | some node =>
              unfold ThreadpoolServer.mallocStep at hstep
              dsimp only at hstep
              split at hstep
              · cases hstep
                exact .inl (h.untouched rfl (List.suffix_refl _) rfl)
              · cases hstep
        · cases hstep
    | push wake =>
        simp only [ThreadpoolServer.step] at hstep
        split at hstep
        · exact .inl (h.push hstep)
        · cases hstep
    | pop v =>
        simp only [ThreadpoolServer.step] at hstep
        split at hstep
        · next hpc => exact .inl (h.unlink (by rw [hpc]; rfl) hstep)
        · next hpc => exact .inl (h.unlink (by rw [hpc]; rfl) hstep)
        · cases hstep
    | spurious v =>
        simp only [ThreadpoolServer.step] at hstep
        split at hstep
        · next hpc =>
            cases hstep
            exact .inl (h.within (by rw [hpc]; rfl) rfl)
        · cases hstep
    | take v =>
        simp only [ThreadpoolServer.step] at hstep
        split at hstep
        · next node hpc => exact h.take hpc hstep
        · cases hstep
    | read v res =>
        simp only [ThreadpoolServer.step] at hstep
        split at hstep
        · next fd hpc =>
            cases hstep
            by_cases hv : w = v
            · subst hv
              have hpc' : u.pc = .reading fd := by rw [h.pc, hpc]; rfl
              have hread := h.read (sane_of_read hkernel)
              exact .inr ⟨.read res, _, ⟨by rw [step, hpc'], hread.sane⟩, hread⟩
            · exact .inl (h.elsewhere (elsewhere_readStep hv s fd res))
        · cases hstep
    | write v res =>
        simp only [ThreadpoolServer.step] at hstep
        split at hstep
        · next fd n done hpc =>
            cases hstep
            by_cases hv : w = v
            · subst hv
              have hpc' : u.pc = .writing fd n done := by rw [h.pc, hpc]; rfl
              have hwrite := h.write (sane_of_write hkernel)
              exact .inr ⟨.write res, _, ⟨by rw [step, hpc'], hwrite.sane⟩, hwrite⟩
            · exact .inl (h.elsewhere (elsewhere_writeStep hv s fd n done res))
        · cases hstep

/-- Among the calls of the server are, for each worker, those by which it has echoed
its clients to themselves, one after the other. -/
theorem worker_of_server (hs : (ThreadpoolServer.system threadCount base).Reachable s)
    (w : Fin threadCount) :
    ∃ log, (calls log).Sublist s.trace ∧ popped log = returnedTo w s.returns ∧
      Transcript.HalfDuplex log ∧ Transcript.Lawful ∅ log ∧
      Transcript.Always AloneCall log := by
  obtain ⟨u, hu, hfollows⟩ := (follows_simulation w base).reachable hs
  have hlog := (reachable_inv hu).log
  exact ⟨u.log, hfollows.calls, hfollows.popped, hlog.halfDuplex, hlog.lawful, hlog.alone⟩

end SysLab.PartB.WorkerMain
