import SysLab.Foundation.EchoService
import SysLab.PartB.ThreadpoolProgress
import SysLab.PartB.ThreadpoolWorker

/-!
# The thread-pool server as an echo service

Whatever the order in which the threads run, the calls they make together are a run
of the echo service of `Foundation.EchoService`.  Its state is spread over the
process: a worker in `write_full` owes its client the rest of its buffer, and nobody
else owes anything (`Echoing`).  One client is in one worker's hands, so no other
thread's call gets between its `read` and its `write`.
-/

namespace SysLab.PartB.ThreadpoolServer

open SysLab.Foundation
open Transcript (clients mem_clients Conserved HalfDuplex HalfDuplexCall)

section Echo

variable {threadCount : Nat} {base : Finset Int} {s t : State threadCount}
  {w : Fin threadCount}

/-- What a worker has still to write. -/
def Worker.pending (worker : Worker) : List UInt8 :=
  match worker.pc with
  | .writing _ n done => worker.buffer.window done n
  | _ => []

/-- What is owed to a client in this place. -/
def State.pendingAt (s : State threadCount) : WorkQueue.Place (Fin threadCount) → List UInt8
  | .worker w => (s.workers w).pending
  | _ => []

/-- Somewhere in the process `fd` is kept, with `pending` still to be written. -/
def State.Owes (s : State threadCount) (fd : Int) (pending : List UInt8) : Prop :=
  ∃ nodes place, Path ClientNode.next s.queue.heap s.queue.head nodes ∧
    s.Keeps nodes place fd ∧ s.pendingAt place = pending

theorem serving_of_transfer {pc : WorkerPc} {fd : Int} {n done : Nat}
    (h : pc.transfer = some (fd, n, done)) (q : Queue) : fd ∈ q.serving pc := by
  rw [writing_of_transfer h]
  exact List.mem_singleton_self fd

theorem pending_of_transfer {worker : Worker} {fd : Int} {n done : Nat}
    (h : worker.pc.transfer = some (fd, n, done)) :
    worker.pending = worker.buffer.window done n := by
  rw [Worker.pending, writing_of_transfer h]

theorem pending_of_none {worker : Worker} (h : worker.pc.transfer = none) :
    worker.pending = [] := by
  unfold Worker.pending
  split
  · next fd n done hpc =>
      rw [hpc] at h
      cases h
  · rfl

/-! ## What is owed at every moment -/

/-- A worker in `write_full` owes its client the rest of its buffer; the other clients
are owed nothing. -/
structure Echoing (base : Finset Int) (s : State threadCount) : Prop where
  writing : ∀ w fd n done, (s.workers w).pc.transfer = some (fd, n, done) →
    Conserved s.trace fd (s.workers w).pending
  resting : ∀ fd ∈ clients base s.trace,
    (∀ w n done, (s.workers w).pc.transfer ≠ some (fd, n, done)) → Conserved s.trace fd []
  halfDuplex : HalfDuplex s.trace
  own : ∀ c ∈ s.trace, c.key ∉ base

/-- A step that makes no call. -/
theorem Echoing.quiet (h : Echoing base s) (htrace : t.trace = s.trace)
    (htransfer : ∀ v, (t.workers v).pc.transfer = (s.workers v).pc.transfer)
    (hbuffer : ∀ v, (t.workers v).buffer = (s.workers v).buffer) : Echoing base t := by
  refine ⟨fun v fd n done hv => ?_, fun fd hfd hnone => ?_, ?_, ?_⟩
  · have hold := hv
    rw [htransfer] at hold
    rw [htrace, pending_of_transfer hv, hbuffer, ← pending_of_transfer hold]
    exact h.writing v fd n done hold
  · rw [htrace] at hfd ⊢
    exact h.resting fd hfd fun v n done => htransfer v ▸ hnone v n done
  · rw [htrace]
    exact h.halfDuplex
  · rw [htrace]
    exact h.own

/-- A call of a worker on its client, after which the worker stands at `worker`. -/
theorem Echoing.call (h : Echoing base s) (hs : (system threadCount base).Reachable s)
    {c : Syscall} (hopens : c.opens = false) (hkey : c.key ∈ s.queue.serving (s.workers w).pc)
    (hcall : HalfDuplexCall c s.trace) (worker : Worker)
    (hclient : ∀ fd n done, worker.pc.transfer = some (fd, n, done) → fd = c.key)
    (howed : Conserved (c :: s.trace) c.key worker.pending) :
    Echoing base { s with
      workers := Function.update s.workers w worker
      trace := c :: s.trace } := by
  obtain ⟨hopen, halone⟩ := reachable_serving hs hkey
  have hsub : clients base (c :: s.trace) ⊆ clients base s.trace := by
    cases c with
    | accept fd => cases hopens
    | read fd asked res => exact Finset.Subset.refl _
    | write fd chunk res => exact Finset.Subset.refl _
    | close fd =>
        rw [Transcript.clients_close]
        exact Finset.erase_subset _ _
  refine ⟨fun v fd n done hv => ?_, fun fd hfd hnone => ?_, ⟨hcall, h.halfDuplex⟩,
    List.forall_mem_cons.mpr ⟨(mem_clients.mp hopen).2, h.own⟩⟩
  · dsimp only at hv ⊢
    by_cases hvw : v = w
    · subst hvw
      rw [Function.update_self] at hv ⊢
      rw [hclient fd n done hv]
      exact howed
    · rw [Function.update_of_ne hvw] at hv ⊢
      refine (h.writing v fd n done hv).frame fun hfd => hvw (halone v ?_)
      rw [hfd]
      exact serving_of_transfer hv s.queue
  · dsimp only at hfd hnone ⊢
    by_cases hkeyfd : c.key = fd
    · subst hkeyfd
      have hidle : worker.pc.transfer = none := by
        rcases htransfer : worker.pc.transfer with _ | ⟨fd, n, done⟩
        · rfl
        · have hw := hnone w n done
          rw [Function.update_self, htransfer, hclient fd n done htransfer] at hw
          exact absurd rfl hw
      rwa [pending_of_none hidle] at howed
    · refine (h.resting fd (hsub hfd) fun v n done hv => ?_).frame hkeyfd
      by_cases hvw : v = w
      · subst hvw
        have hserved := serving_of_transfer hv s.queue
        rw [writing_of_transfer hv] at hkey
        exact hkeyfd (List.mem_singleton.mp hkey)
      · have hother := hnone v n done
        rw [Function.update_of_ne hvw] at hother
        exact hother hv

/-- A worker closes its client. -/
theorem Echoing.close (h : Echoing base s) {fd : Int} (hfd : fd ∈ clients base s.trace)
    (hw : ∀ fd' n done, (s.workers w).pc.transfer = some (fd', n, done) → fd' = fd) :
    Echoing base (closeClient s w fd) := by
  refine ⟨fun v fd' n done hv => ?_, fun fd' hfd' hnone => ?_, ⟨trivial, h.halfDuplex⟩,
    List.forall_mem_cons.mpr ⟨(mem_clients.mp hfd).2, h.own⟩⟩
  · by_cases hvw : v = w
    · subst hvw
      simp only [closeClient, State.setPc, Function.update_self] at hv
      cases hv
    · simp only [closeClient, State.setPc, Function.update_of_ne hvw] at hv ⊢
      exact (h.writing v fd' n done hv).idle rfl rfl rfl
  · have hold : fd' ∈ clients base s.trace ∧ fd' ≠ fd := by
      have hmem : fd' ∈ clients base (.close fd :: s.trace) := hfd'
      rw [Transcript.clients_close, Finset.mem_erase] at hmem
      exact ⟨hmem.2, hmem.1⟩
    refine (h.resting fd' hold.1 fun v n done hv => ?_).idle rfl rfl rfl
    by_cases hvw : v = w
    · subst hvw
      exact hold.2 (hw fd' n done hv)
    · have hother := hnone v n done
      simp only [closeClient, State.setPc, Function.update_of_ne hvw] at hother
      exact hother hv

/-! ## Every step pays -/

theorem transfer_of_serving {fd fd' : Int} {n done : Nat}
    (hfd : fd ∈ s.queue.serving (s.workers w).pc)
    (h : (s.workers w).pc.transfer = some (fd', n, done)) : fd' = fd := by
  rw [writing_of_transfer h] at hfd
  exact (List.mem_singleton.mp hfd).symm

/-- A worker makes a call that moves no byte and stays where it is. -/
theorem Echoing.stay (h : Echoing base s) (hs : (system threadCount base).Reachable s)
    {c : Syscall} (hopens : c.opens = false) (hkey : c.key ∈ s.queue.serving (s.workers w).pc)
    (hcall : HalfDuplexCall c s.trace) (hdelivered : c.delivered = []) (htaken : c.taken = [])
    (howed : Conserved s.trace c.key (s.workers w).pending) :
    Echoing base { s with trace := c :: s.trace } := by
  have hstay := h.call hs hopens hkey hcall (s.workers w)
    (fun fd n done hw => transfer_of_serving hkey hw) (howed.idle hopens hdelivered htaken)
  rwa [Function.update_eq_self] at hstay

theorem Echoing.readStep (h : Echoing base s) (hs : (system threadCount base).Reachable s)
    {fd : Int} (hpc : (s.workers w).pc = .reading fd) {res : Except Errno (List UInt8)}
    (hk : (Call.read fd 4096 res : Syscall).Sane) :
    Echoing base (readStep s w fd res) := by
  have hserving : fd ∈ s.queue.serving (s.workers w).pc := by
    rw [hpc]
    exact List.mem_singleton_self fd
  obtain ⟨hopen, halone⟩ := reachable_serving hs hserving
  have hnone : (s.workers w).pc.transfer = none := by
    rw [hpc]
    rfl
  have hresting : Conserved s.trace fd [] := by
    refine h.resting fd hopen fun v n done hv => ?_
    rw [halone v (serving_of_transfer hv s.queue), hnone] at hv
    cases hv
  have hclosed : ∀ c : Syscall, c.opens = false → c.key = fd → HalfDuplexCall c s.trace →
      clients base (c :: s.trace) = clients base s.trace → c.delivered = [] → c.taken = [] →
      Echoing base { s with trace := c :: s.trace } ∧
        Echoing base (closeClient { s with trace := c :: s.trace } w fd) := by
    rintro c hopens rfl hcall hsame hdelivered htaken
    have hstay := h.stay hs hopens hserving hcall hdelivered htaken (by
      rwa [pending_of_none hnone])
    refine ⟨hstay, hstay.close ?_ fun fd' n done hw => transfer_of_serving hserving hw⟩
    rwa [hsame]
  rcases res with e | _ | ⟨b, bs⟩
  · have hboth := hclosed (.read fd 4096 (.error e)) rfl rfl hresting rfl rfl rfl
    rw [ThreadpoolServer.readStep]
    split
    · exact hboth.1
    · exact hboth.2
  · exact (hclosed (.read fd 4096 (.ok [])) rfl rfl hresting rfl rfl rfl).2
  · refine h.call hs (c := .read fd 4096 (.ok (b :: bs))) rfl hserving hresting _ ?_ ?_
    · rintro fd' n done ⟨⟩
      rfl
    · show Conserved _ fd (Buffer.window _ 0 _)
      rw [Buffer.window_store _ hk]
      exact hresting.read 4096 (b :: bs)

theorem Echoing.writeStep (h : Echoing base s) (hs : (system threadCount base).Reachable s)
    {fd : Int} {n done : Nat} (hpc : (s.workers w).pc = .writing fd n done)
    {res : Except Errno Nat}
    (hk : (Call.write fd ((s.workers w).buffer.window done n) res : Syscall).Sane) :
    Echoing base (writeStep s w fd n done res) := by
  have hserving : fd ∈ s.queue.serving (s.workers w).pc := by
    rw [hpc]
    exact List.mem_singleton_self fd
  have hopen := (reachable_serving hs hserving).1
  have htransfer : (s.workers w).pc.transfer = some (fd, n, done) := by
    rw [hpc]
    rfl
  have hbounds := reachable_inTransfer hs w fd n done htransfer
  have howed := h.writing w fd n done htransfer
  have hpending := pending_of_transfer htransfer
  have hcall : Conserved s.trace fd ((s.workers w).buffer.window done n) := hpending ▸ howed
  -- a call that moves nothing leaves the worker where it is, or makes it close
  have hstay : ∀ res, (Call.write fd ((s.workers w).buffer.window done n) res :
      Syscall).taken = [] → Echoing base { s with
        trace := .write fd ((s.workers w).buffer.window done n) res :: s.trace } := fun res ht =>
    h.stay hs (c := .write fd _ res) rfl hserving hcall rfl ht howed
  have hclosed : ∀ res, (Call.write fd ((s.workers w).buffer.window done n) res :
      Syscall).taken = [] → Echoing base (closeClient { s with
        trace := .write fd ((s.workers w).buffer.window done n) res :: s.trace } w fd) :=
    fun res ht => (hstay res ht).close hopen fun fd' n' d' hw => transfer_of_serving hserving hw
  rcases res with e | _ | k
  · by_cases hintr : e = .EINTR
    · have hsame : ThreadpoolServer.writeStep s w fd n done (.error e) = { s with
          trace := .write fd ((s.workers w).buffer.window done n) (.error e) :: s.trace } := by
        have hnext : writeFull n done (.error e) = .running done := by
          simp only [writeFull, transferStep, hintr, if_true, Transfer.resume, hbounds.1]
        rw [ThreadpoolServer.writeStep, hnext]
        show State.setPc _ w (.writing fd n done) = _
        rw [← hpc, State.setPc, Function.update_eq_self]
      rw [hsame]
      exact hstay (.error e) rfl
    · have hclose : ThreadpoolServer.writeStep s w fd n done (.error e) = closeClient { s with
          trace := .write fd ((s.workers w).buffer.window done n) (.error e) :: s.trace } w fd := by
        have hnext : writeFull n done (.error e) = .returned (.error e) := if_neg hintr
        rw [ThreadpoolServer.writeStep, hnext]
      rw [hclose]
      exact hclosed (.error e) rfl
  · have hclose : ThreadpoolServer.writeStep s w fd n done (.ok 0) = closeClient { s with
        trace := .write fd ((s.workers w).buffer.window done n) (.ok 0) :: s.trace } w fd := by
      have hless : done ≠ n := Nat.ne_of_lt hbounds.1
      rw [ThreadpoolServer.writeStep, show writeFull n done (.ok 0) = .returned (.ok done) from rfl]
      exact if_neg hless
    rw [hclose]
    exact hclosed (.ok 0) rfl
  · have hmoved : done + (k + 1) ≤ n := by
      have hlength : k + 1 ≤ ((s.workers w).buffer.window done n).length := hk
      rw [Buffer.length_window _ hbounds.2] at hlength
      omega
    have hleft := hcall.write (k + 1)
    rw [Buffer.drop_window] at hleft
    rw [writeStep_ok (Nat.succ_pos k) hmoved]
    refine h.call hs (c := .write fd ((s.workers w).buffer.window done n) (.ok (k + 1))) rfl
      hserving hcall _ ?_ ?_
    · intro fd' n' d' hw
      split at hw
      · cases hw
        rfl
      · cases hw
    · unfold Worker.pending
      by_cases hmore : done + (k + 1) < n
      · simp only [hmore, if_true]
        exact hleft
      · have hall : done + (k + 1) = n := by omega
        rw [hall, Buffer.window_self] at hleft
        simp only [hmore, if_false]
        exact hleft

/-- No buffer changes but in `read`. -/
theorem step_quiet_buffer {e : Event threadCount} (he : e.Quiet) (hstep : step s e = some t)
    (v : Fin threadCount) : (t.workers v).buffer = (s.workers v).buffer := by
  have hsetPc : ∀ w pc, ((s.setPc w pc).workers v).buffer = (s.workers v).buffer := by
    intro w pc
    by_cases hv : v = w
    · subst hv
      simp only [State.setPc, Function.update_self]
    · simp only [State.setPc, Function.update_of_ne hv]
  cases e with
  | accept res => cases he
  | read w res => cases he
  | write w res => cases he
  | malloc node =>
      cases node with
      | none => cases he
      | some node =>
          simp only [step] at hstep
          split at hstep
          · simp only [mallocStep] at hstep
            split at hstep
            · cases hstep
              rfl
            · cases hstep
          · cases hstep
  | push wake =>
      simp only [step] at hstep
      split at hstep
      · simp only [pushStep] at hstep
        split at hstep
        · obtain ⟨queue, _, rfl⟩ := Option.map_eq_some_iff.mp hstep
          show (wakeUp s.workers wake v).buffer = _
          unfold wakeUp
          split
          · rfl
          · rfl
        · cases hstep
      · cases hstep
  | pop w =>
      have hpop : popStep s w = some t → (t.workers v).buffer = (s.workers v).buffer := by
        intro hpop
        unfold popStep at hpop
        split at hpop
        · cases hpop
          exact hsetPc w .waiting
        · obtain ⟨⟨node, queue⟩, _, rfl⟩ := Option.map_eq_some_iff.mp hpop
          exact hsetPc w (.popped node)
      simp only [step] at hstep
      split at hstep
      · exact hpop hstep
      · exact hpop hstep
      · cases hstep
  | spurious w =>
      simp only [step] at hstep
      split at hstep
      · cases hstep
        exact hsetPc w .woken
      · cases hstep
  | take w =>
      simp only [step] at hstep
      split at hstep
      · simp only [takeStep] at hstep
        split at hstep
        · cases hstep
        · cases hstep
          exact hsetPc w _
      · cases hstep

/-- The main thread has a new client. -/
theorem Echoing.accept (h : Echoing base s) (hs : (system threadCount base).Reachable s)
    {fd : Int} (hnew : fd ∉ Transcript.openKeys base s.trace) :
    Echoing base (acceptStep s (.ok fd)) := by
  have hlawful := reachable_lawful hs
  have hbase : fd ∉ base := fun hmem => hnew (hlawful.base_subset hmem)
  refine ⟨fun v fd' n done hv => ?_, fun fd' hfd' hnone => ?_, ⟨trivial, h.halfDuplex⟩,
    EchoService.own_accept hlawful h.own hnew⟩
  · have hopen := (reachable_serving hs (serving_of_transfer hv s.queue)).1
    refine (h.writing v fd' n done hv).frame fun heq => hnew ?_
    rw [show fd = fd' from heq]
    exact (mem_clients.mp hopen).1
  · by_cases heq : fd = fd'
    · subst heq
      exact Conserved.accept s.trace fd
    · have hmem : fd' ∈ clients base (.accept fd :: s.trace) := hfd'
      rw [Transcript.clients_accept hbase, Finset.mem_insert] at hmem
      exact (h.resting fd' (hmem.resolve_left (Ne.symm heq)) hnone).frame heq

/-- Without memory for a node the main thread closes the client. -/
theorem Echoing.refuse (h : Echoing base s) (hs : (system threadCount base).Reachable s)
    {fd : Int} (hpc : s.acceptor = .malloc fd) :
    Echoing base { s with acceptor := .accept, trace := .close fd :: s.trace } := by
  obtain ⟨a, _, hrep⟩ := (simulates_workQueue threadCount base).reachable hs
  have hopen : fd ∈ clients base s.trace := (hrep.held fd).mpr ⟨.hand, hrep.hand_at hpc⟩
  refine ⟨fun v fd' n done hv => (h.writing v fd' n done hv).idle rfl rfl rfl,
    fun fd' hfd' hnone => ?_, ⟨trivial, h.halfDuplex⟩,
    List.forall_mem_cons.mpr ⟨(mem_clients.mp hopen).2, h.own⟩⟩
  have hmem : fd' ∈ clients base (.close fd :: s.trace) := hfd'
  rw [Transcript.clients_close, Finset.mem_erase] at hmem
  exact (h.resting fd' hmem.2 hnone).idle rfl rfl rfl

theorem Echoing.step (h : Echoing base s) (hs : (system threadCount base).Reachable s)
    {e : Event threadCount} (hnext : (system threadCount base).next s e t) : Echoing base t := by
  obtain ⟨hstep, hk⟩ := hnext
  by_cases hquiet : e.Quiet
  · obtain ⟨htrace, htransfer⟩ := step_quiet hquiet hstep
    exact h.quiet htrace htransfer (step_quiet_buffer hquiet hstep)
  rcases Event.not_quiet hquiet with ⟨res, rfl⟩ | rfl | ⟨w, res, rfl⟩ | ⟨w, res, rfl⟩
  · simp only [ThreadpoolServer.step] at hstep
    split at hstep
    · cases hstep
      rcases res with e | fd
      · exact h
      · exact h.accept hs hk.1.2
    · cases hstep
  · simp only [ThreadpoolServer.step] at hstep
    split at hstep
    · next fd hpc =>
        cases hstep
        exact h.refuse hs hpc
    · cases hstep
  · simp only [ThreadpoolServer.step] at hstep
    split at hstep
    · next fd hpc =>
        cases hstep
        exact h.readStep hs hpc (WorkerMain.sane_of_read hk)
    · cases hstep
  · simp only [ThreadpoolServer.step] at hstep
    split at hstep
    · next fd n done hpc =>
        cases hstep
        exact h.writeStep hs hpc (WorkerMain.sane_of_write hk)
    · cases hstep

theorem reachable_echoing (hs : (system threadCount base).Reachable s) : Echoing base s := by
  refine hs.induct (I := Echoing base) ?_ fun s e t hs h hnext => h.step hs hnext
  rintro s rfl
  refine ⟨fun w fd n done hw => (by cases hw), fun fd hfd _ => ?_, trivial,
    fun c hc => absurd hc List.not_mem_nil⟩
  have hnone : fd ∈ clients base ([] : Trace) := hfd
  rw [Transcript.clients_nil] at hnone
  exact absurd hnone (Finset.notMem_empty fd)

/-- The thread-pool server is an echo service; the service's state is in the main
thread's hands, in the queue and with the workers. -/
theorem echo_service (hs : (system threadCount base).Reachable s) :
    EchoService.Refines base s.trace s.Owes := by
  have h := reachable_echoing hs
  obtain ⟨a, ha, hrep⟩ := (simulates_workQueue threadCount base).reachable hs
  have hexcl := WorkQueue.reachable_exclusive ha
  obtain ⟨nodes, hlists⟩ := hrep.queue
  have horderly : EchoService.Orderly base s.trace :=
    ⟨hrep.lawful, h.halfDuplex, h.own⟩
  -- a client elsewhere than with a worker is in no transfer
  have hresting : ∀ fd place, a.Holds place fd → (∀ w, place ≠ .worker w) →
      Conserved s.trace fd [] := by
    intro fd place hplace hnot
    refine h.resting fd ((hrep.held fd).mpr ⟨place, hplace⟩) fun w n done hw => ?_
    have hserving := serving_of_transfer hw s.queue
    exact hnot w (hexcl.place place (.worker w) fd hplace
      (((hrep.stage w).mem_serving fd).mp hserving))
  refine horderly.refines ?_ ?_
  · rintro fd pending ⟨nodes', place, hpath, hkeeps, rfl⟩
    obtain rfl := hlists.path.unique hpath
    have hplace := (hrep.keeps_iff hlists place fd).mp hkeeps
    refine ⟨(hrep.held fd).mpr ⟨place, hplace⟩, ?_⟩
    cases place with
    | hand => exact hresting fd .hand hplace fun w => by simp
    | queue => exact hresting fd .queue hplace fun w => by simp
    | worker w =>
        have hserving : fd ∈ s.queue.serving (s.workers w).pc := hkeeps
        obtain ⟨hopen, halone⟩ := reachable_serving hs hserving
        show Conserved s.trace fd (s.workers w).pending
        rcases htransfer : (s.workers w).pc.transfer with _ | ⟨fd', n, done⟩
        · rw [pending_of_none htransfer]
          refine h.resting fd hopen fun v n done hv => ?_
          rw [halone v (serving_of_transfer hv s.queue), htransfer] at hv
          cases hv
        · have howed := h.writing w fd' n done htransfer
          rwa [transfer_of_serving hserving htransfer] at howed
  · intro fd hfd
    obtain ⟨place, hplace⟩ := (hrep.held fd).mp hfd
    exact ⟨_, nodes, place, hlists.path, (hrep.keeps_iff hlists place fd).mpr hplace, rfl⟩

end Echo

end SysLab.PartB.ThreadpoolServer
