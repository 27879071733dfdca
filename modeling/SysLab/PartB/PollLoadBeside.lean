import SysLab.PartB.PollLoadServed
import SysLab.PartB.ThreadpoolFits

/-!
# The `poll` server beside a thread pool

To its clients the `poll` server is a thread pool with as many workers as it has slots:
a free slot is a worker that waits, an empty buffer one that reads, a full one a worker
that writes.  A client that gets a slot is one that a worker has popped and taken; the
server closes it where the worker does.
-/

namespace SysLab.PartB.ThreadpoolServer.Queue

/-- The first to be linked. -/
theorem link_empty {q : Queue} (h : q.tail = none) (node : Nat) :
    q.link node = some ⟨some node, some node, q.heap⟩ := by
  rw [link, h]

/-- The only one is unlinked. -/
theorem unlink_single {heap : Heap} {node : Nat} {fd : Int}
    (h : heap node = some ⟨fd, none⟩) :
    unlink ⟨some node, some node, heap⟩ = some (node, ⟨none, none, heap⟩) := by
  simp only [unlink, h]
  rfl

end SysLab.PartB.ThreadpoolServer.Queue

namespace SysLab.PartB.ThreadpoolServer

variable {threadCount : Nat}

/-- With nobody in the queue, the main thread pushes its client and wakes a worker. -/
theorem push_first {s : State threadCount} {w : Fin threadCount} {node : Nat}
    (hpc : s.acceptor = .lock node) (htail : s.queue.tail = none)
    (hw : (s.workers w).pc = .waiting) :
    step s (.push {w}) = some { s with
      acceptor := .accept
      workers := wakeUp s.workers {w}
      queue := ⟨some node, some node, s.queue.heap⟩
      pushes := s.pushes ++ s.queue.fdOf node } := by
  have hsignals : s.Signals {w} := by
    refine ⟨fun v hv => ?_, fun _ => ⟨w, Finset.mem_singleton_self w⟩⟩
    rw [Finset.mem_singleton.mp hv]
    exact hw
  simp only [step, hpc]
  rw [pushStep, if_pos hsignals, Queue.link_empty htail node]
  rfl

/-- A worker that is woken pops the only client. -/
theorem pop_single {s : State threadCount} {fd : Int} {w : Fin threadCount} {node : Nat}
    {heap : Heap} (hpc : (s.workers w).pc = .woken)
    (hqueue : s.queue = ⟨some node, some node, heap⟩) (hnode : heap node = some ⟨fd, none⟩) :
    step s (.pop w) = some { s.setPc w (.popped node) with
      queue := ⟨none, none, heap⟩
      pops := s.pops ++ (s.queue.fdOf node).map fun fd => (w, fd) } := by
  have hsome : s.queue.head ≠ none := by
    rw [hqueue]
    exact Option.some_ne_none node
  have hunlink : s.queue.unlink = some (node, ⟨none, none, heap⟩) := by
    rw [hqueue]
    exact Queue.unlink_single hnode
  simp only [step, hpc, popStep, if_neg hsome, hunlink, Option.map_some]

/-- It takes the client that it popped. -/
theorem take_popped {s : State threadCount} {fd : Int} {w : Fin threadCount} {node : Nat}
    (hpc : (s.workers w).pc = .popped node) (hnode : s.queue.heap node = some ⟨fd, none⟩) :
    step s (.take w) = some { s.setPc w (.reading fd) with
      queue := { s.queue with heap := Function.update s.queue.heap node none }
      returns := s.returns ++ [(w, fd)] } := by
  simp only [step, hpc, takeStep, hnode]

/-- With nobody in the queue, the client is pushed, popped and taken by a worker that
waits. -/
theorem hand_over {s : State threadCount} {fd : Int} {w : Fin threadCount} (node : Nat)
    (hpc : s.acceptor = .malloc fd) (hfree : s.queue.heap node = none)
    (htail : s.queue.tail = none) (hw : (s.workers w).pc = .waiting) :
    ∃ allocated pushed popped taken, step s (.malloc (some node)) = some allocated ∧
      step allocated (.push {w}) = some pushed ∧ step pushed (.pop w) = some popped ∧
      step popped (.take w) = some taken ∧ taken.acceptor = .accept ∧
      taken.queue.head = none ∧
      taken.workers = Function.update s.workers w ⟨.reading fd, (s.workers w).buffer⟩ := by
  have hmalloc : step s (.malloc (some node)) = some { s with
      acceptor := .lock node
      queue := { s.queue with
        heap := Function.update s.queue.heap node (some ⟨fd, none⟩) } } := by
    simp only [step, hpc]
    exact if_pos hfree
  have hwoken : wakeUp s.workers {w} w = ⟨.woken, (s.workers w).buffer⟩ :=
    if_pos (Finset.mem_singleton_self w)
  have hpopped : Function.update (wakeUp s.workers {w}) w
      { wakeUp s.workers {w} w with pc := .popped node } w =
        ⟨.popped node, (s.workers w).buffer⟩ := by
    rw [Function.update_self, hwoken]
  have hnode : Function.update s.queue.heap node (some ⟨fd, none⟩) node = some ⟨fd, none⟩ :=
    Function.update_self _ _ _
  refine ⟨_, _, _, _, hmalloc, push_first rfl htail hw,
    pop_single (congrArg Worker.pc hwoken) rfl hnode,
    take_popped (congrArg Worker.pc hpopped) hnode, rfl, rfl, ?_⟩
  funext v
  by_cases hv : v = w
  · subst hv
    show Function.update (Function.update (wakeUp s.workers {v}) v _) v
      ⟨.reading fd, (Function.update (wakeUp s.workers {v}) v _ v).buffer⟩ v = _
    rw [Function.update_self, hpopped, Function.update_self]
  · show Function.update (Function.update (wakeUp s.workers {w}) w _) w _ v = _
    rw [Function.update_of_ne hv, Function.update_of_ne hv, Function.update_of_ne hv]
    exact if_neg fun hmem => hv (Finset.mem_singleton.mp hmem)

end SysLab.PartB.ThreadpoolServer

namespace SysLab.PartB.ThreadpoolLoad

open SysLab.Foundation

variable {threadCount threads toServer toClient : Nat} {setup : Setup threads}
  {s t : State threadCount threads toServer toClient}

theorem faultless_of_quiet {e : ThreadpoolServer.Event threadCount} (h : e.Quiet) :
    faultless e = true := by
  cases e with
  | accept res => cases h
  | malloc node =>
      cases node with
      | none => cases h
      | some node => rfl
  | push wake => rfl
  | pop w => rfl
  | spurious w => rfl
  | take w => rfl
  | read w res => cases h
  | write w res => cases h

/-- A step of the server whose calls are answered. -/
theorem serverStep_eq {e : ThreadpoolServer.Event threadCount}
    {server : ThreadpoolServer.State threadCount}
    {network : Network (Conn threads) toServer toClient} (calls : Trace)
    (hfaultless : faultless e = true)
    (hstep : ThreadpoolServer.step s.server e = some server)
    (hcalls : server.trace = calls ++ s.server.trace)
    (hkernel : KernelOk setup.base server.trace)
    (hanswers : s.network.answers s.isOpen calls = some network) :
    step setup s (.server e) = some { s with server := server, network := network } := by
  have hnew : newCalls s.server.trace server.trace = calls := by
    rw [hcalls, newCalls_append]
  show serverStep setup s e = _
  rw [serverStep, if_pos hfaultless, hstep, Option.bind_some, if_pos hkernel, hnew, hanswers]
  rfl

/-- A step without a call. -/
theorem quietStep_eq {e : ThreadpoolServer.Event threadCount}
    {server : ThreadpoolServer.State threadCount} (hquiet : e.Quiet)
    (hkernel : KernelOk setup.base s.server.trace)
    (hstep : ThreadpoolServer.step s.server e = some server) :
    step setup s (.server e) = some { s with server := server } := by
  have htrace := (ThreadpoolServer.step_quiet hquiet hstep).1
  exact serverStep_eq [] (faultless_of_quiet hquiet) hstep htrace (by rw [htrace]; exact hkernel)
    rfl

/-! ## A client for a worker that waits -/

/-- With nobody in the queue, a client that is accepted is taken by a worker that
waits. -/
theorem handed_over (h : Sound setup s) (hacceptor : s.server.acceptor = .accept)
    (hhead : s.server.queue.head = none) {w : Fin threadCount}
    (hw : (s.server.workers w).pc = .waiting) {fd : Int} {k : Conn threads}
    {rest : List (Conn threads)} (hbacklog : s.network.backlog = k :: rest)
    (hkernel : KernelOk setup.base (.accept fd :: s.server.trace)) :
    ∃ node server, (system setup threadCount toServer toClient).Run s
        [.server (.accept (.ok fd)), .server (.malloc (some node)), .server (.push {w}),
          .server (.pop w), .server (.take w)]
        { s with
          server := server
          network := { s.network with
            backlog := rest
            peer := Function.update s.network.peer fd (some k) } } ∧
      server.acceptor = .accept ∧ server.queue.head = none ∧
      server.trace = .accept fd :: s.server.trace ∧
      server.workers = Function.update s.server.workers w
        ⟨.reading fd, (s.server.workers w).buffer⟩ := by
  obtain ⟨bound, hbound⟩ := ThreadpoolServer.reachable_unallocated h.server
  obtain ⟨a, _, hrep⟩ :=
    (ThreadpoolServer.simulates_workQueue threadCount setup.base).reachable h.server
  obtain ⟨nodes, hlists⟩ := hrep.queue
  have htail : s.server.queue.tail = none :=
    hlists.tail_eq_none.mpr (hlists.head_eq_none.mp hhead)
  let network : Network (Conn threads) toServer toClient :=
    { s.network with
      backlog := rest
      peer := Function.update s.network.peer fd (some k) }
  let accepted := ThreadpoolServer.acceptStep s.server (.ok fd)
  have haccept : step setup s (.server (.accept (.ok fd))) =
      some { s with server := accepted, network := network } := by
    refine serverStep_eq [.accept fd] rfl ?_ rfl hkernel ?_
    · simp only [ThreadpoolServer.step, hacceptor, accepted]
    · show s.network.answer s.isOpen (.accept fd) = _
      simp only [Network.answer, hbacklog, network]
  obtain ⟨allocated, pushed, popped, taken, hmalloc, hpush, hpop, htake, hdone⟩ :=
    ThreadpoolServer.hand_over (s := accepted) bound rfl (hbound bound (le_refl bound)) htail hw
  have htrace₁ : allocated.trace = accepted.trace :=
    (ThreadpoolServer.step_quiet (e := .malloc (some bound)) trivial hmalloc).1
  have htrace₂ : pushed.trace = allocated.trace :=
    (ThreadpoolServer.step_quiet (e := .push {w}) trivial hpush).1
  have htrace₃ : popped.trace = pushed.trace :=
    (ThreadpoolServer.step_quiet (e := .pop w) trivial hpop).1
  have htrace₄ : taken.trace = popped.trace :=
    (ThreadpoolServer.step_quiet (e := .take w) trivial htake).1
  have hkernel₁ : KernelOk setup.base allocated.trace := by rwa [htrace₁]
  have hkernel₂ : KernelOk setup.base pushed.trace := by rwa [htrace₂]
  have hkernel₃ : KernelOk setup.base popped.trace := by rwa [htrace₃]
  have hrun : (system setup threadCount toServer toClient).Run s
      [.server (.accept (.ok fd)), .server (.malloc (some bound)), .server (.push {w}),
        .server (.pop w), .server (.take w)]
      { s with server := taken, network := network } :=
    .cons haccept (.cons (quietStep_eq trivial hkernel hmalloc)
      (.cons (quietStep_eq trivial hkernel₁ hpush) (.cons (quietStep_eq trivial hkernel₂ hpop)
        (.cons (quietStep_eq trivial hkernel₃ htake) (.nil _)))))
  exact ⟨bound, taken, hrun, hdone.1, hdone.2.1,
    by rw [htrace₄, htrace₃, htrace₂, htrace₁]; rfl, hdone.2.2⟩

/-! ## Before anybody connects -/

/-- The first `n` workers have gone to sleep. -/
def asleep (threadCount n : Nat) : ThreadpoolServer.State threadCount :=
  { ThreadpoolServer.initial threadCount with
    workers := fun w => ⟨if w < n then .waiting else .lock, .fill 4096 0⟩ }

/-- Nobody has connected yet. -/
def unvisited (setup : Setup threads) (n : Nat) :
    State threadCount threads toServer toClient where
  server := asleep threadCount n
  network := .quiet
  clients i := .loopTest (setup.connections i) 0 0

variable (toServer toClient) in
theorem asleep_run (setup : Setup threads) {n : Nat} (hn : n ≤ threadCount) :
    ∃ es, (system setup threadCount toServer toClient).Run (initial setup) es
      (unvisited setup n) ∧ ∀ e ∈ es, ∃ w, e = .server (.pop w) := by
  induction n with
  | zero => exact ⟨[], .nil (initial setup), fun e he => absurd he List.not_mem_nil⟩
  | succ n ih =>
      obtain ⟨es, hrun, hpops⟩ := ih (Nat.le_of_succ_le hn)
      let w : Fin threadCount := ⟨n, hn⟩
      have hlock : (asleep threadCount n).workers w = ⟨.lock, .fill 4096 0⟩ :=
        congrArg (ThreadpoolServer.Worker.mk · _) (if_neg (lt_irrefl n))
      have hpop : ThreadpoolServer.step (asleep threadCount n) (.pop w) =
          some (asleep threadCount (n + 1)) := by
        have hsleep : ThreadpoolServer.step (asleep threadCount n) (.pop w) =
            some ((asleep threadCount n).setPc w .waiting) := by
          simp only [ThreadpoolServer.step, hlock]
          rfl
        rw [hsleep]
        refine congrArg (fun workers => some { asleep threadCount n with workers := workers })
          (funext fun v => ?_)
        by_cases hv : v = w
        · subst hv
          rw [Function.update_self, hlock, if_pos (Nat.lt_succ_self n)]
        · have hne : (v : Nat) ≠ n := fun heq => hv (Fin.ext heq)
          rw [Function.update_of_ne hv]
          by_cases hlt : (v : Nat) < n
          · simp only [asleep, if_pos hlt, if_pos (Nat.lt_succ_of_lt hlt)]
          · have hle : ¬ (v : Nat) < n + 1 := by omega
            simp only [asleep, if_neg hlt, if_neg hle]
      have hnext : (system setup threadCount toServer toClient).next (unvisited setup n)
          (.server (.pop w)) (unvisited setup (n + 1)) :=
        quietStep_eq (s := unvisited setup n) trivial trivial hpop
      refine ⟨es ++ [.server (.pop w)], hrun.snoc hnext, fun e he => ?_⟩
      rcases List.mem_append.mp he with he | he
      · exact hpops e he
      · exact ⟨w, List.mem_singleton.mp he⟩

/-! ## A worker with its client -/

section Worker

variable {w : Fin threadCount} {fd : Int} {buffer : Buffer UInt8 4096} {k : Conn threads}

/-- A worker reads what there is. -/
theorem read_step (hworker : s.server.workers w = ⟨.reading fd, buffer⟩)
    (hpeer : s.network.peer fd = some k) {bytes : List UInt8} (hbytes : 0 < bytes.length)
    {inbound : Channel UInt8 toServer}
    (hpop : (s.network.inbound k).pop bytes.length = some (bytes, inbound))
    (hkernel : KernelOk setup.base (.read fd 4096 (.ok bytes) :: s.server.trace)) :
    step setup s (.server (.read w (.ok bytes))) = some { s with
      server := { s.server with
        workers := Function.update s.server.workers w
          ⟨.writing fd bytes.length 0, buffer.store bytes⟩
        trace := .read fd 4096 (.ok bytes) :: s.server.trace }
      network := { s.network with
        inbound := Function.update s.network.inbound k inbound } } := by
  obtain ⟨b, bs, rfl⟩ := List.exists_cons_of_length_pos hbytes
  refine serverStep_eq [.read fd 4096 (.ok (b :: bs))] rfl ?_ rfl hkernel ?_
  · simp only [ThreadpoolServer.step, hworker, ThreadpoolServer.readStep]
  · show (s.network.peer fd).bind (fun k => s.network.answerRead s.isOpen k (b :: bs)) = _
    rw [hpeer, Option.bind_some, Network.answerRead, if_neg (List.cons_ne_nil b bs), hpop]
    exact if_pos rfl

/-- It writes what there is room for. -/
theorem write_step {n done m : Nat} (hworker : s.server.workers w = ⟨.writing fd n done, buffer⟩)
    (hpeer : s.network.peer fd = some k) (hm : 0 < m) (hdone : done + m ≤ n)
    (hn : n ≤ 4096) {outbound : Channel UInt8 toClient}
    (hpush : (s.network.outbound k).push ((buffer.window done n).take m) = some outbound)
    (hkernel : KernelOk setup.base s.server.trace) :
    step setup s (.server (.write w (.ok m))) = some { s with
      server := { s.server with
        workers := Function.update s.server.workers w
          ⟨if done + m < n then .writing fd n (done + m) else .reading fd, buffer⟩
        trace := .write fd (buffer.window done n) (.ok m) :: s.server.trace }
      network := { s.network with
        outbound := Function.update s.network.outbound k outbound } } := by
  have hlength : (buffer.window done n).length = n - done := buffer.length_window hn
  have hguard : 0 < m ∧ m ≤ (buffer.window done n).length := by omega
  refine serverStep_eq [.write fd (buffer.window done n) (.ok m)] rfl ?_ rfl ?_ ?_
  · have hwrite : ThreadpoolServer.writeStep s.server w fd n done (.ok m) = _ :=
      ThreadpoolServer.writeStep_ok hm hdone
    simp only [ThreadpoolServer.step, hworker, hwrite, ThreadpoolServer.State.setPc]
  · exact ⟨hguard.2, hkernel⟩
  · show (s.network.peer fd).bind (fun k => s.network.answerWrite k _ m) = _
    rw [hpeer, Option.bind_some, Network.answerWrite, if_pos hguard, hpush]
    rfl

/-- It closes a client that has gone, and waits for another. -/
theorem close_run (hworker : s.server.workers w = ⟨.reading fd, buffer⟩)
    (hhead : s.server.queue.head = none) (hpeer : s.network.peer fd = some k)
    (hgone : s.isOpen k = false) (hempty : (s.network.inbound k).length = 0)
    (hkernel : KernelOk setup.base s.server.trace) :
    (system setup threadCount toServer toClient).Run s
      [.server (.read w (.ok [])), .server (.pop w)]
      { s with
        server := { s.server with
          workers := Function.update s.server.workers w ⟨.waiting, buffer⟩
          trace := .close fd :: .read fd 4096 (.ok []) :: s.server.trace }
        network := { s.network with
          peer := Function.update s.network.peer fd none
          dropped := Function.update s.network.dropped k true } } := by
  have hkernel' : KernelOk setup.base
      (.close fd :: .read fd 4096 (.ok []) :: s.server.trace) :=
    ⟨trivial, Nat.zero_le 4096, hkernel⟩
  let closed : ThreadpoolServer.State threadCount := { s.server with
    workers := Function.update s.server.workers w ⟨.lock, buffer⟩
    trace := .close fd :: .read fd 4096 (.ok []) :: s.server.trace }
  have hread : step setup s (.server (.read w (.ok []))) = some { s with
      server := closed
      network := { s.network with
        peer := Function.update s.network.peer fd none
        dropped := Function.update s.network.dropped k true } } := by
    refine serverStep_eq [.close fd, .read fd 4096 (.ok [])] rfl ?_ rfl hkernel' ?_
    · simp only [ThreadpoolServer.step, hworker, ThreadpoolServer.readStep,
        ThreadpoolServer.closeClient, ThreadpoolServer.State.setPc, closed]
    · have hanswer : s.network.answers s.isOpen [.read fd 4096 (.ok [])] = some s.network := by
        show (s.network.peer fd).bind (fun k => s.network.answerRead s.isOpen k []) = _
        rw [hpeer, Option.bind_some, Network.answerRead, if_pos rfl, if_pos ⟨hgone, hempty⟩]
      rw [Network.answers, hanswer, Option.bind_some, Network.answer, hpeer]
      rfl
  have hpop : ThreadpoolServer.step closed (.pop w) = some { closed with
      workers := Function.update s.server.workers w ⟨.waiting, buffer⟩ } := by
    have hlock : closed.workers w = ⟨.lock, buffer⟩ := Function.update_self _ _ _
    have hnobody : closed.queue.head = none := hhead
    have hsleep : ThreadpoolServer.step closed (.pop w) =
        some (closed.setPc w .waiting) := by
      simp only [ThreadpoolServer.step, hlock]
      exact if_pos hnobody
    rw [hsleep, ThreadpoolServer.State.setPc, hlock]
    exact congrArg (fun workers => some { closed with workers := workers })
      (Function.update_idem _ _ _)
  exact .cons hread (.cons (quietStep_eq trivial hkernel' hpop) (.nil _))

end Worker

end SysLab.PartB.ThreadpoolLoad

namespace SysLab.PartB.PollLoad

open SysLab.Foundation
open SysLab.PartB.PollServer (Slot Connection)
open SysLab.PartB.ThreadpoolLoad (Setup Conn Sound)

variable {threads toServer toClient maxClients : Nat} {setup : Setup threads}
  {s t : State threads toServer toClient}

/-! ## Slots and workers -/

/-- The worker that a slot stands for. -/
def workerOf (conn : Connection) : ThreadpoolServer.Worker where
  pc :=
    if conn.fd < 0 then .waiting
    else if conn.used = conn.sent then .reading conn.fd
    else .writing conn.fd conn.used conn.sent
  buffer := conn.buffer

theorem exists_worker {i : Nat} (hi : 1 ≤ i) (him : i ≤ maxClients) :
    ∃ w : Fin maxClients, i = w + 1 := ⟨⟨i - 1, by omega⟩, (Nat.sub_add_cancel hi).symm⟩

/-- The thread pool does what the `poll` server does. -/
structure Mirrors (server : PollServer.State) (pool : ThreadpoolServer.State maxClients) :
    Prop where
  acceptor : pool.acceptor = .accept
  queue : pool.queue.head = none
  trace : pool.trace = server.trace
  workers : ∀ w : Fin maxClients, pool.workers w = workerOf (server.conns (w + 1))

/-- The events of the thread pool that answer one of the `poll` server. -/
inductive Answers : Event threads → ThreadpoolLoad.Event maxClients threads → Prop
  | client (e : ClientEvent threads) : Answers (.client e) e.beside
  | read (rd : Except Errno (List UInt8)) (wr : Except Errno Nat) (w : Fin maxClients) :
      Answers (.server (.slot rd wr)) (.server (.read w rd))
  | other (e : ServerEvent) (e' : ThreadpoolServer.Event maxClients) :
      (∀ w, e' ≠ .spurious w) → (∀ w res, e' ≠ .read w res) →
      Answers (.server e) (.server e')

section Workers

variable {conn : Connection}

theorem workerOf_free (h : conn.fd < 0) : (workerOf conn).pc = .waiting := if_pos h

theorem workerOf_drained (hlive : 0 ≤ conn.fd) (h : conn.used = conn.sent) :
    (workerOf conn).pc = .reading conn.fd := by
  rw [workerOf, if_neg (Int.not_lt.mpr hlive), if_pos h]

theorem workerOf_full (hlive : 0 ≤ conn.fd) (h : conn.sent < conn.used) :
    (workerOf conn).pc = .writing conn.fd conn.used conn.sent := by
  rw [workerOf, if_neg (Int.not_lt.mpr hlive), if_neg (Nat.ne_of_gt h)]

theorem workerOf_eq {pc : ThreadpoolServer.WorkerPc} (h : (workerOf conn).pc = pc) :
    workerOf conn = ⟨pc, conn.buffer⟩ := by
  rw [← h]
  rfl

end Workers

variable {pool pool' : ThreadpoolServer.State maxClients}

/-- One worker goes on as one slot does. -/
theorem Mirrors.setSlot (h : Mirrors s.server pool) (w : Fin maxClients) (y : Slot)
    (pc : PollServer.Pc) :
    Mirrors { s.server.setSlot (w + 1) y with pc := pc }
      { pool with
        workers := Function.update pool.workers w (workerOf y.conn)
        trace := y.trace } where
  acceptor := h.acceptor
  queue := h.queue
  trace := rfl
  workers v := by
    show Function.update pool.workers w (workerOf y.conn) v =
      workerOf (Function.update s.server.conns (w + 1) y.conn (v + 1))
    by_cases hv : v = w
    · subst hv
      rw [Function.update_self, Function.update_self]
    · have hne : (v : Nat) + 1 ≠ w + 1 := fun heq => hv (Fin.ext (Nat.succ_inj.mp heq))
      rw [Function.update_of_ne hv, Function.update_of_ne hne, h.workers v]

/-! ## What the thread pool does for a slot -/

section Slot

variable {w : Fin maxClients} {fd : Int} {k : Conn threads} {y : Slot}
  {network : Network (Conn threads) toServer toClient}

/-- The worker reads what is read from the slot. -/
theorem Mirrors.read (h : Mirrors s.server pool) {bytes : List UInt8}
    {inbound : Channel UInt8 toServer} (wr : Except Errno Nat) (pc : PollServer.Pc)
    (hfd : (s.server.conns (w + 1)).fd = fd) (hlive : 0 ≤ fd)
    (hpeer : s.network.peer fd = some k)
    (hdrained : (s.server.conns (w + 1)).used = (s.server.conns (w + 1)).sent)
    (hbytes : 0 < bytes.length)
    (hpop : (s.network.inbound k).pop bytes.length = some (bytes, inbound))
    (hconn : y.conn = { s.server.conns (w + 1) with
      buffer := (s.server.conns (w + 1)).buffer.store bytes, used := bytes.length, sent := 0 })
    (htrace : y.trace = .read fd bufferSize (.ok bytes) :: s.server.trace)
    (hkernel : KernelOk setup.base y.trace)
    (hnetwork : network = { s.network with
      inbound := Function.update s.network.inbound k inbound }) :
    ∃ es pool', (ThreadpoolLoad.system setup maxClients toServer toClient).Run (s.beside pool)
        es (State.beside { s with network := network } pool') ∧
      Mirrors { s.server.setSlot (w + 1) y with pc := pc } pool' ∧
      (∀ e ∈ es, Answers (.server (.slot (.ok bytes) wr)) e) ∧ es ≠ [] := by
  subst hfd hnetwork
  have hworker := h.workers w
  rw [workerOf_eq (workerOf_drained hlive hdrained)] at hworker
  have hfilled : workerOf y.conn = ⟨.writing (s.server.conns (w + 1)).fd bytes.length 0,
      (s.server.conns (w + 1)).buffer.store bytes⟩ := by
    rw [hconn]
    exact workerOf_eq (by exact workerOf_full hlive hbytes)
  refine ⟨[.server (.read w (.ok bytes))], _, ?_, h.setSlot w y pc, ?_, List.cons_ne_nil _ _⟩
  · rw [hfilled, htrace, ← h.trace]
    refine .cons (ThreadpoolLoad.read_step hworker hpeer hbytes hpop ?_) (.nil _)
    rw [htrace] at hkernel
    show KernelOk setup.base (_ :: pool.trace)
    rw [h.trace]
    exact hkernel
  · intro e he
    rw [List.mem_singleton.mp he]
    exact .read (.ok bytes) wr w

/-- It closes what is closed there, and waits. -/
theorem Mirrors.eof (h : Mirrors s.server pool) (wr : Except Errno Nat) (pc : PollServer.Pc)
    (hfd : (s.server.conns (w + 1)).fd = fd) (hlive : 0 ≤ fd)
    (hpeer : s.network.peer fd = some k)
    (hdrained : (s.server.conns (w + 1)).used = (s.server.conns (w + 1)).sent)
    (hgone : s.clientSide.isOpen k = false) (hempty : (s.network.inbound k).length = 0)
    (hfree : y.conn.fd < 0) (hbuffer : y.conn.buffer = (s.server.conns (w + 1)).buffer)
    (htrace : y.trace = .close fd :: .read fd bufferSize (.ok []) :: s.server.trace)
    (hkernel : KernelOk setup.base y.trace)
    (hnetwork : network = { s.network with
      peer := Function.update s.network.peer fd none
      dropped := Function.update s.network.dropped k true }) :
    ∃ es pool', (ThreadpoolLoad.system setup maxClients toServer toClient).Run (s.beside pool)
        es (State.beside { s with network := network } pool') ∧
      Mirrors { s.server.setSlot (w + 1) y with pc := pc } pool' ∧
      (∀ e ∈ es, Answers (.server (.slot (.ok []) wr)) e) ∧ es ≠ [] := by
  subst hfd hnetwork
  have hworker := h.workers w
  rw [workerOf_eq (workerOf_drained hlive hdrained)] at hworker
  have hwaiting : workerOf y.conn = ⟨.waiting, (s.server.conns (w + 1)).buffer⟩ := by
    rw [← hbuffer]
    exact workerOf_eq (workerOf_free hfree)
  refine ⟨[.server (.read w (.ok [])), .server (.pop w)], _, ?_, h.setSlot w y pc, ?_,
    List.cons_ne_nil _ _⟩
  · rw [hwaiting, htrace, ← h.trace]
    refine ThreadpoolLoad.close_run hworker h.queue hpeer hgone hempty ?_
    rw [htrace] at hkernel
    show KernelOk setup.base pool.trace
    rw [h.trace]
    exact hkernel.2.2
  · intro e he
    rcases List.mem_cons.mp he with rfl | he
    · exact .read (.ok []) wr w
    · rw [List.mem_singleton.mp he]
      exact .other _ _ (by simp) (by simp)

/-- It writes what is written to the slot. -/
theorem Mirrors.write (h : Mirrors s.server pool) {n : Nat} {outbound : Channel UInt8 toClient}
    (rd : Except Errno (List UInt8)) (wr : Except Errno Nat) (pc : PollServer.Pc)
    (hslot : PollServer.SlotOk (s.server.slot (w + 1)))
    (hfd : (s.server.conns (w + 1)).fd = fd) (hlive : 0 ≤ fd)
    (hpeer : s.network.peer fd = some k)
    (hmore : (s.server.conns (w + 1)).sent < (s.server.conns (w + 1)).used) (hn : 0 < n)
    (hle : (s.server.conns (w + 1)).sent + n ≤ (s.server.conns (w + 1)).used)
    (hpush : (s.network.outbound k).push ((s.server.conns (w + 1)).pending.take n) =
      some outbound)
    (hconn : y.conn =
      if (s.server.conns (w + 1)).sent + n = (s.server.conns (w + 1)).used then
        { s.server.conns (w + 1) with used := 0, sent := 0 }
      else { s.server.conns (w + 1) with sent := (s.server.conns (w + 1)).sent + n })
    (htrace : y.trace = .write fd (s.server.conns (w + 1)).pending (.ok n) :: s.server.trace)
    (hkernel : KernelOk setup.base y.trace)
    (hnetwork : network = { s.network with
      outbound := Function.update s.network.outbound k outbound }) :
    ∃ es pool', (ThreadpoolLoad.system setup maxClients toServer toClient).Run (s.beside pool)
        es (State.beside { s with network := network } pool') ∧
      Mirrors { s.server.setSlot (w + 1) y with pc := pc } pool' ∧
      (∀ e ∈ es, Answers (.server (.slot rd wr)) e) ∧ es ≠ [] := by
  subst hfd hnetwork
  have hworker := h.workers w
  rw [workerOf_eq (workerOf_full hlive hmore)] at hworker
  have hafter : workerOf y.conn = ⟨if (s.server.conns (w + 1)).sent + n <
        (s.server.conns (w + 1)).used then
      .writing (s.server.conns (w + 1)).fd (s.server.conns (w + 1)).used
        ((s.server.conns (w + 1)).sent + n)
    else .reading (s.server.conns (w + 1)).fd, (s.server.conns (w + 1)).buffer⟩ := by
    by_cases hall : (s.server.conns (w + 1)).sent + n = (s.server.conns (w + 1)).used
    · rw [hconn, if_pos hall, if_neg (Nat.not_lt.mpr (Nat.le_of_eq hall.symm))]
      exact workerOf_eq (by exact workerOf_drained hlive rfl)
    · have hless : (s.server.conns (w + 1)).sent + n < (s.server.conns (w + 1)).used := by
        omega
      rw [hconn, if_neg hall, if_pos hless]
      exact workerOf_eq (by exact workerOf_full hlive hless)
  refine ⟨[.server (.write w (.ok n))], _, ?_, h.setSlot w y pc, ?_, List.cons_ne_nil _ _⟩
  · rw [hafter, htrace, ← h.trace]
    refine .cons (ThreadpoolLoad.write_step hworker hpeer hn hle
      (hslot.cursors hlive).2 hpush ?_) (.nil _)
    rw [htrace] at hkernel
    show KernelOk setup.base pool.trace
    rw [h.trace]
    exact hkernel.2
  · intro e he
    rw [List.mem_singleton.mp he]
    exact .other _ _ (by simp) (by simp)

end Slot

/-- The thread pool follows a slot that is passed. -/
theorem Passed.run (h : Mirrors s.server pool) {w : Fin maxClients}
    {rd : Except Errno (List UInt8)} (wr : Except Errno Nat) {y : Slot}
    {network : Network (Conn threads) toServer toClient}
    (hpassed : Passed s (w + 1) rd y network) (hslot : PollServer.SlotOk (s.server.slot (w + 1)))
    (hkernel : KernelOk setup.base y.trace) (pc : PollServer.Pc) :
    ∃ es pool', (ThreadpoolLoad.system setup maxClients toServer toClient).Run (s.beside pool)
        es (State.beside { s with network := network } pool') ∧
      Mirrors { s.server.setSlot (w + 1) y with pc := pc } pool' ∧
      (∀ e ∈ es, Answers (.server (.slot rd wr)) e) ∧
      (es = [] → (s.server.conns (w + 1)).fd < 0 ∨
        (s.server.pfds (w + 1)).revents = PollServer.noFlags) := by
  cases hpassed with
  | idle hskip hy hnetwork =>
      subst hy hnetwork
      refine ⟨[], pool, .nil _, ?_, fun e he => absurd he List.not_mem_nil, fun _ => hskip⟩
      rw [PollServer.setSlot_slot]
      exact ⟨h.acceptor, h.queue, h.trace, h.workers⟩
  | read fd k bytes inbound hrd hfd hlive hpeer hdrained _ hbytes hpop hy hnetwork =>
      subst hrd hy
      obtain ⟨es, pool', hrun, hmirrors, hanswers, hsome⟩ :=
        h.read wr pc hfd hlive hpeer hdrained hbytes hpop rfl rfl hkernel hnetwork
      exact ⟨es, pool', hrun, hmirrors, hanswers, fun hnil => absurd hnil hsome⟩
  | eof fd k hrd hfd hlive hpeer hdrained _ hgone hempty hy hnetwork =>
      subst hrd hfd hy
      obtain ⟨es, pool', hrun, hmirrors, hanswers, hsome⟩ :=
        h.eof wr pc rfl hlive hpeer hdrained hgone hempty (show (-1 : Int) < 0 by decide) rfl
          (if_pos hlive) hkernel hnetwork
      exact ⟨es, pool', hrun, hmirrors, hanswers, fun hnil => absurd hnil hsome⟩
  | write fd k n outbound hfd hlive hpeer hmore _ hn hle hpush hy hnetwork =>
      subst hy
      obtain ⟨es, pool', hrun, hmirrors, hanswers, hsome⟩ :=
        h.write rd wr pc hslot hfd hlive hpeer hmore hn hle hpush rfl rfl hkernel hnetwork
      exact ⟨es, pool', hrun, hmirrors, hanswers, fun hnil => absurd hnil hsome⟩

/-- A client that gets a slot is taken by the worker that stands for it. -/
theorem Mirrors.accept (h : Mirrors s.server pool) (hsound : Sound setup (s.beside pool))
    {fd : Int} {k : Conn threads} {rest : List (Conn threads)} {w : Fin maxClients}
    (hbacklog : s.network.backlog = k :: rest)
    (hkernel : KernelOk setup.base (.accept fd :: s.server.trace))
    (hfree : (s.server.conns (w + 1)).fd < 0) :
    ∃ es pool', (ThreadpoolLoad.system setup maxClients toServer toClient).Run (s.beside pool)
        es (State.beside { s with network := { s.network with
          backlog := rest
          peer := Function.update s.network.peer fd (some k) } } pool') ∧
      Mirrors (filled s.server (w + 1) fd) pool' ∧
      (∀ e ∈ es, Answers (.server (.accept fd)) e) ∧ es ≠ [] := by
  have hlive : 0 ≤ fd := hkernel.1.1
  have hworker := h.workers w
  rw [workerOf_eq (workerOf_free hfree)] at hworker
  have hwaiting : ((s.beside pool).server.workers w).pc = .waiting := by
    show (pool.workers w).pc = .waiting
    rw [hworker]
  obtain ⟨node, pool', hrun, hacceptor, hqueue, htrace, hworkers⟩ :=
    ThreadpoolLoad.handed_over hsound h.acceptor h.queue hwaiting hbacklog (by
      show KernelOk setup.base (.accept fd :: pool.trace)
      rw [h.trace]
      exact hkernel)
  refine ⟨_, pool', hrun, ⟨hacceptor, hqueue, ?_, fun v => ?_⟩, fun e he => ?_,
    List.cons_ne_nil _ _⟩
  · rw [htrace]
    exact congrArg (Call.accept fd :: ·) h.trace
  · show pool'.workers v = workerOf (Function.update s.server.conns (w + 1) _ (v + 1))
    rw [hworkers]
    by_cases hv : v = w
    · subst hv
      rw [Function.update_self, Function.update_self]
      have hnew : workerOf { s.server.conns (v + 1) with fd := fd, used := 0, sent := 0 } =
          ⟨.reading fd, (s.server.conns (v + 1)).buffer⟩ :=
        workerOf_eq (by exact workerOf_drained hlive rfl)
      rw [hnew]
      show ThreadpoolServer.Worker.mk _ (pool.workers v).buffer = _
      rw [hworker]
    · have hne : (v : Nat) + 1 ≠ w + 1 := fun heq => hv (Fin.ext (Nat.succ_inj.mp heq))
      rw [Function.update_of_ne hv, Function.update_of_ne hne]
      exact h.workers v
  · simp only [List.mem_cons, List.not_mem_nil, or_false] at he
    rcases he with rfl | rfl | rfl | rfl | rfl
    all_goals exact .other _ _ (by simp) (by simp)

theorem initial_mirrors (maxClients : Nat) (listenFd : Int) :
    Mirrors (PollServer.initial listenFd) (ThreadpoolLoad.asleep maxClients maxClients) where
  acceptor := rfl
  queue := rfl
  trace := rfl
  workers w := by
    have hfree : workerOf ((PollServer.initial listenFd).conns (w + 1)) =
        ⟨.waiting, .fill 4096 0⟩ :=
      workerOf_eq (by exact workerOf_free (show (-1 : Int) < 0 by decide))
    rw [hfree]
    exact congrArg (ThreadpoolServer.Worker.mk · _) (if_pos w.isLt)

/-! ## The clients -/

/-- A client thread goes on beside any server. -/
theorem step_beside {threadCount : Nat} (server : ThreadpoolServer.State threadCount)
    (e : ClientEvent threads) :
    ThreadpoolLoad.step setup (s.beside server) e.beside =
      (clientStep setup s e).map fun t => t.beside server := by
  rw [clientStep, Option.map_map]
  cases e with
  | connect i =>
      simp only [ClientEvent.beside, ThreadpoolLoad.step, State.clientSide, State.beside]
      cases (s.clients i).pc with
      | connecting bytes =>
        simp only [ThreadpoolLoad.connectStep, Option.map_map]
        rfl
      | connected w => rfl
      | returned w => rfl
  | write i n =>
      simp only [ClientEvent.beside, ThreadpoolLoad.step, State.clientSide, State.beside]
      split
      · split
        · unfold ThreadpoolLoad.writeStep
          split
          · simp only [Option.map_map]
            rfl
          · rfl
        · rfl
      · rfl
  | read i n =>
      simp only [ClientEvent.beside, ThreadpoolLoad.step, State.clientSide, State.beside]
      split
      · split
        · unfold ThreadpoolLoad.readStep
          split
          · simp only [Option.map_map]
            rfl
          · rfl
        · rfl
      · rfl
  | eof i =>
      simp only [ClientEvent.beside, ThreadpoolLoad.step, State.clientSide, State.beside]
      split
      · split
        · unfold ThreadpoolLoad.eofStep
          rw [apply_ite (Option.map _)]
          rfl
        · rfl
      · rfl
  | next i =>
      simp only [ClientEvent.beside, ThreadpoolLoad.step, State.clientSide, State.beside]
      split
      · split
        · rfl
        · rfl
      · rfl

theorem exists_clientStep {threadCount : Nat} {server : ThreadpoolServer.State threadCount}
    {e : ClientEvent threads} {u : ThreadpoolLoad.State threadCount threads toServer toClient}
    (h : ThreadpoolLoad.step setup (s.beside server) e.beside = some u) :
    ∃ t, clientStep setup s e = some t ∧ t.beside server = u := by
  rw [step_beside] at h
  exact Option.map_eq_some_iff.mp h

end SysLab.PartB.PollLoad
