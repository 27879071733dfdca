import SysLab.Foundation.WorkQueue
import SysLab.PartB.ThreadpoolServer

/-!
# The hand-off queue of the thread-pool server

The linked list behind `queue_push` and `queue_pop` is a queue of descriptors, and
the server with it is a pool of workers as in `Foundation.WorkQueue`: the main
thread's hand holds a client between `accept` and the link, a worker is busy with a
client from the unlink to the `close`.
-/

namespace SysLab.PartB.ThreadpoolServer

open SysLab.Foundation
open Transcript (clients mem_clients Lawful accepts closes)
open WorkQueue (Stage Place)

/-! ## The linked list -/

/-- From `head` the list goes through `nodes`, which hold `fds`; `tail` is the last
of them. -/
structure Queue.Lists (q : Queue) (nodes : List Nat) (fds : List Int) : Prop where
  path : Path ClientNode.next q.heap q.head nodes
  tail : q.tail = nodes.getLast?
  fds : nodes.map q.fdOf = fds.map fun fd => [fd]

theorem Queue.fdOf_of_heap {q : Queue} {node : Nat} {nd : ClientNode}
    (h : q.heap node = some nd) : q.fdOf node = [nd.fd] := by
  rw [Queue.fdOf, h]
  rfl

theorem Queue.heap_of_fdOf {q : Queue} {node : Nat} {fd : Int} (h : q.fdOf node = [fd]) :
    ∃ nd, q.heap node = some nd ∧ nd.fd = fd := by
  rw [Queue.fdOf] at h
  cases hnode : q.heap node with
  | none =>
      rw [hnode] at h
      cases h
  | some nd =>
      rw [hnode] at h
      exact ⟨nd, rfl, List.singleton_inj.mp h⟩

/-- A node's descriptor is read off the heap at the node. -/
theorem Queue.fdOf_congr {q q' : Queue} {node : Nat} (h : q'.heap node = q.heap node) :
    q'.fdOf node = q.fdOf node := by
  rw [Queue.fdOf, h, Queue.fdOf]

namespace Queue.Lists

variable {q : Queue} {nodes : List Nat} {fds : List Int}

theorem flatMap_fdOf (h : q.Lists nodes fds) : nodes.flatMap q.fdOf = fds := by
  rw [List.flatMap_def, h.fds, ← List.flatMap_def]
  exact List.flatMap_singleton' fds

theorem fdOf_mem (h : q.Lists nodes fds) {node : Nat} (hnode : node ∈ nodes) :
    ∃ fd ∈ fds, q.fdOf node = [fd] := by
  have hmem : q.fdOf node ∈ fds.map fun fd => [fd] := by
    rw [← h.fds]
    exact List.mem_map_of_mem hnode
  obtain ⟨fd, hfd, heq⟩ := List.mem_map.mp hmem
  exact ⟨fd, hfd, heq.symm⟩

/-- Different descriptors are in different nodes. -/
theorem nodup (h : q.Lists nodes fds) (hnodup : fds.Nodup) : nodes.Nodup := by
  have hmap : (nodes.map q.fdOf).Nodup := by
    rw [h.fds]
    exact hnodup.map fun x y hxy => List.singleton_inj.mp hxy
  exact hmap.of_map

theorem nil_iff (h : q.Lists nodes fds) : nodes = [] ↔ fds = [] := by
  have hlength := congrArg List.length h.fds
  rw [List.length_map, List.length_map] at hlength
  rw [← List.length_eq_zero_iff, ← List.length_eq_zero_iff, hlength]

theorem length_eq (h : q.Lists nodes fds) : nodes.length = fds.length := by
  have hlength := congrArg List.length h.fds
  rwa [List.length_map, List.length_map] at hlength

theorem head_eq_none (h : q.Lists nodes fds) : q.head = none ↔ fds = [] :=
  h.path.head_eq_none.trans h.nil_iff

theorem tail_eq_none (h : q.Lists nodes fds) : q.tail = none ↔ fds = [] := by
  rw [h.tail, List.getLast?_eq_none_iff, h.nil_iff]

/-- The list does not notice what happens to other nodes. -/
theorem congr (h : q.Lists nodes fds) {heap : Heap}
    (hsame : ∀ node ∈ nodes, heap node = q.heap node) :
    { q with heap := heap }.Lists nodes fds where
  path := h.path.congr hsame
  tail := h.tail
  fds := by
    rw [← h.fds]
    exact List.map_congr_left fun node hnode => fdOf_congr (hsame node hnode)

/-- `queue_push` appends. -/
theorem link (h : q.Lists nodes fds) (hnodup : fds.Nodup) {node : Nat} {fd : Int}
    (hnode : q.heap node = some ⟨fd, none⟩) (hfresh : node ∉ nodes) :
    ∃ q', q.link node = some q' ∧ q'.Lists (nodes ++ [node]) (fds ++ [fd]) ∧
      ∀ n, q'.fdOf n = q.fdOf n := by
  have hlast : some node = (nodes ++ [node]).getLast? := List.getLast?_concat.symm
  cases htail : q.tail with
  | none =>
      have hfds := h.tail_eq_none.mp htail
      have hnodes := h.nil_iff.mpr hfds
      subst hfds
      subst hnodes
      refine ⟨{ q with head := some node, tail := some node }, ?_, ⟨?_, hlast, ?_⟩,
        fun n => rfl⟩
      · rw [Queue.link, htail]
      · exact ⟨rfl, _, hnode, rfl⟩
      · show [q.fdOf node] = [[fd]]
        rw [fdOf_of_heap hnode]
  | some tail =>
      have hlisted : nodes.getLast? = some tail := h.tail.symm.trans htail
      have hmem : tail ∈ nodes := List.mem_of_getLast? hlisted
      obtain ⟨last, hheap⟩ := h.path.allocated hmem
      have hfdOf : ∀ n, Queue.fdOf { q with
          heap := Function.update q.heap tail (some { last with next := some node })
          tail := some node } n = q.fdOf n := by
        intro n
        by_cases hn : n = tail
        · subst hn
          rw [fdOf_of_heap hheap, Queue.fdOf]
          dsimp only
          rw [Function.update_self]
          rfl
        · exact fdOf_congr (Function.update_of_ne hn _ _)
      refine ⟨_, ?_, ⟨?_, hlast, ?_⟩, hfdOf⟩
      · rw [Queue.link, htail]
        simp only [hheap]
      · exact h.path.snoc (h.nodup hnodup) hlisted hnode rfl hfresh rfl
      · rw [List.map_congr_left fun n _ => hfdOf n, List.map_append, List.map_append, h.fds,
          List.map_singleton, fdOf_of_heap hnode, List.map_singleton]

/-- `queue_pop` takes the first. -/
theorem unlink {fd : Int} (h : q.Lists nodes (fd :: fds)) :
    ∃ node rest q', nodes = node :: rest ∧ q.unlink = some (node, q') ∧
      q'.Lists rest fds ∧ q'.heap = q.heap ∧ q.fdOf node = [fd] := by
  cases nodes with
  | nil => cases h.nil_iff.mp rfl
  | cons node rest =>
      obtain ⟨hhead, first, hheap, hrest⟩ := h.path
      obtain ⟨hfd, hfds⟩ := List.cons.inj h.fds
      refine ⟨node, rest, { q with
        head := first.next
        tail := if first.next = none then none else q.tail }, rfl, ?_,
        ⟨hrest, ?_, hfds⟩, rfl, hfd⟩
      · rw [Queue.unlink, hhead]
        simp only [hheap]
      · show (if first.next = none then none else q.tail) = rest.getLast?
        cases rest with
        | nil => rw [if_pos (hrest.head_eq_none.mpr rfl), List.getLast?_nil]
        | cons next rest =>
            have hnext : first.next ≠ none := fun hnone => by
              cases hrest.head_eq_none.mp hnone
            rw [if_neg hnext, h.tail, List.getLast?_cons_cons]

end Queue.Lists

/-! ## What the process stands for -/

/-- What the main thread holds. -/
def HandOf (q : Queue) : AcceptorPc → Option Int → Prop
  | .accept, hand => hand = none
  | .malloc fd, hand => hand = some fd
  | .lock node, hand => ∃ fd, q.heap node = some ⟨fd, none⟩ ∧ hand = some fd

/-- What a worker does. -/
def StageOf (q : Queue) : WorkerPc → Stage Int → Prop
  | .lock, stage => stage = .idle
  | .waiting, stage => stage = .waiting
  | .woken, stage => stage = .woken
  | .popped node, stage => ∃ fd, q.fdOf node = [fd] ∧ stage = .busy fd
  | .reading fd, stage => stage = .busy fd
  | .writing fd _ _, stage => stage = .busy fd

/-- What `queue_pop` has taken and not returned yet. -/
def Queue.inFlight (q : Queue) : WorkerPc → List Int
  | .popped node => q.fdOf node
  | _ => []

section Represents

variable {threadCount : Nat}

/-- The entries of a log that are by worker `w`. -/
def byWorker (w : Fin threadCount) (log : List (Fin threadCount × Int)) : List Int :=
  (log.filter fun entry => entry.1 = w).map Prod.snd

theorem byWorker_snoc_self (w : Fin threadCount) (log : List (Fin threadCount × Int))
    (fd : Int) : byWorker w (log ++ [(w, fd)]) = byWorker w log ++ [fd] := by
  simp [byWorker]

theorem byWorker_snoc_of_ne {v w : Fin threadCount} (h : v ≠ w)
    (log : List (Fin threadCount × Int)) (fd : Int) :
    byWorker v (log ++ [(w, fd)]) = byWorker v log := by
  simp [byWorker, h.symm]

/-- The process is a pool of workers in the state `a`. -/
structure Represents (base : Finset Int) (s : State threadCount)
    (a : WorkQueue.State Int (Fin threadCount)) : Prop where
  hand : HandOf s.queue s.acceptor a.hand
  stage : ∀ w, StageOf s.queue (s.workers w).pc (a.stage w)
  queue : ∃ nodes, s.queue.Lists nodes a.queue
  pushed : s.pushes = a.pushed
  popped : s.pops = a.popped
  returned : ∀ w, byWorker w s.pops =
    byWorker w s.returns ++ s.queue.inFlight (s.workers w).pc
  lawful : Lawful base s.trace
  held : ∀ fd, fd ∈ clients base s.trace ↔ a.Held fd

variable {base : Finset Int} {s : State threadCount}
  {a : WorkQueue.State Int (Fin threadCount)} {q q' : Queue} {w : Fin threadCount}

/-! ### What the descriptors in the nodes decide -/

theorem StageOf.congr {pc : WorkerPc} {stage : Stage Int} (h : StageOf q pc stage)
    (hsame : ∀ node, pc = .popped node → q'.fdOf node = q.fdOf node) :
    StageOf q' pc stage := by
  cases pc with
  | lock => exact h
  | waiting => exact h
  | woken => exact h
  | popped node =>
      obtain ⟨fd, hfd, hstage⟩ := h
      exact ⟨fd, (hsame node rfl).trans hfd, hstage⟩
  | reading fd => exact h
  | writing fd n done => exact h

theorem inFlight_congr {pc : WorkerPc}
    (hsame : ∀ node, pc = .popped node → q'.fdOf node = q.fdOf node) :
    q'.inFlight pc = q.inFlight pc := by
  cases pc with
  | popped node => exact hsame node rfl
  | lock => rfl
  | waiting => rfl
  | woken => rfl
  | reading fd => rfl
  | writing fd n done => rfl

/-- One worker moves on. -/
theorem stage_update {workers : Fin threadCount → Worker}
    {stage : Fin threadCount → Stage Int} (h : ∀ v, StageOf q (workers v).pc (stage v))
    {worker : Worker} {st : Stage Int} (hw : StageOf q worker.pc st) (v : Fin threadCount) :
    StageOf q (Function.update workers w worker v).pc (Function.update stage w st v) := by
  by_cases hv : v = w
  · subst hv
    rw [Function.update_self, Function.update_self]
    exact hw
  · rw [Function.update_of_ne hv, Function.update_of_ne hv]
    exact h v

/-- A worker that gets no further in the pool. -/
theorem stage_update_same {workers : Fin threadCount → Worker}
    {stage : Fin threadCount → Stage Int} (h : ∀ v, StageOf q (workers v).pc (stage v))
    {worker : Worker} (hw : StageOf q worker.pc (stage w)) (v : Fin threadCount) :
    StageOf q (Function.update workers w worker v).pc (stage v) := by
  have hupdate := stage_update (w := w) h hw v
  rwa [Function.update_eq_self] at hupdate

theorem inFlight_update {workers : Fin threadCount → Worker} {worker : Worker}
    (hw : q.inFlight worker.pc = q.inFlight (workers w).pc) (v : Fin threadCount) :
    q.inFlight (Function.update workers w worker v).pc = q.inFlight (workers v).pc := by
  by_cases hv : v = w
  · subst hv
    rw [Function.update_self]
    exact hw
  · rw [Function.update_of_ne hv]

/-- The stages a worker can be in without a client. -/
theorem stageOf_waiting {pc : WorkerPc} : StageOf q pc .waiting ↔ pc = .waiting := by
  cases pc <;> simp [StageOf]

theorem stageOf_woken {pc : WorkerPc} : StageOf q pc .woken ↔ pc = .woken := by
  cases pc <;> simp [StageOf]

/-! ### Clients -/

theorem Represents.stage_at (h : Represents base s a) {pc : WorkerPc}
    (hpc : (s.workers w).pc = pc) : StageOf s.queue pc (a.stage w) := by
  rw [← hpc]
  exact h.stage w

theorem Represents.hand_at (h : Represents base s a) {pc : AcceptorPc}
    (hpc : s.acceptor = pc) : HandOf s.queue pc a.hand := by
  rw [← hpc]
  exact h.hand

/-- A step that neither brings in nor gives away a client. -/
theorem Represents.held_kept (h : Represents base s a) (hexcl : WorkQueue.Exclusive a)
    {m : WorkQueue.Move Int (Fin threadCount)} {b : WorkQueue.State Int (Fin threadCount)}
    (hstep : WorkQueue.Step a m b) (hdrops : ∀ fd, ¬ a.Drops m fd)
    (hgains : ∀ fd, ¬ m.Gains fd) (fd : Int) :
    fd ∈ clients base s.trace ↔ b.Held fd := by
  rw [hstep.held_iff hexcl, h.held, and_iff_left (hdrops fd), or_iff_left (hgains fd)]

/-- A client in somebody's hands is open. -/
theorem Represents.mem_clients_of_busy (h : Represents base s a) {fd : Int}
    (hbusy : a.stage w = .busy fd) : fd ∈ clients base s.trace :=
  (h.held fd).mpr ⟨.worker w, hbusy⟩

theorem Represents.read (h : Represents base s a) {fd : Int} (hbusy : a.stage w = .busy fd)
    (asked : Nat) (res : Except Errno (List UInt8)) :
    Represents base { s with trace := .read fd asked res :: s.trace } a :=
  { h with
    lawful := ⟨(mem_clients.mp (h.mem_clients_of_busy hbusy)).1, h.lawful⟩
    held := h.held }

theorem Represents.write (h : Represents base s a) {fd : Int} (hbusy : a.stage w = .busy fd)
    (chunk : List UInt8) (res : Except Errno Nat) :
    Represents base { s with trace := .write fd chunk res :: s.trace } a :=
  { h with
    lawful := ⟨(mem_clients.mp (h.mem_clients_of_busy hbusy)).1, h.lawful⟩
    held := h.held }

/-- A worker that goes on with its client. -/
theorem Represents.move (h : Represents base s a) {worker : Worker}
    (hstage : StageOf s.queue worker.pc (a.stage w))
    (hflight : s.queue.inFlight worker.pc = s.queue.inFlight (s.workers w).pc) :
    Represents base { s with workers := Function.update s.workers w worker } a :=
  { h with
    stage := stage_update_same h.stage hstage
    returned := fun v => by
      dsimp only
      rw [inFlight_update hflight]
      exact h.returned v }

/-- The trace of a closed client. -/
theorem lawful_close {trace : Trace} {fd : Int} (hl : Lawful base trace)
    (hfd : fd ∈ clients base trace) : Lawful base (.close fd :: trace) := by
  obtain ⟨hopen, hbase⟩ := mem_clients.mp hfd
  exact ⟨⟨hopen, hbase⟩, hl⟩

theorem Represents.closeClient (h : Represents base s a) (hexcl : WorkQueue.Exclusive a)
    {fd : Int} (hbusy : a.stage w = .busy fd)
    (hflight : s.queue.inFlight (s.workers w).pc = []) :
    ∃ m b, WorkQueue.Step a m b ∧ Represents base (closeClient s w fd) b := by
  have hstep := WorkQueue.Step.finish hbusy
  have hlock : s.queue.inFlight (Worker.mk .lock (s.workers w).buffer).pc =
      s.queue.inFlight (s.workers w).pc := hflight.symm
  refine ⟨.finish w, _, hstep, ?_⟩
  exact
    { hand := h.hand
      stage := stage_update h.stage rfl
      queue := h.queue
      pushed := h.pushed
      popped := h.popped
      returned := fun v => (h.returned v).trans
        (congrArg (byWorker v s.returns ++ ·) (inFlight_update hlock v).symm)
      lawful := lawful_close h.lawful (h.mem_clients_of_busy hbusy)
      held := fun x => by
        show x ∈ clients base (.close fd :: s.trace) ↔ _
        rw [hstep.held_iff hexcl, Transcript.clients_close, Finset.mem_erase, h.held]
        simp only [WorkQueue.State.Drops, WorkQueue.Move.Gains, hbusy]
        grind }

/-! ### The main thread -/

theorem Represents.accept (h : Represents base s a) (hexcl : WorkQueue.Exclusive a)
    (hpc : s.acceptor = .accept) {fd : Int} (hfresh : fd ∉ Transcript.openKeys base s.trace) :
    ∃ m b, WorkQueue.Step a m b ∧ Represents base (acceptStep s (.ok fd)) b := by
  have hhand : a.hand = none := h.hand_at hpc
  have hbase : fd ∉ base := fun hmem => hfresh (Lawful.base_subset h.lawful hmem)
  have hnew : ∀ p, ¬ a.Holds p fd := fun p hp =>
    hfresh (mem_clients.mp ((h.held fd).mpr ⟨p, hp⟩)).1
  have hstep := WorkQueue.Step.receive hhand hnew
  refine ⟨.receive fd, _, hstep, ?_⟩
  exact
    { hand := rfl
      stage := h.stage
      queue := h.queue
      pushed := h.pushed
      popped := h.popped
      returned := h.returned
      lawful := ⟨hfresh, h.lawful⟩
      held := fun x => by
        show x ∈ clients base (.accept fd :: s.trace) ↔ _
        rw [hstep.held_iff hexcl, Transcript.clients_accept hbase, Finset.mem_insert, h.held]
        simp only [WorkQueue.State.Drops, WorkQueue.Move.Gains]
        grind }

/-- Without memory the client is closed. -/
theorem Represents.refuse (h : Represents base s a) (hexcl : WorkQueue.Exclusive a) {fd : Int}
    (hpc : s.acceptor = .malloc fd) :
    ∃ m b, WorkQueue.Step a m b ∧
      Represents base { s with acceptor := .accept, trace := .close fd :: s.trace } b := by
  have hhand : a.hand = some fd := h.hand_at hpc
  have hstep := WorkQueue.Step.refuse hhand
  refine ⟨.refuse, _, hstep, ?_⟩
  exact
    { hand := rfl
      stage := h.stage
      queue := h.queue
      pushed := h.pushed
      popped := h.popped
      returned := h.returned
      lawful := lawful_close h.lawful ((h.held fd).mpr ⟨.hand, hhand⟩)
      held := fun x => by
        show x ∈ clients base (.close fd :: s.trace) ↔ _
        rw [hstep.held_iff hexcl, Transcript.clients_close, Finset.mem_erase, h.held]
        simp only [WorkQueue.State.Drops, WorkQueue.Move.Gains, hhand]
        grind }

/-- A new node holds what the main thread has in its hand. -/
theorem Represents.allocate (h : Represents base s a) {fd : Int} {node : Nat}
    (hpc : s.acceptor = .malloc fd) (hfresh : s.queue.heap node = none) :
    Represents base { s with
      acceptor := .lock node
      queue := { s.queue with
        heap := Function.update s.queue.heap node (some ⟨fd, none⟩) } } a := by
  have hsame : ∀ n, s.queue.heap n ≠ none →
      Function.update s.queue.heap node (some ⟨fd, none⟩) n = s.queue.heap n := by
    intro n hn
    refine Function.update_of_ne ?_ _ _
    rintro rfl
    exact hn hfresh
  have hpopped : ∀ v n, (s.workers v).pc = .popped n →
      Queue.fdOf { s.queue with
        heap := Function.update s.queue.heap node (some ⟨fd, none⟩) } n = s.queue.fdOf n := by
    intro v n hv
    obtain ⟨fd', hfd', _⟩ := h.stage_at hv
    obtain ⟨nd, hnd, _⟩ := Queue.heap_of_fdOf hfd'
    exact Queue.fdOf_congr (hsame n (by simp [hnd]))
  have hhand := h.hand_at hpc
  obtain ⟨nodes, hlists⟩ := h.queue
  exact
    { hand := ⟨fd, Function.update_self _ _ _, hhand⟩
      stage := fun v => (h.stage v).congr (hpopped v)
      queue := ⟨nodes, hlists.congr fun n hn => hsame n (by
        obtain ⟨nd, hnd⟩ := hlists.path.allocated hn
        simp [hnd])⟩
      pushed := h.pushed
      popped := h.popped
      returned := fun v => by
        rw [inFlight_congr (hpopped v)]
        exact h.returned v
      lawful := h.lawful
      held := h.held }

theorem Represents.waiting_iff (h : Represents base s a) (w : Fin threadCount) :
    a.stage w = .waiting ↔ (s.workers w).pc = .waiting := by
  constructor
  · intro hstage
    have hw := h.stage w
    rw [hstage] at hw
    exact stageOf_waiting.mp hw
  · exact fun hpc => h.stage_at hpc

theorem Represents.woken_iff (h : Represents base s a) (w : Fin threadCount) :
    a.stage w = .woken ↔ (s.workers w).pc = .woken := by
  constructor
  · intro hstage
    have hw := h.stage w
    rw [hstage] at hw
    exact stageOf_woken.mp hw
  · exact fun hpc => h.stage_at hpc

theorem Represents.signals (h : Represents base s a) {wake : Finset (Fin threadCount)}
    (hsignals : s.Signals wake) : a.Signals wake where
  waiting w hw := (h.waiting_iff w).mpr (hsignals.waiting w hw)
  nonempty := fun ⟨w, hw⟩ => hsignals.nonempty ⟨w, (h.waiting_iff w).mp hw⟩

/-- `queue_push` finds its tail allocated, and appends the client. -/
theorem Represents.push (h : Represents base s a) (hexcl : WorkQueue.Exclusive a)
    {node : Nat} (hpc : s.acceptor = .lock node) {wake : Finset (Fin threadCount)}
    (hsignals : s.Signals wake) :
    ∃ t, pushStep s node wake = some t ∧
      ∃ m b, WorkQueue.Step a m b ∧ Represents base t b := by
  obtain ⟨fd, hnode, hhand⟩ := h.hand_at hpc
  have hfd : s.queue.fdOf node = [fd] := Queue.fdOf_of_heap hnode
  obtain ⟨nodes, hlists⟩ := h.queue
  have hfresh : node ∉ nodes := by
    intro hmem
    obtain ⟨fd', hfd', heq⟩ := hlists.fdOf_mem hmem
    rw [hfd] at heq
    cases List.singleton_inj.mp heq
    cases hexcl.place .hand .queue fd hhand hfd'
  obtain ⟨q', hlink, hlists', hfdOf⟩ := hlists.link hexcl.nodup hnode hfresh
  have hstep := WorkQueue.Step.push hhand (h.signals hsignals)
  refine ⟨{ s with
    acceptor := .accept
    workers := wakeUp s.workers wake
    queue := q'
    pushes := s.pushes ++ s.queue.fdOf node }, ?_, .push wake, _, hstep, ?_⟩
  · rw [pushStep, if_pos hsignals, hlink]
    rfl
  · exact
      { hand := rfl
        stage := fun v => by
          refine StageOf.congr ?_ fun n _ => hfdOf n
          show StageOf s.queue (wakeUp s.workers wake v).pc (WorkQueue.rouse a.stage wake v)
          unfold wakeUp WorkQueue.rouse
          split
          · rfl
          · exact h.stage v
        queue := ⟨nodes ++ [node], hlists'⟩
        pushed := by
          dsimp only
          rw [h.pushed, hfd]
        popped := h.popped
        returned := fun v => by
          have hflight : q'.inFlight (wakeUp s.workers wake v).pc =
              s.queue.inFlight (s.workers v).pc := by
            rw [inFlight_congr fun n _ => hfdOf n]
            unfold wakeUp
            split
            · next hv =>
                rw [hsignals.waiting v hv]
                rfl
            · rfl
          dsimp only
          rw [hflight]
          exact h.returned v
        lawful := h.lawful
        held := h.held_kept hexcl hstep (fun _ => id) (fun _ => id) }

/-! ### A worker in `queue_pop` -/

/-- A worker without a client falls asleep or wakes. -/
theorem Represents.setPc (h : Represents base s a) (hexcl : WorkQueue.Exclusive a)
    {m : WorkQueue.Move Int (Fin threadCount)} {stage : Stage Int} {pc : WorkerPc}
    (hstep : WorkQueue.Step a m { a with stage := Function.update a.stage w stage })
    (hdrops : ∀ fd, ¬ a.Drops m fd) (hgains : ∀ fd, ¬ m.Gains fd)
    (hstage : StageOf s.queue pc stage)
    (hflight : s.queue.inFlight pc = s.queue.inFlight (s.workers w).pc) :
    Represents base (s.setPc w pc)
      { a with stage := Function.update a.stage w stage } := by
  have hworker : s.queue.inFlight (Worker.mk pc (s.workers w).buffer).pc =
      s.queue.inFlight (s.workers w).pc := hflight
  exact
    { hand := h.hand
      stage := stage_update h.stage hstage
      queue := h.queue
      pushed := h.pushed
      popped := h.popped
      returned := fun v => (h.returned v).trans
        (congrArg (byWorker v s.returns ++ ·) (inFlight_update hworker v).symm)
      lawful := h.lawful
      held := h.held_kept hexcl hstep hdrops hgains }

/-- With an empty queue the worker goes to sleep. -/
theorem Represents.sleep (h : Represents base s a) (hexcl : WorkQueue.Exclusive a)
    (hlooks : a.Looks w) (hflight : s.queue.inFlight (s.workers w).pc = [])
    (hhead : s.queue.head = none) :
    ∃ m b, WorkQueue.Step a m b ∧ Represents base (s.setPc w .waiting) b := by
  obtain ⟨nodes, hlists⟩ := h.queue
  have hstep := WorkQueue.Step.sleep hlooks (hlists.head_eq_none.mp hhead)
  exact ⟨_, _, hstep, h.setPc hexcl hstep (fun _ => id) (fun _ => id) rfl hflight.symm⟩

/-- Otherwise it finds its head allocated, and takes the first client. -/
theorem Represents.unlink (h : Represents base s a) (hexcl : WorkQueue.Exclusive a)
    (hlooks : a.Looks w) (hflight : s.queue.inFlight (s.workers w).pc = [])
    (hhead : s.queue.head ≠ none) :
    ∃ t, popStep s w = some t ∧ ∃ m b, WorkQueue.Step a m b ∧ Represents base t b := by
  obtain ⟨nodes, hlists⟩ := h.queue
  cases hqueue : a.queue with
  | nil => exact absurd (hlists.head_eq_none.mpr hqueue) hhead
  | cons fd fds =>
      rw [hqueue] at hlists
      obtain ⟨node, rest, q', rfl, hunlink, hlists', hheap, hfd⟩ := hlists.unlink
      have hfdOf : ∀ n, q'.fdOf n = s.queue.fdOf n := fun n =>
        Queue.fdOf_congr (congrFun hheap n)
      have hstep := WorkQueue.Step.take hlooks hqueue
      have hpopped : StageOf s.queue (Worker.mk (.popped node) (s.workers w).buffer).pc
          (.busy fd) := ⟨fd, hfd, rfl⟩
      refine ⟨{ s.setPc w (.popped node) with
        queue := q'
        pops := s.pops ++ (s.queue.fdOf node).map fun fd => (w, fd) }, ?_,
        .pop w, _, hstep, ?_⟩
      · rw [popStep, if_neg hhead, hunlink]
        rfl
      · exact
          { hand := by
              have hhand := h.hand
              show HandOf q' s.acceptor a.hand
              cases hpc : s.acceptor with
              | accept => rwa [hpc] at hhand
              | malloc fd => rwa [hpc] at hhand
              | lock node =>
                  rw [hpc] at hhand
                  rw [HandOf, hheap]
                  exact hhand
            stage := fun v => by
              refine StageOf.congr ?_ fun n _ => hfdOf n
              exact stage_update h.stage hpopped v
            queue := ⟨rest, hlists'⟩
            pushed := h.pushed
            popped := by
              dsimp only
              rw [h.popped, hfd]
              rfl
            returned := fun v => by
              show byWorker v (s.pops ++ (s.queue.fdOf node).map fun fd => (w, fd)) =
                byWorker v s.returns ++ q'.inFlight (Function.update s.workers w _ v).pc
              rw [inFlight_congr fun n _ => hfdOf n, hfd, List.map_singleton]
              by_cases hv : v = w
              · subst hv
                rw [byWorker_snoc_self, h.returned, hflight, List.append_nil,
                  Function.update_self, ← hfd]
                rfl
              · rw [byWorker_snoc_of_ne hv, Function.update_of_ne hv]
                exact h.returned v
            lawful := h.lawful
            held := h.held_kept hexcl hstep (fun _ => id) (fun _ => id) }

theorem Represents.spurious (h : Represents base s a) (hexcl : WorkQueue.Exclusive a)
    (hpc : (s.workers w).pc = .waiting) :
    ∃ m b, WorkQueue.Step a m b ∧ Represents base (s.setPc w .woken) b := by
  have hstep := WorkQueue.Step.rouse ((h.waiting_iff w).mpr hpc)
  have hwoken : s.queue.inFlight .woken = s.queue.inFlight (s.workers w).pc := by
    rw [hpc]
    rfl
  exact ⟨_, _, hstep, h.setPc hexcl hstep (fun _ => id) (fun _ => id) rfl hwoken⟩

/-- The popped node is allocated, and nobody else has it when it is freed. -/
theorem Represents.take (h : Represents base s a) (hexcl : WorkQueue.Exclusive a)
    {node : Nat} (hpc : (s.workers w).pc = .popped node) :
    ∃ t, takeStep s w node = some t ∧ Represents base t a := by
  obtain ⟨fd, hfd, hbusy⟩ := h.stage_at hpc
  obtain ⟨nd, hnd, rfl⟩ := Queue.heap_of_fdOf hfd
  have hsame : ∀ n, n ≠ node → Function.update s.queue.heap node none n = s.queue.heap n :=
    fun n hn => Function.update_of_ne hn _ _
  -- A node in another place holds another client.
  have hother : ∀ p n, p ≠ Place.worker w → (∃ fd, s.queue.fdOf n = [fd] ∧ a.Holds p fd) →
      n ≠ node := by
    rintro p n hp ⟨fd', hfd', hholds⟩ rfl
    rw [hfd] at hfd'
    cases List.singleton_inj.mp hfd'
    exact hp (hexcl.place p (.worker w) nd.fd hholds hbusy)
  have hpopped : ∀ v n, v ≠ w → (s.workers v).pc = .popped n →
      Queue.fdOf { s.queue with heap := Function.update s.queue.heap node none } n =
        s.queue.fdOf n := by
    intro v n hv hvpc
    refine Queue.fdOf_congr (hsame n (hother (.worker v) n ?_ (h.stage_at hvpc)))
    rintro ⟨⟩
    exact hv rfl
  obtain ⟨nodes, hlists⟩ := h.queue
  refine ⟨{ s.setPc w (.reading nd.fd) with
    queue := { s.queue with heap := Function.update s.queue.heap node none }
    returns := s.returns ++ [(w, nd.fd)] }, ?_, ?_⟩
  · rw [takeStep]
    simp only [hnd]
  · exact
      { hand := by
          have hhand := h.hand
          show HandOf _ s.acceptor a.hand
          cases hacc : s.acceptor with
          | accept => rwa [hacc] at hhand
          | malloc fd => rwa [hacc] at hhand
          | lock n =>
              rw [hacc] at hhand
              obtain ⟨fd', hn, hhand⟩ := hhand
              have hne : n ≠ node := hother .hand n (by simp)
                ⟨fd', Queue.fdOf_of_heap hn, hhand⟩
              exact ⟨fd', (hsame n hne).trans hn, hhand⟩
        stage := fun v => by
          show StageOf _ (Function.update s.workers w _ v).pc (a.stage v)
          by_cases hv : v = w
          · subst hv
            rw [Function.update_self]
            exact hbusy
          · rw [Function.update_of_ne hv]
            exact (h.stage v).congr fun n => hpopped v n hv
        queue := ⟨nodes, hlists.congr fun n hn => hsame n (hother .queue n (by simp) (by
          obtain ⟨fd', hmem, hfd'⟩ := hlists.fdOf_mem hn
          exact ⟨fd', hfd', hmem⟩))⟩
        pushed := h.pushed
        popped := h.popped
        returned := fun v => by
          show byWorker v s.pops = byWorker v (s.returns ++ [(w, nd.fd)]) ++
            Queue.inFlight _ (Function.update s.workers w _ v).pc
          by_cases hv : v = w
          · subst hv
            rw [byWorker_snoc_self, h.returned, hpc, Function.update_self]
            show _ ++ s.queue.fdOf node = _ ++ []
            rw [hfd, List.append_nil]
          · rw [byWorker_snoc_of_ne hv, Function.update_of_ne hv,
              inFlight_congr fun n => hpopped v n hv]
            exact h.returned v
        lawful := h.lawful
        held := h.held }

/-! ### Any step -/

/-- `queue_pop` from the test of its loop. -/
theorem Represents.pop (h : Represents base s a) (hexcl : WorkQueue.Exclusive a)
    (hpc : (s.workers w).pc = .lock ∨ (s.workers w).pc = .woken) :
    ∃ t, popStep s w = some t ∧ ∃ m b, WorkQueue.Step a m b ∧ Represents base t b := by
  have hlooks : a.Looks w := by
    rcases hpc with hpc | hpc
    · exact .inl (h.stage_at hpc)
    · exact .inr (h.stage_at hpc)
  have hflight : s.queue.inFlight (s.workers w).pc = [] := by
    rcases hpc with hpc | hpc
    · rw [hpc]
      rfl
    · rw [hpc]
      rfl
  by_cases hhead : s.queue.head = none
  · refine ⟨s.setPc w .waiting, ?_, h.sleep hexcl hlooks hflight hhead⟩
    rw [popStep, if_pos hhead]
  · exact h.unlink hexcl hlooks hflight hhead

theorem Represents.readStep (h : Represents base s a) (hexcl : WorkQueue.Exclusive a)
    {fd : Int} (hpc : (s.workers w).pc = .reading fd) (res : Except Errno (List UInt8)) :
    Represents base (readStep s w fd res) a ∨
      ∃ m b, WorkQueue.Step a m b ∧ Represents base (readStep s w fd res) b := by
  have hbusy : a.stage w = .busy fd := h.stage_at hpc
  have hflight : s.queue.inFlight (s.workers w).pc = [] := by
    rw [hpc]
    rfl
  have hread := h.read hbusy 4096 res
  rcases res with e | bytes
  · rw [ThreadpoolServer.readStep]
    split
    · exact .inl hread
    · exact .inr (hread.closeClient hexcl hbusy hflight)
  · cases bytes with
    | nil => exact .inr (hread.closeClient hexcl hbusy hflight)
    | cons b bs =>
        refine .inl (hread.move hbusy ?_)
        exact hflight.symm

theorem Represents.writeStep (h : Represents base s a) (hexcl : WorkQueue.Exclusive a)
    {fd : Int} {n done : Nat} (hpc : (s.workers w).pc = .writing fd n done)
    (res : Except Errno Nat) :
    Represents base (writeStep s w fd n done res) a ∨
      ∃ m b, WorkQueue.Step a m b ∧ Represents base (writeStep s w fd n done res) b := by
  have hbusy : a.stage w = .busy fd := h.stage_at hpc
  have hflight : s.queue.inFlight (s.workers w).pc = [] := by
    rw [hpc]
    rfl
  have hwrite := h.write hbusy ((s.workers w).buffer.window done n) res
  rw [ThreadpoolServer.writeStep]
  split
  · exact .inl (hwrite.move hbusy hflight.symm)
  · split
    · exact .inl (hwrite.move hbusy hflight.symm)
    · exact .inr (hwrite.closeClient hexcl hbusy hflight)
  · exact .inr (hwrite.closeClient hexcl hbusy hflight)

/-- Every step of the process is one of the pool, or none. -/
theorem Represents.step (h : Represents base s a) (hexcl : WorkQueue.Exclusive a)
    {e : Event threadCount} {t : State threadCount} (hstep : step s e = some t)
    (hkernel : KernelOk base t.trace) :
    Represents base t a ∨ ∃ m b, WorkQueue.Step a m b ∧ Represents base t b := by
  cases e with
  | accept res =>
      simp only [ThreadpoolServer.step] at hstep
      split at hstep
      · next hpc =>
          cases hstep
          rcases res with e | fd
          · exact .inl h
          · exact .inr (h.accept hexcl hpc hkernel.1.2)
      · cases hstep
  | malloc node =>
      simp only [ThreadpoolServer.step] at hstep
      split at hstep
      · next fd hpc =>
          cases node with
          | none =>
              cases hstep
              exact .inr (h.refuse hexcl hpc)
          | some node =>
              simp only [mallocStep] at hstep
              split at hstep
              · next hfresh =>
                  cases hstep
                  exact .inl (h.allocate hpc hfresh)
              · cases hstep
      · cases hstep
  | push wake =>
      simp only [ThreadpoolServer.step] at hstep
      split at hstep
      · next node hpc =>
          by_cases hsignals : s.Signals wake
          · obtain ⟨t', ht', hmatch⟩ := h.push hexcl hpc hsignals
            rw [ht'] at hstep
            cases hstep
            exact .inr hmatch
          · rw [pushStep, if_neg hsignals] at hstep
            cases hstep
      · cases hstep
  | pop w =>
      simp only [ThreadpoolServer.step] at hstep
      split at hstep
      · next hpc =>
          obtain ⟨t', ht', hmatch⟩ := h.pop hexcl (.inl hpc)
          rw [ht'] at hstep
          cases hstep
          exact .inr hmatch
      · next hpc =>
          obtain ⟨t', ht', hmatch⟩ := h.pop hexcl (.inr hpc)
          rw [ht'] at hstep
          cases hstep
          exact .inr hmatch
      · cases hstep
  | spurious w =>
      simp only [ThreadpoolServer.step] at hstep
      split at hstep
      · next hpc =>
          cases hstep
          exact .inr (h.spurious hexcl hpc)
      · cases hstep
  | take w =>
      simp only [ThreadpoolServer.step] at hstep
      split at hstep
      · next node hpc =>
          obtain ⟨t', ht', hsame⟩ := h.take hexcl hpc
          rw [ht'] at hstep
          cases hstep
          exact .inl hsame
      · cases hstep
  | read w res =>
      simp only [ThreadpoolServer.step] at hstep
      split at hstep
      · next fd hpc =>
          cases hstep
          exact h.readStep hexcl hpc res
      · cases hstep
  | write w res =>
      simp only [ThreadpoolServer.step] at hstep
      split at hstep
      · next fd n done hpc =>
          cases hstep
          exact h.writeStep hexcl hpc res
      · cases hstep

theorem represents_initial (base : Finset Int) :
    Represents base (initial threadCount) WorkQueue.start where
  hand := rfl
  stage _ := rfl
  queue := ⟨[], rfl, rfl, rfl⟩
  pushed := rfl
  popped := rfl
  returned _ := rfl
  lawful := trivial
  held fd := by
    rw [WorkQueue.held_iff]
    simp [initial, WorkQueue.start, Transcript.clients_nil]

/-- The server is a pool of workers. -/
theorem simulates_workQueue (threadCount : Nat) (base : Finset Int) :
    System.Simulation (system threadCount base)
      (WorkQueue.system Int (Fin threadCount)) (Represents base) where
  init := by
    rintro s rfl
    exact ⟨_, rfl, represents_initial base⟩
  step s a e t ha h hnext := h.step (WorkQueue.reachable_exclusive ha) hnext.1 hnext.2

/-! ## Handing off -/

/-- The client the main thread has accepted and not linked yet. -/
def Queue.accepted (q : Queue) : AcceptorPc → List Int
  | .accept => []
  | .malloc fd => [fd]
  | .lock node => q.fdOf node

/-- The client a worker has taken and not closed yet. -/
def Queue.serving (q : Queue) : WorkerPc → List Int
  | .popped node => q.fdOf node
  | .reading fd => [fd]
  | .writing fd _ _ => [fd]
  | _ => []

/-- A client is in the main thread's hands, in a node of the list, or with a
worker. -/
def State.Keeps (s : State threadCount) (nodes : List Nat) :
    Place (Fin threadCount) → Int → Prop
  | .hand, fd => fd ∈ s.queue.accepted s.acceptor
  | .queue, fd => fd ∈ nodes.flatMap s.queue.fdOf
  | .worker w, fd => fd ∈ s.queue.serving (s.workers w).pc

theorem HandOf.mem_accepted {pc : AcceptorPc} {hand : Option Int} (h : HandOf q pc hand)
    (fd : Int) : fd ∈ q.accepted pc ↔ hand = some fd := by
  cases pc with
  | accept =>
      have hnone : hand = none := h
      simp [Queue.accepted, hnone]
  | malloc fd' =>
      have hsome : hand = some fd' := h
      simp [Queue.accepted, hsome, eq_comm]
  | lock node =>
      obtain ⟨fd', hnode, hsome⟩ := h
      simp [Queue.accepted, Queue.fdOf_of_heap hnode, hsome, eq_comm]

theorem StageOf.mem_serving {pc : WorkerPc} {stage : Stage Int} (h : StageOf q pc stage)
    (fd : Int) : fd ∈ q.serving pc ↔ stage = .busy fd := by
  cases pc with
  | lock =>
      have hstage : stage = .idle := h
      simp [Queue.serving, hstage]
  | waiting =>
      have hstage : stage = .waiting := h
      simp [Queue.serving, hstage]
  | woken =>
      have hstage : stage = .woken := h
      simp [Queue.serving, hstage]
  | popped node =>
      obtain ⟨fd', hnode, hstage⟩ := h
      simp [Queue.serving, hnode, hstage, eq_comm]
  | reading fd' =>
      have hstage : stage = .busy fd' := h
      simp [Queue.serving, hstage, eq_comm]
  | writing fd' n done =>
      have hstage : stage = .busy fd' := h
      simp [Queue.serving, hstage, eq_comm]

/-- A place of the process is that place of the pool. -/
theorem Represents.keeps_iff (h : Represents base s a) {nodes : List Nat}
    (hlists : s.queue.Lists nodes a.queue) (p : Place (Fin threadCount)) (fd : Int) :
    s.Keeps nodes p fd ↔ a.Holds p fd := by
  cases p with
  | hand => exact h.hand.mem_accepted fd
  | queue =>
      rw [State.Keeps, hlists.flatMap_fdOf]
      rfl
  | worker w => exact (h.stage w).mem_serving fd

/-- The list from `head` is what has been pushed and not popped, in that order, and
each worker is returned what it pops.  A client accepted and not closed is in one
place, there only once, and another descriptor is in none; nothing is closed twice. -/
theorem clients_handed_off (hs : (system threadCount base).Reachable s) :
    ∃ nodes,
      Path ClientNode.next s.queue.heap s.queue.head nodes ∧
      s.queue.tail = nodes.getLast? ∧
      (s.queue.head = none ↔ s.queue.tail = none) ∧
      s.pushes = s.pops.map Prod.snd ++ nodes.flatMap s.queue.fdOf ∧
      (∀ w, byWorker w s.pops =
        byWorker w s.returns ++ s.queue.inFlight (s.workers w).pc) ∧
      (nodes.flatMap s.queue.fdOf).Nodup ∧
      (∀ fd, fd ∈ clients base s.trace → ∃! p, s.Keeps nodes p fd) ∧
      (∀ fd, fd ∉ clients base s.trace → ∀ p, ¬ s.Keeps nodes p fd) ∧
      Lawful base s.trace ∧
      ∀ fd, fd ∉ base → accepts fd s.trace =
        closes fd s.trace + if fd ∈ clients base s.trace then 1 else 0 := by
  obtain ⟨a, ha, h⟩ := (simulates_workQueue threadCount base).reachable hs
  have hexcl := WorkQueue.reachable_exclusive ha
  have hfifo := WorkQueue.reachable_fifo ha
  obtain ⟨nodes, hlists⟩ := h.queue
  refine ⟨nodes, hlists.path, hlists.tail, hlists.head_eq_none.trans hlists.tail_eq_none.symm,
    ?_, h.returned, ?_, ?_, ?_, h.lawful, ?_⟩
  · rw [h.pushed, h.popped, hlists.flatMap_fdOf]
    exact hfifo
  · rw [hlists.flatMap_fdOf]
    exact hexcl.nodup
  · intro fd hfd
    obtain ⟨p, hp⟩ := (h.held fd).mp hfd
    refine ⟨p, (h.keeps_iff hlists p fd).mpr hp, fun p' hp' => ?_⟩
    exact hexcl.place p' p fd ((h.keeps_iff hlists p' fd).mp hp') hp
  · intro fd hfd p hp
    exact hfd ((h.held fd).mpr ⟨p, (h.keeps_iff hlists p fd).mp hp⟩)
  · intro fd hfd
    have hopen : fd ∈ clients base s.trace ↔ fd ∈ Transcript.openKeys base s.trace := by
      rw [mem_clients]
      exact and_iff_left hfd
    simp only [hopen]
    exact Lawful.accepts_eq h.lawful hfd

/-- One worker has taken its client and not read the node. -/
theorem clients_handed_off_popped :
    ∃ s : State 1, (s.workers 0).pc = .popped 7 ∧
      ∃ nodes, Path ClientNode.next s.queue.heap s.queue.head nodes ∧
        ∃! p, s.Keeps nodes p 4 := by
  have h₀ : (system 1 ∅).Reachable (initial 1) := .start rfl
  have h₁ := h₀.step (e := .accept (.ok 4)) ⟨rfl, by decide⟩
  have h₂ := h₁.step (e := .malloc (some 7)) ⟨rfl, by decide⟩
  have h₃ := h₂.step (e := .push ∅) ⟨rfl, by decide⟩
  have h₄ := h₃.step (e := .pop 0) ⟨rfl, by decide⟩
  obtain ⟨nodes, hpath, _, _, _, _, _, hplace, _⟩ := clients_handed_off h₄
  exact ⟨_, rfl, nodes, hpath, hplace 4 (by decide)⟩

/-- Until `queue_push` has linked it, a client is neither queued nor with a worker. -/
theorem accepted_not_handed_off :
    ¬ ∀ s : State 1, (system 1 ∅).Reachable s → ∀ nodes,
      Path ClientNode.next s.queue.heap s.queue.head nodes →
      ∀ fd ∈ clients ∅ s.trace,
        s.Keeps nodes .queue fd ∨ ∃ w, s.Keeps nodes (.worker w) fd := by
  intro hall
  have h₀ : (system 1 ∅).Reachable (initial 1) := .start rfl
  have h₁ := h₀.step (e := .accept (.ok 4)) ⟨rfl, by decide⟩
  rcases hall _ h₁ [] rfl 4 (by decide) with hqueue | ⟨w, hworker⟩
  · cases hqueue
  · cases hworker

/-! ## Waking up -/

/-- The workers woken that have not taken the mutex yet. -/
def State.wokenWorkers (s : State threadCount) : Finset (Fin threadCount) :=
  Finset.univ.filter fun w => (s.workers w).pc = .woken

theorem Represents.wokenWorkers_eq (h : Represents base s a) :
    s.wokenWorkers = a.wokenWorkers := by
  ext w
  rw [WorkQueue.mem_wokenWorkers, h.woken_iff, State.wokenWorkers, Finset.mem_filter]
  exact and_iff_right (Finset.mem_univ w)

/-- While a worker waits, as many have been woken as there are clients queued; with
none woken the queue is empty. -/
theorem no_lost_wakeup (hs : (system threadCount base).Reachable s)
    (hwaiting : ∃ w, (s.workers w).pc = .waiting) :
    ∃ nodes, Path ClientNode.next s.queue.heap s.queue.head nodes ∧
      nodes.length ≤ s.wokenWorkers.card ∧
      ((∀ w, (s.workers w).pc ≠ .woken) → s.queue.head = none) := by
  obtain ⟨a, ha, h⟩ := (simulates_workQueue threadCount base).reachable hs
  obtain ⟨nodes, hlists⟩ := h.queue
  obtain ⟨w, hw⟩ := hwaiting
  have hawake : nodes.length ≤ s.wokenWorkers.card := by
    rw [h.wokenWorkers_eq, hlists.length_eq]
    exact WorkQueue.reachable_awake ha ⟨w, (h.waiting_iff w).mpr hw⟩
  refine ⟨nodes, hlists.path, hawake, fun hnone => ?_⟩
  have hempty : s.wokenWorkers = ∅ := Finset.filter_eq_empty_iff.mpr fun v _ => hnone v
  rw [hempty, Finset.card_empty, Nat.le_zero, List.length_eq_zero_iff] at hawake
  exact hlists.path.head_eq_none.mpr hawake

/-- Of two sleepers one has been woken for the client that has come. -/
theorem no_lost_wakeup_two :
    ∃ s : State 2, (s.workers 0).pc = .waiting ∧ (s.workers 1).pc = .woken ∧
      ∃ nodes, Path ClientNode.next s.queue.heap s.queue.head nodes ∧
        nodes.length ≤ s.wokenWorkers.card := by
  have h₀ : (system 2 ∅).Reachable (initial 2) := .start rfl
  have h₁ := h₀.step (e := .pop 0) ⟨rfl, by decide⟩
  have h₂ := h₁.step (e := .pop 1) ⟨rfl, by decide⟩
  have h₃ := h₂.step (e := .accept (.ok 4)) ⟨rfl, by decide⟩
  have h₄ := h₃.step (e := .malloc (some 7)) ⟨rfl, by decide⟩
  have h₅ := h₄.step (e := .push {1}) ⟨rfl, by decide⟩
  obtain ⟨nodes, hpath, hlength, _⟩ := no_lost_wakeup h₅ ⟨0, rfl⟩
  exact ⟨_, rfl, rfl, nodes, hpath, hlength⟩

end Represents

end SysLab.PartB.ThreadpoolServer
