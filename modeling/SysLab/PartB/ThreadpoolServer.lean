import SysLab.Foundation.Buffer
import SysLab.Foundation.LinkedList
import SysLab.Foundation.Transition
import SysLab.PartB.FullTransfer

/-!
# The thread-pool server

A transcription of `threadpool_server.c`: the queue of clients with its nodes on
the heap, `queue_push` of the main thread, and `queue_pop` and the inner loop of
`worker_main` in each worker.

What a thread does between `pthread_mutex_lock` and `pthread_mutex_unlock`, or
`pthread_cond_wait`, is one step; so is every system call, `malloc`, and the
reading and freeing of a popped node.  A worker waits on the condition variable,
has been woken and must still take the mutex, or runs.  A step that would follow a
pointer to no allocated node is not defined (`none`).
-/

namespace SysLab.PartB.ThreadpoolServer

open SysLab.Foundation

/-! ## The queue -/

/-- `client_node_t`; a pointer is an address, `NULL` is `none`. -/
structure ClientNode where
  fd : Int
  next : Option Nat
  deriving DecidableEq, Repr

/-- The allocated nodes. -/
abbrev Heap := Nat → Option ClientNode

/-- `queue_t`, with the heap its nodes are on. -/
structure Queue where
  head : Option Nat
  tail : Option Nat
  heap : Heap

/-- The critical section of `queue_push`, but for the signal. -/
def Queue.link (q : Queue) (node : Nat) : Option Queue :=
  match q.tail with
  | none => some { q with head := some node, tail := some node }
  | some tail =>
      match q.heap tail with
      | none => none
      | some last =>
          some { q with
            heap := Function.update q.heap tail (some { last with next := some node })
            tail := some node }

/-- The critical section of `queue_pop` past the loop: the node taken. -/
def Queue.unlink (q : Queue) : Option (Nat × Queue) :=
  match q.head with
  | none => none
  | some node =>
      match q.heap node with
      | none => none
      | some first =>
          some (node, { q with
            head := first.next
            tail := if first.next = none then none else q.tail })

/-- `node->fd` of an allocated node, as a list of at most one. -/
def Queue.fdOf (q : Queue) (node : Nat) : List Int :=
  ((q.heap node).map ClientNode.fd).toList

/-! ## The threads -/

/-- Where the main thread stands: at `accept`, at `malloc`, or at the mutex with a
node to link. -/
inductive AcceptorPc
  | accept
  | malloc (fd : Int)
  | lock (node : Nat)
  deriving DecidableEq, Repr

/-- Where a worker stands: at the mutex, in `pthread_cond_wait`, woken from it, past
the mutex with a node, at `read`, or at the `write` of `write_full` with `done` of
`n` bytes written. -/
inductive WorkerPc
  | lock
  | waiting
  | woken
  | popped (node : Nat)
  | reading (fd : Int)
  | writing (fd : Int) (n done : Nat)
  deriving DecidableEq, Repr

/-- A worker with its stack buffer. -/
structure Worker where
  pc : WorkerPc
  buffer : Buffer UInt8 4096

/-- The process, the calls it has made, and what has been pushed, popped and
returned by `queue_pop` so far, the oldest first. -/
structure State (threadCount : Nat) where
  acceptor : AcceptorPc
  workers : Fin threadCount → Worker
  queue : Queue
  trace : Trace
  pushes : List Int
  pops : List (Fin threadCount × Int)
  returns : List (Fin threadCount × Int)

/-- A step of a thread, with what the kernel or `malloc` answers.  `push` carries
the workers that the signal wakes, `spurious` wakes one without a signal. -/
inductive Event (threadCount : Nat)
  | accept (res : Except Errno Int)
  | malloc (node : Option Nat)
  | push (wake : Finset (Fin threadCount))
  | pop (w : Fin threadCount)
  | spurious (w : Fin threadCount)
  | take (w : Fin threadCount)
  | read (w : Fin threadCount) (res : Except Errno (List UInt8))
  | write (w : Fin threadCount) (res : Except Errno Nat)

section Steps

variable {threadCount : Nat}

/-- A worker moves on. -/
def State.setPc (s : State threadCount) (w : Fin threadCount) (pc : WorkerPc) :
    State threadCount :=
  { s with workers := Function.update s.workers w { s.workers w with pc := pc } }

/-! ### The main thread -/

/-- `accept` returns; its errors are ignored. -/
def acceptStep (s : State threadCount) : Except Errno Int → State threadCount
  | .error _ => s
  | .ok fd => { s with acceptor := .malloc fd, trace := .accept fd :: s.trace }

/-- `malloc` returns; without memory the client is closed.  The node is filled in
before anybody else can see it. -/
def mallocStep (s : State threadCount) (fd : Int) : Option Nat → Option (State threadCount)
  | none => some { s with acceptor := .accept, trace := .close fd :: s.trace }
  | some node =>
      if s.queue.heap node = none then
        some { s with
          acceptor := .lock node
          queue := { s.queue with
            heap := Function.update s.queue.heap node (some ⟨fd, none⟩) } }
      else none

/-- `pthread_cond_signal` wakes at least one of the waiting workers, if there is
one. -/
structure State.Signals (s : State threadCount) (wake : Finset (Fin threadCount)) :
    Prop where
  waiting : ∀ w ∈ wake, (s.workers w).pc = .waiting
  nonempty : (∃ w, (s.workers w).pc = .waiting) → wake.Nonempty

instance (s : State threadCount) (wake : Finset (Fin threadCount)) :
    Decidable (s.Signals wake) :=
  decidable_of_iff ((∀ w ∈ wake, (s.workers w).pc = .waiting) ∧
    ((∃ w, (s.workers w).pc = .waiting) → wake.Nonempty))
    ⟨fun h => ⟨h.1, h.2⟩, fun h => ⟨h.waiting, h.nonempty⟩⟩

/-- The workers in `wake` leave `pthread_cond_wait`. -/
def wakeUp (workers : Fin threadCount → Worker) (wake : Finset (Fin threadCount))
    (w : Fin threadCount) : Worker :=
  if w ∈ wake then { workers w with pc := .woken } else workers w

/-- The critical section of `queue_push`. -/
def pushStep (s : State threadCount) (node : Nat) (wake : Finset (Fin threadCount)) :
    Option (State threadCount) :=
  if s.Signals wake then
    (s.queue.link node).map fun queue =>
      { s with
        acceptor := .accept
        workers := wakeUp s.workers wake
        queue := queue
        pushes := s.pushes ++ s.queue.fdOf node }
  else none

/-! ### A worker -/

/-- The critical section of `queue_pop`, from the test of the loop: the worker goes
to sleep or takes a node. -/
def popStep (s : State threadCount) (w : Fin threadCount) : Option (State threadCount) :=
  if s.queue.head = none then some (s.setPc w .waiting)
  else
    s.queue.unlink.map fun (node, queue) =>
      { s.setPc w (.popped node) with
        queue := queue
        pops := s.pops ++ (s.queue.fdOf node).map fun fd => (w, fd) }

/-- `fd = node->fd; free(node); return fd;`. -/
def takeStep (s : State threadCount) (w : Fin threadCount) (node : Nat) :
    Option (State threadCount) :=
  match s.queue.heap node with
  | none => none
  | some popped =>
      some { s.setPc w (.reading popped.fd) with
        queue := { s.queue with heap := Function.update s.queue.heap node none }
        returns := s.returns ++ [(w, popped.fd)] }

/-- `close(fd)`, and back to `queue_pop`. -/
def closeClient (s : State threadCount) (w : Fin threadCount) (fd : Int) :
    State threadCount :=
  { s.setPc w .lock with trace := .close fd :: s.trace }

/-- `read` returns. -/
def readStep (s : State threadCount) (w : Fin threadCount) (fd : Int)
    (res : Except Errno (List UInt8)) : State threadCount :=
  let t := { s with trace := .read fd 4096 res :: s.trace }
  match res with
  | .error e => if e = .EINTR then t else closeClient t w fd
  | .ok [] => closeClient t w fd
  | .ok (b :: bs) =>
      { t with
        workers := Function.update t.workers w
          ⟨.writing fd (b :: bs).length 0, (t.workers w).buffer.store (b :: bs)⟩ }

/-- The `write` in `write_full` returns. -/
def writeStep (s : State threadCount) (w : Fin threadCount) (fd : Int) (n done : Nat)
    (res : Except Errno Nat) : State threadCount :=
  let t := { s with
    trace := .write fd ((s.workers w).buffer.window done n) res :: s.trace }
  match writeFull n done res with
  | .running done' => t.setPc w (.writing fd n done')
  | .returned (.ok m) => if m = n then t.setPc w (.reading fd) else closeClient t w fd
  | .returned (.error _) => closeClient t w fd

/-! ### All of them -/

/-- The process, step by step; `none` when the thread is not at that point. -/
def step (s : State threadCount) : Event threadCount → Option (State threadCount)
  | .accept res =>
      match s.acceptor with
      | .accept => some (acceptStep s res)
      | _ => none
  | .malloc node =>
      match s.acceptor with
      | .malloc fd => mallocStep s fd node
      | _ => none
  | .push wake =>
      match s.acceptor with
      | .lock node => pushStep s node wake
      | _ => none
  | .pop w =>
      match (s.workers w).pc with
      | .lock => popStep s w
      | .woken => popStep s w
      | _ => none
  | .spurious w =>
      match (s.workers w).pc with
      | .waiting => some (s.setPc w .woken)
      | _ => none
  | .take w =>
      match (s.workers w).pc with
      | .popped node => takeStep s w node
      | _ => none
  | .read w res =>
      match (s.workers w).pc with
      | .reading fd => some (readStep s w fd res)
      | _ => none
  | .write w res =>
      match (s.workers w).pc with
      | .writing fd n done => some (writeStep s w fd n done res)
      | _ => none

/-- The workers have been created, and nobody has connected. -/
def initial (threadCount : Nat) : State threadCount where
  acceptor := .accept
  workers _ := ⟨.lock, .fill 4096 0⟩
  queue := ⟨none, none, fun _ => none⟩
  trace := []
  pushes := []
  pops := []
  returns := []

/-- The server among all kernels that keep their promises.  `base` holds the
descriptors open before the loop starts. -/
def system (threadCount : Nat) (base : Finset Int) :
    System (State threadCount) (Event threadCount) where
  init s := s = initial threadCount
  next s e t := step s e = some t ∧ KernelOk base t.trace

end Steps

end SysLab.PartB.ThreadpoolServer
