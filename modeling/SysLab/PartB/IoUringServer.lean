import SysLab.Foundation.Buffer
import SysLab.Foundation.Transition
import SysLab.PartB.Syscall

/-!
# The `io_uring` server

A transcription of `io_uring_server.c`: requests and connections on the heap,
`make_request`, `submit_request`, `close_connection` and the completion loop,
together with the kernel's half of the two rings.

Pointers are addresses into two heaps.  `calloc` and `free` hand addresses out
and take them back as `accept` and `close` do with descriptors, so each heap is
observed through the same kind of transcript; a dereference of an address that
is not allocated ends in `Halt.undefined`.

The kernel completes operations whenever it likes, also between two
submissions of one pass through the loop, and posts each completion to the
completion queue, or to its overflow list when the queue is full.  A submission
hands exactly one entry to the kernel and the submission queue is empty again,
so the queue itself does not show.
-/

namespace SysLab.PartB.IoUringServer

open SysLab.Foundation

/-! ## Data -/

/-- `op_type_t`. -/
inductive OpType
  | accept
  | recv
  | send
  deriving DecidableEq, Repr

/-- `request_t`; `none` is `NULL`. -/
structure Request where
  type : OpType
  fd : Int
  conn : Option Nat
  deriving DecidableEq, Repr

/-- `connection_t`. -/
structure Connection where
  fd : Int
  length : Nat
  buffer : Buffer UInt8 bufferSize

/-- `struct io_uring_sqe`; `addr` is the connection whose buffer it names. -/
structure Sqe where
  userData : Nat
  opcode : OpType
  fd : Int
  addr : Option Nat
  len : Nat
  deriving DecidableEq, Repr

/-- `struct io_uring_cqe`, with the operation it completes. -/
structure Cqe where
  userData : Nat
  res : Int
  op : Sqe
  deriving DecidableEq, Repr

/-- The addresses of one heap, allocated and freed. -/
abbrev HeapLog := Transcript Nat Empty Empty

/-- Why the loop stopped: `die_errno`, or the use of a freed pointer. -/
inductive Halt
  | die (why : Exit)
  | undefined
  deriving DecidableEq, Repr

/-- Where the completion loop stands: at the top of the outer loop, at the test
of the inner one, or past the first submission of the `OP_ACCEPT` branch. -/
inductive Pc
  | outer
  | inner
  | accepted (req : Nat) (result : Int)
  deriving DecidableEq, Repr

/-- The server's memory and the kernel's: operations in flight, completions
posted and not handled, the number handled since `cq_head` was last published,
and the overflow list.  `halt` is set once the loop has stopped. -/
structure State where
  halt : Option Halt
  pc : Pc
  requests : Nat → Option Request
  conns : Nat → Option Connection
  inflight : List Sqe
  cq : List Cqe
  handled : Nat
  overflow : List Cqe
  requestLog : HeapLog
  connLog : HeapLog
  trace : Trace

/-! ## Requests and connections -/

/-- A request object is allocated and filled in. -/
def State.allocRequest (s : State) (a : Nat) (req : Request) : State :=
  { s with
    requests := Function.update s.requests a (some req)
    requestLog := .accept a :: s.requestLog }

/-- A connection object is allocated and filled in. -/
def State.allocConnection (s : State) (c : Nat) (k : Connection) : State :=
  { s with
    conns := Function.update s.conns c (some k)
    connLog := .accept c :: s.connLog }

/-- A connection object is written to. -/
def State.setConnection (s : State) (c : Nat) (k : Connection) : State :=
  { s with conns := Function.update s.conns c (some k) }

@[simp] theorem State.allocRequest_requests (s : State) (a : Nat)
    (req : Request) : (s.allocRequest a req).requests =
      Function.update s.requests a (some req) := rfl

@[simp] theorem State.allocConnection_conns (s : State) (c : Nat)
    (k : Connection) : (s.allocConnection c k).conns =
      Function.update s.conns c (some k) := rfl

@[simp] theorem State.setConnection_conns (s : State) (c : Nat)
    (k : Connection) : (s.setConnection c k).conns =
      Function.update s.conns c (some k) := rfl

/-- A call on a descriptor is made. -/
def State.called (s : State) (call : Syscall) : State :=
  { s with trace := call :: s.trace }

/-- `make_request`. -/
def makeRequest (s : State) (calloc : Option Nat) (type : OpType) (fd : Int)
    (conn : Option Nat) : Except Halt (Nat × State) :=
  match calloc with
  | none => .error (.die ⟨"calloc", .ENOMEM⟩)
  | some a =>
      .ok (a, s.allocRequest a ⟨type, fd, conn⟩)

/-- The entry `submit_request` fills in. -/
def fillSqe (conns : Nat → Option Connection) (a : Nat) (req : Request) :
    Option Sqe :=
  match req.type, req.conn with
  | .accept, _ => some ⟨a, .accept, req.fd, none, 0⟩
  | .recv, some c => (conns c).map fun _ => ⟨a, .recv, req.fd, some c, bufferSize⟩
  | .send, some c => (conns c).map fun k => ⟨a, .send, req.fd, some c, k.length⟩
  | _, none => none

/-- The kernel has taken an entry over. -/
def State.submitted (s : State) (sqe : Sqe) : State :=
  { s with inflight := sqe :: s.inflight }

/-- `submit_request`; `enter` is the error of `io_uring_enter`, if any. -/
def submitRequest (s : State) (a : Nat) (enter : Option Errno) :
    Except Halt State :=
  match (s.requests a).bind (fillSqe s.conns a) with
  | none => .error .undefined
  | some sqe =>
      match enter with
      | some e => .error (.die ⟨"io_uring_enter submit", e⟩)
      | none => .ok (s.submitted sqe)

/-- `submit_request(&ring, make_request(type, fd, conn))`. -/
def request (s : State) (calloc : Option Nat) (enter : Option Errno)
    (type : OpType) (fd : Int) (conn : Option Nat) : Except Halt State :=
  match makeRequest s calloc type fd conn with
  | .error h => .error h
  | .ok (a, t) => submitRequest t a enter

/-- `close_connection` on the connection `k` at address `c`. -/
def closeConnection (s : State) (c : Nat) (k : Connection) : State :=
  if 0 ≤ k.fd then
    (s.called (.close k.fd)).setConnection c { k with fd := -1, length := 0 }
  else s

/-- `free(conn)`. -/
def freeConnection (s : State) (c : Nat) : State :=
  { s with
    conns := Function.update s.conns c none
    connLog := .close c :: s.connLog }

@[simp] theorem freeConnection_conns (s : State) (c : Nat) :
    (freeConnection s c).conns = Function.update s.conns c none := rfl

/-- `free(req); ++head;` and back to the test of the inner loop. -/
def finish (s : State) (req : Nat) : State :=
  { s with
    pc := .inner
    requests := Function.update s.requests req none
    requestLog := .close req :: s.requestLog }

/-! ## The completion loop -/

/-- `connection_t` as `calloc` leaves it, with its descriptor set. -/
def newConnection (fd : Int) : Connection where
  fd := fd
  length := 0
  buffer := .fill bufferSize 0

/-- The `OP_ACCEPT` branch up to its first submission. -/
def handleAccept (listenFd : Int) (s : State) (req : Nat) (result : Int)
    (calloc : Option Nat) (enter : Option Errno) : Except Halt State :=
  match request s calloc enter .accept listenFd none with
  | .error h => .error h
  | .ok t => .ok { t with pc := .accepted req result }

/-- The rest of the `OP_ACCEPT` branch. -/
def connect (s : State) (req : Nat) (result : Int) (callocConn : Option Nat)
    (calloc : Option Nat) (enter : Option Errno) : Except Halt State :=
  if 0 ≤ result then
    match callocConn with
    | some c =>
        match request (s.allocConnection c (newConnection result)) calloc enter
            .recv result (some c) with
        | .error h => .error h
        | .ok u => .ok (finish u req)
    | none => .ok (finish (s.called (.close result)) req)
  else .ok (finish s req)

/-- The `OP_RECV` branch. -/
def handleRecv (s : State) (req c : Nat) (k : Connection) (result : Int)
    (calloc : Option Nat) (enter : Option Errno) : Except Halt State :=
  if result ≤ 0 then .ok (finish (freeConnection (closeConnection s c k) c) req)
  else
    match request (s.setConnection c { k with length := result.toNat }) calloc
        enter .send k.fd (some c) with
    | .error h => .error h
    | .ok u => .ok (finish u req)

/-- The `OP_SEND` branch. -/
def handleSend (s : State) (req c : Nat) (k : Connection) (result : Int)
    (calloc : Option Nat) (enter : Option Errno) : Except Halt State :=
  if result ≤ 0 then .ok (finish (freeConnection (closeConnection s c k) c) req)
  else
    match request s calloc enter .recv k.fd (some c) with
    | .error h => .error h
    | .ok u => .ok (finish u req)

/-- The body of the inner loop for one completion, taken off the queue. -/
def handle (listenFd : Int) (s : State) (cqe : Cqe) (calloc : Option Nat)
    (enter : Option Errno) : Except Halt State :=
  match s.requests cqe.userData with
  | none => .error .undefined
  | some req =>
      match req.type, req.conn with
      | .accept, _ =>
          handleAccept listenFd s cqe.userData cqe.res calloc enter
      | .recv, some c =>
          match s.conns c with
          | some k => handleRecv s cqe.userData c k cqe.res calloc enter
          | none => .error .undefined
      | .send, some c =>
          match s.conns c with
          | some k => handleSend s cqe.userData c k cqe.res calloc enter
          | none => .error .undefined
      | _, none => .error .undefined

/-! ## The kernel -/

/-- The outcome of an operation. -/
inductive Outcome
  | accept (res : Except Errno Int)
  | recv (res : Except Errno (List UInt8))
  | send (res : Except Errno Nat)

/-- The `res` of a failed operation, `-errno`; only its sign is ever looked
at. -/
def failed : Int := -1

/-- Is there room in the completion queue, and nothing ahead in the overflow
list? -/
def State.hasRoom (cqEntries : Nat) (s : State) : Prop :=
  s.cq.length + s.handled < cqEntries ∧ s.overflow = []

instance (cqEntries : Nat) (s : State) : Decidable (s.hasRoom cqEntries) :=
  inferInstanceAs (Decidable (_ ∧ _))

/-- Post a completion. -/
def post (cqEntries : Nat) (s : State) (cqe : Cqe) : State :=
  if s.hasRoom cqEntries then { s with cq := s.cq ++ [cqe] }
  else { s with overflow := s.overflow ++ [cqe] }

/-- What the operation does to memory and descriptors, and its `res`; `none`
when the outcome is not one of the operation. -/
def perform (s : State) (op : Sqe) : Outcome → Option (State × Int)
  | .accept (.ok fd) =>
      if op.opcode = .accept then
        some (s.called (.accept fd), fd)
      else none
  | .accept (.error _) => if op.opcode = .accept then some (s, failed) else none
  | .recv res =>
      if op.opcode = .recv then
        let t := s.called (.read op.fd op.len res)
        match op.addr, op.addr.bind s.conns, res with
        | some c, some k, .ok bytes =>
            some (t.setConnection c { k with buffer := k.buffer.store bytes },
              bytes.length)
        | _, _, .ok bytes => some (t, bytes.length)
        | _, _, .error _ => some (t, failed)
      else none
  | .send res =>
      if op.opcode = .send then
        let chunk := match op.addr.bind s.conns with
          | some k => k.buffer.window 0 op.len
          | none => []
        let t := s.called (.write op.fd chunk res)
        match res with
        | .ok n => some (t, n)
        | .error _ => some (t, failed)
      else none

/-- The `n`-th operation in flight is no longer that. -/
def State.takeUp (s : State) (n : Nat) : State :=
  { s with inflight := s.inflight.eraseIdx n }

/-- The kernel completes the `n`-th operation in flight. -/
def complete (cqEntries : Nat) (s : State) (n : Nat) (out : Outcome) :
    Option State :=
  match s.inflight[n]? with
  | none => none
  | some op =>
      match perform (s.takeUp n) op out with
      | some (t, res) => some (post cqEntries t ⟨op.userData, res, op⟩)
      | none => none

/-- The kernel moves a completion from the overflow list into the queue. -/
def flush (cqEntries : Nat) (s : State) : Option State :=
  match s.overflow with
  | [] => none
  | cqe :: rest =>
      if s.cq.length + s.handled < cqEntries then
        some { s with cq := s.cq ++ [cqe], overflow := rest }
      else none

/-! ## The whole -/

/-- The kernel's steps, and the server's with what `calloc` and
`io_uring_enter` answer.  `turn` is a test of one of the two loops that calls
nothing. -/
inductive Event
  | complete (n : Nat) (out : Outcome)
  | flush
  | wait (enter : Option Errno)
  | turn
  | handle (calloc : Option Nat) (enter : Option Errno)
  | connect (callocConn calloc : Option Nat) (enter : Option Errno)

/-- The completion at the head of the queue has been looked at; `rest` follow
it. -/
def State.popCqe (s : State) (rest : List Cqe) : State :=
  { s with cq := rest, handled := s.handled + 1 }

/-- A part of the loop that may end the process; the memory of a process that
has ended is left as it was. -/
def State.run (s : State) : Except Halt State → State
  | .ok t => t
  | .error h => { s with halt := some h }

/-- `io_uring_enter` waits for a completion. -/
def waitStep (s : State) : Option Errno → State
  | some e => { s with halt := some (.die ⟨"io_uring_enter wait", e⟩) }
  | none => s

/-- One step of the server or of the kernel while the process runs; `none` when
the event is not possible in this state. -/
def running (cqEntries : Nat) (listenFd : Int) (s : State) :
    Event → Option State
  | .complete n out => complete cqEntries s n out
  | .flush => flush cqEntries s
  | .wait enter =>
      if s.pc = .outer ∧ s.cq = [] then some (waitStep s enter) else none
  | .turn =>
      match s.pc, s.cq with
      | .outer, _ :: _ => some { s with pc := .inner }
      | .inner, [] => some { s with pc := .outer, handled := 0 }
      | _, _ => none
  | .handle calloc enter =>
      match s.pc, s.cq with
      | .inner, cqe :: rest =>
          some (s.run (handle listenFd (s.popCqe rest) cqe calloc enter))
      | _, _ => none
  | .connect callocConn calloc enter =>
      match s.pc with
      | .accepted req result =>
          some (s.run (connect s req result callocConn calloc enter))
      | _ => none

/-- A process that has ended takes no step. -/
def step (cqEntries : Nat) (listenFd : Int) (s : State) (e : Event) :
    Option State :=
  if s.halt = none then running cqEntries listenFd s e else none

/-- Nothing on the heaps, nothing submitted. -/
def blank : State where
  halt := none
  pc := .outer
  requests _ := none
  conns _ := none
  inflight := []
  cq := []
  handled := 0
  overflow := []
  requestLog := []
  connLog := []
  trace := []

/-- `calloc` hands out an address that is not allocated. -/
def FreshIn (log : HeapLog) (calloc : Option Nat) : Prop :=
  ∀ a ∈ calloc, a ∉ Transcript.openKeys ∅ log

instance (log : HeapLog) (calloc : Option Nat) : Decidable (FreshIn log calloc) :=
  inferInstanceAs (Decidable (∀ a ∈ calloc, _))

/-- What allocator and kernel promise: fresh addresses, and `EBUSY` only while
completions wait on the overflow list. -/
def Answer (s : State) : Event → Prop
  | .handle calloc enter =>
      FreshIn s.requestLog calloc ∧ (enter = some .EBUSY → s.overflow ≠ [])
  | .connect callocConn calloc enter =>
      FreshIn s.connLog callocConn ∧ FreshIn s.requestLog calloc ∧
        (enter = some .EBUSY → s.overflow ≠ [])
  | _ => True

instance (s : State) : (e : Event) → Decidable (Answer s e)
  | .complete _ _ => isTrue trivial
  | .flush => isTrue trivial
  | .wait _ => isTrue trivial
  | .turn => isTrue trivial
  | .handle _ _ => inferInstanceAs (Decidable (_ ∧ _))
  | .connect _ _ _ => inferInstanceAs (Decidable (_ ∧ _))

/-- The server with every kernel and allocator that keeps these promises.  The
first `OP_ACCEPT` has been submitted; `base` holds the descriptors open by
then. -/
def system (cqEntries : Nat) (base : Finset Int) (listenFd : Int) :
    System State Event where
  init s := ∃ a, request blank (some a) none .accept listenFd none = .ok s
  next s e t := step cqEntries listenFd s e = some t ∧
    KernelOk base t.trace ∧ Answer s e

/-- The state after the first submission, its request at address `a`. -/
def started (listenFd : Int) (a : Nat) : State :=
  (blank.allocRequest a ⟨.accept, listenFd, none⟩).submitted
    ⟨a, .accept, listenFd, none, 0⟩

theorem started_init (cqEntries : Nat) (base : Finset Int) (listenFd : Int)
    (a : Nat) : (system cqEntries base listenFd).init (started listenFd a) := by
  refine ⟨a, ?_⟩
  simp only [request, makeRequest, submitRequest, State.allocRequest_requests,
    Function.update_self, Option.bind_some, fillSqe]
  rfl

end SysLab.PartB.IoUringServer
