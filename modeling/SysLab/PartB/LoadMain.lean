import SysLab.Foundation.Transition
import SysLab.PartB.LoadClient
import SysLab.PartB.LoadOptions

/-!
# The load client

`main` of `load_client.c` past its arguments, with the threads it creates: they share
the array `latencies`, and their steps are interleaved in any order.  The clock
readings are left out but for the latency that is stored, and so is what `main` prints
except for the index of the P99 latency.

What an `int` computation gives is a parameter: in the C program the behaviour is
undefined if the result does not fit in 32 bits; `exact` computes with all integers.
-/

namespace SysLab.PartB.LoadClient

open SysLab.Foundation

/-! ## `int` -/

/-- The value of an `int` computation with this mathematical result, `none` where the
behaviour is undefined, and whether `calloc` may have room for so many elements of a
size. -/
structure Arithmetic where
  int : Int → Option Int
  allocates : Int → Nat → Bool

/-- A 32-bit `int` and a 64-bit `size_t`, to which the count is converted. -/
def machine : Arithmetic where
  int z := if IsInt z then some z else none
  allocates count size := decide (count % 2 ^ 64 * size < 2 ^ 64)

/-- All integers, and memory without end. -/
def exact : Arithmetic where
  int := some
  allocates _ _ := true

/-- `sizeof(uint64_t)`. -/
def sizeofLatency : Nat := 8

/-- `sizeof(pthread_t)`. -/
def sizeofPthread : Nat := 8

/-- `sizeof(worker_arg_t)`. -/
def sizeofWorkerArg : Nat := 56

/-! ## State -/

/-- Undefined behaviour. -/
inductive Undefined
  | overflow
  | divideByZero
  | outOfBounds
  deriving DecidableEq, Repr

/-- Where `main` is: before the arrays are allocated; in the loop that creates the
threads, or in the one that joins them; past it; or past the choice of the P99 index.
The process has ended in `die` or `die_errno`, or its behaviour is undefined. -/
inductive MainPc
  | start
  | creating (i : Nat) (offset : Int)
  | joining (i : Nat) (totalBytes : Nat)
  | joined (totalBytes : Nat)
  | reported (totalBytes : Nat) (p99Index : Int)
  | exited (message : String)
  | undefined (why : Undefined)
  deriving DecidableEq, Repr

/-- The `int` variables of `main`. -/
structure Locals where
  threads : Int
  totalRequests : Int
  baseConnections : Int
  extra : Int
  deriving DecidableEq, Repr

/-- What `worker_main` reads of its `worker_arg_t`, and the thread that runs it. -/
structure WorkerArg where
  connections : Int
  latencyOffset : Int
  thread : Thread

/-- The process.  `stores` says which thread has stored into which element of
`latencies`, the last store first. -/
structure State where
  pc : MainPc
  locals : Locals
  latencies : List UInt64
  workers : List WorkerArg
  stores : List (Nat × Nat)

def initialState : State where
  pc := .start
  locals := ⟨0, 0, 0, 0⟩
  latencies := []
  workers := []
  stores := []

/-- The process runs. -/
def State.running (s : State) : Bool :=
  match s.pc with
  | .reported .. => false
  | .exited _ => false
  | .undefined _ => false
  | _ => true

def State.goto (s : State) (pc : MainPc) : State := { s with pc := pc }

section Main

variable (a : Arithmetic) (opts : Options)

/-- The threads' view of the options. -/
def Options.config : Config where
  payloadSize := opts.payloadSize
  requestsPerConnection := opts.requestsPerConnection.toNat

/-! ## `main` -/

/-- The test of the loop that creates the threads. -/
def createTest (threads : Int) (i : Nat) (offset : Int) : MainPc :=
  if i < threads then .creating i offset
  else if 0 < threads then .joining 0 0
  else .joined 0

/-- The test of the loop that joins them. -/
def joinTest (threads : Int) (i totalBytes : Nat) : MainPc :=
  if i < threads then .joining i totalBytes else .joined totalBytes

/-- `threads`, after the comparison with `connections`. -/
def threadCount : Int :=
  if opts.connections < opts.threads then opts.connections else opts.threads

/-- From the product of the options to the first test of the loop; `ok` if every
`calloc` has returned an array. -/
def allocate (ok : Bool) (s : State) : Option State :=
  let threads := threadCount opts
  match a.int (opts.connections * opts.requestsPerConnection) with
  | none => some (s.goto (.undefined .overflow))
  | some total =>
      if ok then
        if a.allocates total sizeofLatency ∧ a.allocates threads sizeofPthread ∧
            a.allocates threads sizeofWorkerArg then
          if threads = 0 then some (s.goto (.undefined .divideByZero))
          else
            match a.int (opts.connections.tdiv threads) with
            | none => some (s.goto (.undefined .overflow))
            | some base =>
                some { s with
                  pc := createTest threads 0 0
                  locals := {
                    threads := threads
                    totalRequests := total
                    baseConnections := base
                    extra := opts.connections.tmod threads }
                  latencies := List.replicate total.toNat 0 }
        else none
      else some (s.goto (.exited "calloc"))

/-- The values that a pass of the loop computes: `conn_count`, `latency_offset` and
the new `offset`. -/
def connCounts (locals : Locals) (i : Nat) (offset : Int) : Option (Int × Int × Int) :=
  (a.int (locals.baseConnections + if (i : Int) < locals.extra then 1 else 0)).bind
    fun connCount =>
      (a.int (offset * opts.requestsPerConnection)).bind fun latencyOffset =>
        (a.int (offset + connCount)).map fun offset' => (connCount, latencyOffset, offset')

/-- A pass of the loop that creates the threads; `ok` is the success of
`pthread_create`. -/
def create (ok : Bool) (s : State) : Option State :=
  match s.pc with
  | .creating i offset =>
      match connCounts a opts s.locals i offset with
      | none => some (s.goto (.undefined .overflow))
      | some (connCount, latencyOffset, offset') =>
          if ok then
            some { s with
              pc := createTest s.locals.threads (i + 1) offset'
              workers := s.workers ++ [{
                connections := connCount
                latencyOffset := latencyOffset
                thread := .loopTest connCount.toNat 0 0 }] }
          else some (s.goto (.exited "pthread_create failed"))
  | _ => none

/-- `pthread_join` returns: the thread has ended. -/
def join (s : State) : Option State :=
  match s.pc with
  | .joining i totalBytes =>
      match s.workers[i]? with
      | none => none
      | some arg =>
          match arg.thread.pc with
          | .returned bytesCompleted =>
              some (s.goto (joinTest s.locals.threads (i + 1)
                ((totalBytes + bytesCompleted) % 2 ^ 64)))
          | _ => none
  | _ => none

/-- `latencies[(size_t) (total_requests * 99 / 100)]`. -/
def report (s : State) : Option State :=
  match s.pc with
  | .joined totalBytes =>
      match a.int (s.locals.totalRequests * 99) with
      | none => some (s.goto (.undefined .overflow))
      | some product =>
          if 0 ≤ product.tdiv 100 ∧ product.tdiv 100 < s.latencies.length then
            some (s.goto (.reported totalBytes (product.tdiv 100)))
          else some (s.goto (.undefined .outOfBounds))
  | _ => none

/-! ## The threads -/

/-- A thread goes on. -/
def State.setThread (s : State) (i : Nat) (arg : WorkerArg) (thread : Thread) : State :=
  { s with workers := s.workers.set i { arg with thread := thread } }

/-- The thread is connected, with what has become of the request; or it has ended the
process. -/
def State.resume (s : State) (i : Nat) (arg : WorkerArg) (w : Worker) : State :=
  match w.pc with
  | .died message => s.goto (.exited message)
  | _ => s.setThread i arg { arg.thread with pc := .connected w }

/-- `latency_offset + conn_index * requests_per_connection + req`. -/
def latencyIndex (arg : WorkerArg) (req : Nat) : Option Int :=
  (a.int (arg.thread.connIndex * opts.requestsPerConnection)).bind fun row =>
    (a.int (arg.latencyOffset + row)).bind fun row => a.int (row + req)

/-- The store of a latency. -/
def State.store (s : State) (i : Nat) (arg : WorkerArg) (req : Nat) (latency : UInt64) :
    State :=
  match latencyIndex a opts arg req with
  | none => s.goto (.undefined .overflow)
  | some index =>
      if 0 ≤ index ∧ index < s.latencies.length then
        { s with
          latencies := s.latencies.set index.toNat latency
          stores := (i, index.toNat) :: s.stores }
      else s.goto (.undefined .outOfBounds)

/-- `connect_to_server` returns, or it or `malloc` before it has ended the process. -/
def connect (i : Nat) (arg : WorkerArg) (res : Except String Unit) (s : State) :
    Option State :=
  match arg.thread.pc, res with
  | .connecting _, .error message => some (s.goto (.exited message))
  | .connecting bytesCompleted, .ok () =>
      some (s.setThread i arg { arg.thread with
        pc := .connected (.start opts.config bytesCompleted) })
  | _, _ => none

/-- The `write` in `write_full` answers. -/
def write (i : Nat) (arg : WorkerArg) (res : Except Errno Nat) (s : State) :
    Option State :=
  match arg.thread.pc with
  | .connected w =>
      match w.pc with
      | .writeFull done =>
          if ∀ n ∈ res.toOption, done + n ≤ opts.payloadSize then
            some (s.resume i arg (w.wrote opts.config done res))
          else none
      | _ => none
  | _ => none

/-- The `read` in `read_full` answers; if the request is complete by that, its
`latency` is stored. -/
def read (i : Nat) (arg : WorkerArg) (res : Except Errno (List UInt8))
    (latency : UInt64) (s : State) : Option State :=
  match arg.thread.pc with
  | .connected w =>
      match w.pc with
      | .readFull done =>
          if ∀ bytes ∈ res.toOption, done + bytes.length ≤ opts.payloadSize then
            let w' := w.received opts.config done res
            if w.req < w'.req then
              some ((s.resume i arg w').store a opts i arg w.req latency)
            else some (s.resume i arg w')
          else none
      | _ => none
  | _ => none

/-- `close(fd)`, and the test of the loop over the connections. -/
def next (i : Nat) (arg : WorkerArg) (s : State) : Option State :=
  match arg.thread.pc with
  | .connected w =>
      match w.pc with
      | .closed =>
          some (s.setThread i arg
            (.loopTest arg.connections.toNat (arg.thread.connIndex + 1) w.bytesCompleted))
      | _ => none
  | _ => none

/-! ## All of them -/

/-- A step of `main`, or of thread `i`. -/
inductive Event
  | allocate (ok : Bool)
  | create (ok : Bool)
  | join
  | report
  | connect (i : Nat) (res : Except String Unit)
  | write (i : Nat) (res : Except Errno Nat)
  | read (i : Nat) (res : Except Errno (List UInt8)) (latency : UInt64)
  | next (i : Nat)

/-- A step of thread `i`, if it has been created and the process runs. -/
def State.withWorker (s : State) (i : Nat) (f : WorkerArg → State → Option State) :
    Option State :=
  if s.running then s.workers[i]?.bind fun arg => f arg s else none

def step (s : State) : Event → Option State
  | .allocate ok => if s.pc = .start then allocate a opts ok s else none
  | .create ok => create a opts ok s
  | .join => join s
  | .report => report a s
  | .connect i res => s.withWorker i fun arg => connect opts i arg res
  | .write i res => s.withWorker i fun arg => write opts i arg res
  | .read i res latency => s.withWorker i fun arg => read a opts i arg res latency
  | .next i => s.withWorker i fun arg => next i arg

/-- The runs of the load client. -/
def system : System State Event where
  init s := s = initialState
  next s e t := step a opts s e = some t

end Main

end SysLab.PartB.LoadClient
