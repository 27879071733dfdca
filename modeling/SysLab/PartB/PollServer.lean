import SysLab.Foundation.Buffer
import SysLab.Foundation.SlotTable
import SysLab.Foundation.Transition
import SysLab.PartB.Syscall

/-!
# The `poll` server

A transcription of `poll_server.c`: the connection table with its parallel
array of `struct pollfd`, the helpers `close_connection` and `add_connection`,
and the three parts of the event loop (`poll`, the accept loop, the scan of the
slots).

`step` takes the server from one system call, or one slot of the scan, to the
next; what the kernel answers is carried by the event.  `system` closes the
server with every kernel that keeps the promises of `KernelOk`: any accepts,
any readiness flags, any read and write results.
-/

namespace SysLab.PartB.PollServer

open SysLab.Foundation

/-! ## Data -/

/-- The bits of `events` and `revents` the server uses. -/
structure PollFlags where
  pollin : Bool := false
  pollout : Bool := false
  pollerr : Bool := false
  pollhup : Bool := false
  pollnval : Bool := false
  deriving DecidableEq, Repr

/-- `0`, as the sources write into `events` and `revents`. -/
def noFlags : PollFlags := {}

/-- `POLLIN`. -/
def POLLIN : PollFlags := { pollin := true }

/-- `POLLOUT`. -/
def POLLOUT : PollFlags := { pollout := true }

/-- `revents & (POLLERR | POLLHUP | POLLNVAL)`. -/
def PollFlags.broken (f : PollFlags) : Bool :=
  f.pollerr || f.pollhup || f.pollnval

/-- `struct pollfd`. -/
structure Pollfd where
  fd : Int
  events : PollFlags
  revents : PollFlags

/-- `connection_t`. -/
structure Connection where
  fd : Int
  used : Nat
  sent : Nat
  buffer : Buffer UInt8 bufferSize

/-- `buffer[sent .. used)`: what was read and is still to be written. -/
def Connection.pending (conn : Connection) : List UInt8 :=
  conn.buffer.window conn.sent conn.used

/-- One index of the two parallel arrays, with the calls made so far. -/
structure Slot where
  pfd : Pollfd
  conn : Connection
  trace : Trace

/-- `close_connection`. -/
def closeConnection (x : Slot) : Slot where
  pfd := { fd := -1, events := noFlags, revents := noFlags }
  conn := { x.conn with fd := -1, used := 0, sent := 0 }
  trace := if 0 ≤ x.conn.fd then .close x.conn.fd :: x.trace else x.trace

/-- `add_connection`; `none` is the return value `-1`. -/
def addConnection (pfds : Nat → Pollfd) (conns : Nat → Connection)
    (capacity : Nat) (fd : Int) :
    Option ((Nat → Pollfd) × (Nat → Connection)) :=
  match firstFree (fun i => (conns i).fd < 0) 1 capacity with
  | some i =>
      some
        (Function.update pfds i
          { fd := fd, events := POLLIN, revents := noFlags },
         Function.update conns i { conns i with fd := fd, used := 0, sent := 0 })
  | none => none

/-! ## One slot of the scan -/

/-- How a branch of the scan's body leaves it: on to the statement after it,
or to the next slot by `continue`. -/
inductive Flow
  | fallThrough
  | continueScan

/-- The read branch: entered on `POLLIN` with an empty buffer. -/
def readBranch (x : Slot) (rd : Except Errno (List UInt8)) : Flow × Slot :=
  if x.pfd.revents.pollin = true ∧ x.conn.used = x.conn.sent then
    let y := { x with trace := .read x.conn.fd bufferSize rd :: x.trace }
    match rd with
    | .error e =>
        if e.wouldBlock then (.continueScan, y)
        else (.continueScan, closeConnection y)
    | .ok [] => (.continueScan, closeConnection y)
    | .ok (b :: bs) =>
        (.fallThrough,
          { y with
            conn := { y.conn with
              buffer := y.conn.buffer.store (b :: bs)
              used := (b :: bs).length
              sent := 0 }
            pfd := { y.pfd with events := POLLOUT } })
  else (.fallThrough, x)

/-- The write branch: entered on `POLLOUT` with bytes left to send. -/
def writeBranch (x : Slot) (wr : Except Errno Nat) : Slot :=
  if x.pfd.revents.pollout = true ∧ x.conn.sent < x.conn.used then
    let y := { x with trace := .write x.conn.fd x.conn.pending wr :: x.trace }
    match wr with
    | .error e => if e.wouldBlock then y else closeConnection y
    | .ok 0 => closeConnection y
    | .ok (n + 1) =>
        if x.conn.sent + (n + 1) = x.conn.used then
          { y with
            conn := { y.conn with used := 0, sent := 0 }
            pfd := { y.pfd with events := POLLIN } }
        else { y with conn := { y.conn with sent := x.conn.sent + (n + 1) } }
  else x

/-- The body of the slot scan.  `rd` and `wr` are what `read` and `write`
return if the body gets to call them. -/
def serveSlot (x : Slot) (rd : Except Errno (List UInt8))
    (wr : Except Errno Nat) : Slot :=
  if x.conn.fd < 0 ∨ x.pfd.revents = noFlags then x
  else if x.pfd.revents.broken then closeConnection x
  else
    match readBranch x rd with
    | (.continueScan, y) => y
    | (.fallThrough, y) => writeBranch y wr

/-! ## The event loop -/

/-- Where the event loop stands. -/
inductive Pc
  | poll
  | accept
  | scan (i : Nat)
  | exited (why : Exit)
  deriving DecidableEq, Repr

/-- The server's memory and the calls it has made. -/
structure State where
  pc : Pc
  pfds : Nat → Pollfd
  conns : Nat → Connection
  trace : Trace

/-- Index `i` of the two arrays. -/
def State.slot (s : State) (i : Nat) : Slot := ⟨s.pfds i, s.conns i, s.trace⟩

/-- Store a slot back under index `i`. -/
def State.setSlot (s : State) (i : Nat) (x : Slot) : State :=
  { s with
    pfds := Function.update s.pfds i x.pfd
    conns := Function.update s.conns i x.conn
    trace := x.trace }

/-- What the kernel answers to the call the loop is at.  `slot` answers for
both calls that one slot of the scan may make. -/
inductive Event
  | poll (res : Except Errno (Nat → PollFlags))
  | accept (res : Except Errno Int)
  | slot (rd : Except Errno (List UInt8)) (wr : Except Errno Nat)

/-- The `for` loop over the slots, at index `i`. -/
def scanFrom (maxClients i : Nat) : Pc :=
  if i ≤ maxClients then .scan i else .poll

/-- `poll` returns: the kernel has written every `revents`. -/
def pollStep (maxClients : Nat) (s : State)
    (res : Except Errno (Nat → PollFlags)) : State :=
  match res with
  | .error e => if e = .EINTR then s else { s with pc := .exited ⟨"poll", e⟩ }
  | .ok revents =>
      { s with
        pfds := fun i => { s.pfds i with revents := revents i }
        pc := if (revents 0).pollin then .accept else scanFrom maxClients 1 }

/-- One round of the accept loop. -/
def acceptStep (maxClients : Nat) (base : Finset Int) (s : State)
    (res : Except Errno Int) : State :=
  match res with
  | .error e =>
      if e.wouldBlock then { s with pc := scanFrom maxClients 1 }
      else if e = .EINTR then s
      else { s with pc := .exited ⟨"accept", e⟩ }
  | .ok clientFd =>
      let t := { s with trace := .accept clientFd :: s.trace }
      match setNonblocking (Transcript.openKeys base t.trace) clientFd with
      | some why => { t with pc := .exited why }
      | none =>
          match addConnection t.pfds t.conns maxClients clientFd with
          | some (pfds, conns) => { t with pfds := pfds, conns := conns }
          | none => { t with trace := .close clientFd :: t.trace }

/-- One slot of the scan. -/
def scanStep (maxClients : Nat) (s : State) (i : Nat)
    (rd : Except Errno (List UInt8)) (wr : Except Errno Nat) : State :=
  { s.setSlot i (serveSlot (s.slot i) rd wr) with
    pc := scanFrom maxClients (i + 1) }

/-- The event loop, call by call; `none` when the event does not answer the
call the loop is at. -/
def step (maxClients : Nat) (base : Finset Int) (s : State) :
    Event → Option State
  | .poll res => if s.pc = .poll then some (pollStep maxClients s res) else none
  | .accept res =>
      if s.pc = .accept then some (acceptStep maxClients base s res) else none
  | .slot rd wr =>
      match s.pc with
      | .scan i => some (scanStep maxClients s i rd wr)
      | _ => none

section Inversion

variable {maxClients : Nat} {base : Finset Int} {s t : State}

/-- `poll` is called at the head of the loop only. -/
theorem step_poll {res : Except Errno (Nat → PollFlags)}
    (h : step maxClients base s (.poll res) = some t) :
    s.pc = .poll ∧ t = pollStep maxClients s res := by
  simp only [step] at h
  split at h
  · rename_i hpc
    exact ⟨hpc, (Option.some.inj h).symm⟩
  · cases h

theorem step_accept {res : Except Errno Int}
    (h : step maxClients base s (.accept res) = some t) :
    s.pc = .accept ∧ t = acceptStep maxClients base s res := by
  simp only [step] at h
  split at h
  · rename_i hpc
    exact ⟨hpc, (Option.some.inj h).symm⟩
  · cases h

theorem step_slot {rd : Except Errno (List UInt8)} {wr : Except Errno Nat}
    (h : step maxClients base s (.slot rd wr) = some t) :
    ∃ i, s.pc = .scan i ∧ t = scanStep maxClients s i rd wr := by
  simp only [step] at h
  split at h
  · rename_i i hpc
    exact ⟨i, hpc, (Option.some.inj h).symm⟩
  · cases h

end Inversion

/-- `connection_t` as `calloc` leaves it. -/
def zeroConnection : Connection where
  fd := 0
  used := 0
  sent := 0
  buffer := .fill bufferSize 0

/-- The arrays as the set-up code leaves them: entry `0` watches the listener,
entries `1 .. max_clients` are free. -/
def initial (listenFd : Int) : State where
  pc := .poll
  pfds i :=
    if i = 0 then { fd := listenFd, events := POLLIN, revents := noFlags }
    else { fd := -1, events := noFlags, revents := noFlags }
  conns i := if i = 0 then zeroConnection else { zeroConnection with fd := -1 }
  trace := []

/-- The server among all kernels that keep their promises.  `base` holds the
descriptors open before the loop starts, `listen_fd` among them. -/
def system (maxClients : Nat) (base : Finset Int) (listenFd : Int) :
    System State Event where
  init s := s = initial listenFd
  next s e t := step maxClients base s e = some t ∧ KernelOk base t.trace

end SysLab.PartB.PollServer
