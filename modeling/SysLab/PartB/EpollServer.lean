import SysLab.Foundation.Buffer
import SysLab.Foundation.SlotTable
import SysLab.Foundation.Transition
import SysLab.PartB.Syscall

/-!
# The `epoll` server

A transcription of `epoll_server.c`: the connection table, the helpers
`close_connection`, `arm_connection` and `allocate_connection`, and the event
loop that works through the batches `epoll_wait` returns.

The kernel's interest list is part of the state, since `epoll_ctl` answers from
it and `data.ptr` comes back through it.  A pointer `&conns[i]` is the index
`i`, `NULL` (the listener) is `none`.  A returned event also remembers the
descriptor it was generated for; the server does not see that field, the
statements about stale events do.
-/

namespace SysLab.PartB.EpollServer

open SysLab.Foundation

/-! ## Data -/

/-- The bits of an event mask the server uses. -/
structure EpollFlags where
  epollin : Bool := false
  epollout : Bool := false
  epollerr : Bool := false
  epollhup : Bool := false
  epollrdhup : Bool := false
  deriving DecidableEq, Repr

/-- `EPOLLIN`, the listener's mask. -/
def EPOLLIN : EpollFlags := { epollin := true }

/-- `EPOLLIN | EPOLLRDHUP`. -/
def armedForInput : EpollFlags := { epollin := true, epollrdhup := true }

/-- `EPOLLOUT | EPOLLRDHUP`. -/
def armedForOutput : EpollFlags := { epollout := true, epollrdhup := true }

/-- `revents & (EPOLLERR | EPOLLHUP | EPOLLRDHUP)`. -/
def EpollFlags.broken (f : EpollFlags) : Bool :=
  f.epollerr || f.epollhup || f.epollrdhup

/-- `struct epoll_event` as it is registered. -/
structure EpollEvent where
  events : EpollFlags
  ptr : Option Nat
  deriving DecidableEq, Repr

/-- The descriptors registered with the `epoll` instance. -/
abbrev InterestList := Int → Option EpollEvent

/-- An event of a batch, with the descriptor it was generated for. -/
structure Ready where
  fd : Int
  events : EpollFlags
  ptr : Option Nat
  deriving DecidableEq, Repr

/-- `connection_t`. -/
structure Connection where
  fd : Int
  used : Nat
  sent : Nat
  buffer : Buffer UInt8 bufferSize

/-- `buffer[sent .. used)`: what was read and is still to be written. -/
def Connection.pending (conn : Connection) : List UInt8 :=
  conn.buffer.window conn.sent conn.used

/-! ## `epoll_ctl` and `close` in the kernel -/

/-- `EPOLL_CTL_ADD`; `refused` is an error of the kernel's own choosing. -/
def epollCtlAdd (interest : InterestList) (fd : Int) (ev : EpollEvent)
    (refused : Option Errno) : Except Errno InterestList :=
  if (interest fd).isSome then .error .EEXIST
  else
    match refused with
    | some e => .error e
    | none => .ok (Function.update interest fd (some ev))

/-- `EPOLL_CTL_MOD`: it fails on a descriptor that is not registered. -/
def epollCtlMod (interest : InterestList) (fd : Int) (ev : EpollEvent) :
    Except Errno InterestList :=
  if (interest fd).isSome then .ok (Function.update interest fd (some ev))
  else .error .ENOENT

/-- `EPOLL_CTL_DEL`, and what `close` does to the interest list. -/
def forget (interest : InterestList) (fd : Int) : InterestList :=
  Function.update interest fd none

/-! ## The helpers -/

/-- One connection under its pointer, with the kernel's interest list and the
calls made so far. -/
structure Slot where
  index : Nat
  conn : Connection
  interest : InterestList
  trace : Trace

/-- `close_connection`. -/
def closeConnection (x : Slot) : Slot where
  index := x.index
  conn := { x.conn with fd := -1, used := 0, sent := 0 }
  interest := if 0 ≤ x.conn.fd then forget x.interest x.conn.fd else x.interest
  trace := if 0 ≤ x.conn.fd then .close x.conn.fd :: x.trace else x.trace

/-- `arm_connection`; the error is its `die_errno`. -/
def armConnection (x : Slot) (events : EpollFlags) : Except Exit Slot :=
  match epollCtlMod x.interest x.conn.fd
      { events := events, ptr := some x.index } with
  | .ok interest => .ok { x with interest := interest }
  | .error e => .error ⟨"epoll_ctl mod", e⟩

/-- `allocate_connection`; `none` is `NULL`. -/
def allocateConnection (conns : Nat → Connection) (maxClients : Nat)
    (fd : Int) : Option (Nat × (Nat → Connection)) :=
  match firstFree (fun i => (conns i).fd < 0) 0 maxClients with
  | some i =>
      some (i, Function.update conns i
        { conns i with fd := fd, used := 0, sent := 0 })
  | none => none

/-! ## One connection event -/

/-- How a branch of the event's body leaves it: on to the statement after it,
to the next event by `continue`, or out of the process. -/
inductive Flow
  | fallThrough
  | continueBatch
  | exits (why : Exit)

/-- The read branch: entered on `EPOLLIN` with an empty buffer. -/
def readBranch (x : Slot) (revents : EpollFlags)
    (rd : Except Errno (List UInt8)) : Flow × Slot :=
  if revents.epollin = true ∧ x.conn.used = x.conn.sent then
    let y := { x with trace := .read x.conn.fd bufferSize rd :: x.trace }
    match rd with
    | .error e =>
        if e.wouldBlock then (.continueBatch, y)
        else (.continueBatch, closeConnection y)
    | .ok [] => (.continueBatch, closeConnection y)
    | .ok (b :: bs) =>
        let z := { y with
          conn := { y.conn with
            buffer := y.conn.buffer.store (b :: bs)
            used := (b :: bs).length
            sent := 0 } }
        match armConnection z armedForOutput with
        | .ok armed => (.fallThrough, armed)
        | .error why => (.exits why, z)
  else (.fallThrough, x)

/-- The write branch: entered on `EPOLLOUT` with bytes left to send. -/
def writeBranch (x : Slot) (revents : EpollFlags) (wr : Except Errno Nat) :
    Flow × Slot :=
  if revents.epollout = true ∧ x.conn.sent < x.conn.used then
    let y := { x with trace := .write x.conn.fd x.conn.pending wr :: x.trace }
    match wr with
    | .error e =>
        if e.wouldBlock then (.continueBatch, y)
        else (.continueBatch, closeConnection y)
    | .ok 0 => (.continueBatch, closeConnection y)
    | .ok (n + 1) =>
        if x.conn.sent + (n + 1) = x.conn.used then
          let z := { y with conn := { y.conn with used := 0, sent := 0 } }
          match armConnection z armedForInput with
          | .ok armed => (.fallThrough, armed)
          | .error why => (.exits why, z)
        else
          (.fallThrough,
            { y with conn := { y.conn with sent := x.conn.sent + (n + 1) } })
  else (.fallThrough, x)

/-- The body of the loop for a connection event.  `rd` and `wr` are what
`read` and `write` return if the body gets to call them. -/
def handleEvent (x : Slot) (revents : EpollFlags)
    (rd : Except Errno (List UInt8)) (wr : Except Errno Nat) : Flow × Slot :=
  if revents.broken then (.continueBatch, closeConnection x)
  else
    match readBranch x revents rd with
    | (.fallThrough, y) => writeBranch y revents wr
    | (flow, y) => (flow, y)

/-! ## The event loop -/

/-- Where the event loop stands; the lists are the events of the current batch
it has not looked at yet. -/
inductive Pc
  | wait
  | accept (rest : List Ready)
  | event (i : Nat) (ev : Ready) (rest : List Ready)
  | exited (why : Exit)
  deriving DecidableEq, Repr

/-- The `for` loop over the batch, `data.ptr` telling listener from
connections. -/
def dispatch : List Ready → Pc
  | [] => .wait
  | ev :: rest =>
      match ev.ptr with
      | none => .accept rest
      | some i => .event i ev rest

/-- The server's memory, the kernel's interest list and the calls made. -/
structure State where
  pc : Pc
  conns : Nat → Connection
  interest : InterestList
  trace : Trace

/-- The connection behind pointer `i`. -/
def State.slot (s : State) (i : Nat) : Slot :=
  ⟨i, s.conns i, s.interest, s.trace⟩

/-- Store a connection back behind its pointer. -/
def State.setSlot (s : State) (x : Slot) : State :=
  { s with
    conns := Function.update s.conns x.index x.conn
    interest := x.interest
    trace := x.trace }

/-- What the kernel answers to the call the loop is at.  `accept` also answers
for the `EPOLL_CTL_ADD` that may follow it, `conn` for the two calls a
connection event may make. -/
inductive Event
  | wait (res : Except Errno (List Ready))
  | accept (res : Except Errno Int) (refused : Option Errno)
  | conn (rd : Except Errno (List UInt8)) (wr : Except Errno Nat)

/-- `epoll_wait` returns. -/
def waitStep (s : State) (res : Except Errno (List Ready)) : State :=
  match res with
  | .error e =>
      if e = .EINTR then s else { s with pc := .exited ⟨"epoll_wait", e⟩ }
  | .ok batch => { s with pc := dispatch batch }

/-- One round of the accept loop. -/
def acceptStep (maxClients : Nat) (base : Finset Int) (s : State)
    (rest : List Ready) (res : Except Errno Int) (refused : Option Errno) :
    State :=
  match res with
  | .error e =>
      if e.wouldBlock then { s with pc := dispatch rest }
      else if e = .EINTR then s
      else { s with pc := .exited ⟨"accept", e⟩ }
  | .ok clientFd =>
      let t := { s with trace := .accept clientFd :: s.trace }
      match setNonblocking (Transcript.openKeys base t.trace) clientFd with
      | some why => { t with pc := .exited why }
      | none =>
          match allocateConnection t.conns maxClients clientFd with
          | none =>
              { t with
                interest := forget t.interest clientFd
                trace := .close clientFd :: t.trace }
          | some (i, conns) =>
              let u := { t with conns := conns }
              match epollCtlAdd u.interest clientFd
                  { events := armedForInput, ptr := some i } refused with
              | .ok interest => { u with interest := interest }
              | .error _ => u.setSlot (closeConnection (u.slot i))

/-- One connection event. -/
def eventStep (s : State) (i : Nat) (ev : Ready) (rest : List Ready)
    (rd : Except Errno (List UInt8)) (wr : Except Errno Nat) : State :=
  match handleEvent (s.slot i) ev.events rd wr with
  | (.exits why, x) => { s.setSlot x with pc := .exited why }
  | (_, x) => { s.setSlot x with pc := dispatch rest }

/-- The event loop, call by call; `none` when the event does not answer the
call the loop is at. -/
def step (maxClients : Nat) (base : Finset Int) (s : State) :
    Event → Option State
  | .wait res => if s.pc = .wait then some (waitStep s res) else none
  | .accept res refused =>
      match s.pc with
      | .accept rest => some (acceptStep maxClients base s rest res refused)
      | _ => none
  | .conn rd wr =>
      match s.pc with
      | .event i ev rest => some (eventStep s i ev rest rd wr)
      | _ => none

section Inversion

variable {maxClients : Nat} {base : Finset Int} {s t : State}

/-- `epoll_wait` is called at the head of the loop only. -/
theorem step_wait {res : Except Errno (List Ready)}
    (h : step maxClients base s (.wait res) = some t) :
    s.pc = .wait ∧ t = waitStep s res := by
  simp only [step] at h
  split at h
  · rename_i hpc
    exact ⟨hpc, (Option.some.inj h).symm⟩
  · cases h

theorem step_accept {res : Except Errno Int} {refused : Option Errno}
    (h : step maxClients base s (.accept res refused) = some t) :
    ∃ rest, s.pc = .accept rest ∧
      t = acceptStep maxClients base s rest res refused := by
  simp only [step] at h
  split at h
  · rename_i rest hpc
    exact ⟨rest, hpc, (Option.some.inj h).symm⟩
  · cases h

theorem step_conn {rd : Except Errno (List UInt8)} {wr : Except Errno Nat}
    (h : step maxClients base s (.conn rd wr) = some t) :
    ∃ i ev rest, s.pc = .event i ev rest ∧
      t = eventStep s i ev rest rd wr := by
  simp only [step] at h
  split at h
  · rename_i i ev rest hpc
    exact ⟨i, ev, rest, hpc, (Option.some.inj h).symm⟩
  · cases h

end Inversion

/-- `connection_t` as the set-up code leaves it. -/
def freeConnection : Connection where
  fd := -1
  used := 0
  sent := 0
  buffer := .fill bufferSize 0

/-- The state the event loop starts in: every slot is free and the listener is
registered with a `NULL` pointer. -/
def initial (listenFd : Int) : State where
  pc := .wait
  conns _ := freeConnection
  interest fd := if fd = listenFd then some ⟨EPOLLIN, none⟩ else none
  trace := []

/-- A batch of the kernel: events of registered descriptors, at most one each,
carrying the pointer registered with the descriptor. -/
def BatchOk (s : State) (batch : List Ready) : Prop :=
  (batch.map Ready.fd).Nodup ∧
    ∀ ev ∈ batch, (s.interest ev.fd).map EpollEvent.ptr = some ev.ptr

instance (s : State) (batch : List Ready) : Decidable (BatchOk s batch) :=
  inferInstanceAs (Decidable (_ ∧ _))

/-- What the kernel promises of the answer to a call of the loop. -/
def Answer (s : State) : Event → Prop
  | .wait (.ok batch) => BatchOk s batch
  | _ => True

instance (s : State) : (e : Event) → Decidable (Answer s e)
  | .wait (.ok batch) => inferInstanceAs (Decidable (BatchOk s batch))
  | .wait (.error _) => isTrue trivial
  | .accept _ _ => isTrue trivial
  | .conn _ _ => isTrue trivial

/-- The descriptors open when the loop starts: the listener, the `epoll`
instance and what the process inherited. -/
def startFds (inherited : Finset Int) (listenFd epfd : Int) : Finset Int :=
  insert listenFd (insert epfd inherited)

/-- The server among all kernels that keep their promises. -/
def system (maxClients : Nat) (inherited : Finset Int) (listenFd epfd : Int) :
    System State Event where
  init s := s = initial listenFd
  next s e t :=
    step maxClients (startFds inherited listenFd epfd) s e = some t ∧
      KernelOk (startFds inherited listenFd epfd) t.trace ∧ Answer s e

end SysLab.PartB.EpollServer
