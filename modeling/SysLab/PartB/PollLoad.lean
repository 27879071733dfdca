import SysLab.PartB.PollServerTable
import SysLab.PartB.ThreadpoolLoad

/-!
# The load client against the `poll` server

Any number of client threads of `load_client.c` against `poll_server.c`.  The client
threads and the network are those of `ThreadpoolLoad`; the server's calls do not block,
but for `poll`, which reports what is ready when it returns.
-/

namespace SysLab.PartB

open SysLab.Foundation

/-! ## Calls that do not block -/

namespace Network

variable {κ : Type*} [DecidableEq κ] {toServer toClient : Nat}

omit [DecidableEq κ] in
/-- A call on a blocking descriptor would wait: there is nothing to read and the client
has not gone, or no room for what is written. -/
def blocks (isOpen : κ → Bool) (net : Network κ toServer toClient) : Syscall → Bool
  | .read fd _ _ => (net.peer fd).any fun k => isOpen k && (net.inbound k).length == 0
  | .write fd _ _ => (net.peer fd).any fun k => (net.outbound k).length == toClient
  | _ => false

/-- The answer to a call of the server on a descriptor that does not block. -/
def answerNow (isOpen : κ → Bool) (net : Network κ toServer toClient) (c : Syscall) :
    Option (Network κ toServer toClient) :=
  match c with
  | .read _ _ (.error e) => if e = .EAGAIN ∧ net.blocks isOpen c then some net else none
  | .write _ _ (.error e) => if e = .EAGAIN ∧ net.blocks isOpen c then some net else none
  | c => net.answer isOpen c

/-- Several calls, the newest first. -/
def answersNow (isOpen : κ → Bool) (net : Network κ toServer toClient) :
    Trace → Option (Network κ toServer toClient)
  | [] => some net
  | c :: h => (net.answersNow isOpen h).bind fun net => net.answerNow isOpen c

end Network

namespace PollLoad

open SysLab.PartB.LoadClient (Thread ThreadPc Worker)
open SysLab.PartB.PollServer (PollFlags noFlags)
open SysLab.PartB.ThreadpoolLoad (Setup Conn newCalls)

/-! ## The two programs and the network -/

/-- The server, the kernel and the client threads. -/
structure State (threads toServer toClient : Nat) where
  server : PollServer.State
  network : Network (Conn threads) toServer toClient
  clients : Fin threads → Thread

/-- A step of a client thread. -/
inductive ClientEvent (threads : Nat)
  | connect (i : Fin threads)
  | write (i : Fin threads) (n : Nat)
  | read (i : Fin threads) (n : Nat)
  | eof (i : Fin threads)
  | next (i : Fin threads)

/-- A step of the server: `poll` returns; `accept` returns a descriptor, or says that
nobody is left; or one slot of the scan is passed, with what its calls return. -/
inductive ServerEvent
  | poll
  | accept (fd : Int)
  | drained
  | slot (rd : Except Errno (List UInt8)) (wr : Except Errno Nat)

/-- `reset` is a `write` of a client whose connection the server has closed. -/
inductive Event (threads : Nat)
  | server (e : ServerEvent)
  | client (e : ClientEvent threads)
  | reset (i : Fin threads)

section Model

variable {threads toServer toClient : Nat}

/-! ### A client thread -/

/-- The same step beside the thread-pool server. -/
def ClientEvent.beside {threadCount : Nat} :
    ClientEvent threads → ThreadpoolLoad.Event threadCount threads
  | connect i => .connect i
  | write i n => .write i n
  | read i n => .read i n
  | eof i => .eof i
  | next i => .next i

/-- The client threads and the network beside another server. -/
def State.beside {threadCount : Nat} (s : State threads toServer toClient)
    (server : ThreadpoolServer.State threadCount) :
    ThreadpoolLoad.State threadCount threads toServer toClient :=
  ⟨server, s.network, s.clients⟩

/-- Without any server: a client thread does not look at it. -/
def State.clientSide (s : State threads toServer toClient) :
    ThreadpoolLoad.State 0 threads toServer toClient := s.beside (ThreadpoolServer.initial 0)

/-- A client thread goes on. -/
def clientStep (setup : Setup threads) (s : State threads toServer toClient)
    (e : ClientEvent threads) : Option (State threads toServer toClient) :=
  (ThreadpoolLoad.step setup s.clientSide e.beside).map fun t =>
    { s with network := t.network, clients := t.clients }

/-- The server has closed the connection: `write` fails, with `EPIPE`. -/
def resetStep (setup : Setup threads) (s : State threads toServer toClient)
    (i : Fin threads) : Option (State threads toServer toClient) :=
  match (s.clients i).pc with
  | .connected w =>
      match w.pc with
      | .writeFull done =>
          if s.network.dropped (s.clientSide.conn i) then
            some { s with
              clients := (s.clientSide.setPc i (.connected
                (w.wrote setup.client done (.error (.other 32))))).clients }
          else none
      | _ => none
  | _ => none

/-! ### The server -/

/-- What `poll` finds ready of entry `j`. -/
def State.polled (s : State threads toServer toClient) (j : Nat) : PollFlags :=
  let pfd := s.server.pfds j
  if j = 0 then { pollin := pfd.events.pollin && !s.network.backlog.isEmpty }
  else if pfd.fd < 0 then noFlags
  else
    match s.network.peer pfd.fd with
    | none => noFlags
    | some k =>
        { pollin := pfd.events.pollin &&
            (decide (0 < (s.network.inbound k).length) || !s.clientSide.isOpen k)
          pollout := pfd.events.pollout &&
            decide ((s.network.outbound k).length < toClient) }

/-- The server goes on, if the network answers its calls so. -/
def answered (setup : Setup threads) (maxClients : Nat)
    (s : State threads toServer toClient) (e : PollServer.Event) :
    Option (State threads toServer toClient) :=
  (PollServer.step maxClients setup.base s.server e).bind fun server =>
    if KernelOk setup.base server.trace then
      (s.network.answersNow s.clientSide.isOpen (newCalls s.server.trace server.trace)).map
        fun network => { s with server := server, network := network }
    else none

/-- A step of the server.  `poll` waits until something is ready. -/
def serverStep (setup : Setup threads) (maxClients : Nat)
    (s : State threads toServer toClient) :
    ServerEvent → Option (State threads toServer toClient)
  | .poll =>
      if (List.range (maxClients + 1)).any fun j => s.polled j ≠ noFlags then
        answered setup maxClients s (.poll (.ok s.polled))
      else none
  | .accept fd => answered setup maxClients s (.accept (.ok fd))
  | .drained =>
      if s.network.backlog = [] then answered setup maxClients s (.accept (.error .EAGAIN))
      else none
  | .slot rd wr => answered setup maxClients s (.slot rd wr)

/-! ### All of them -/

/-- The thread is in `die_errno`. -/
def hasDied (thread : Thread) : Bool :=
  match thread.pc with
  | .connected w =>
      match w.pc with
      | .died _ => true
      | _ => false
  | _ => false

/-- A thread that dies ends the load client. -/
def State.exited (s : State threads toServer toClient) : Bool :=
  decide (∃ i, hasDied (s.clients i) = true)

def move (setup : Setup threads) (maxClients : Nat) (s : State threads toServer toClient) :
    Event threads → Option (State threads toServer toClient)
  | .server e => serverStep setup maxClients s e
  | .client e => clientStep setup s e
  | .reset i => resetStep setup s i

/-- One step, as long as the load client runs. -/
def step (setup : Setup threads) (maxClients : Nat) (s : State threads toServer toClient)
    (e : Event threads) : Option (State threads toServer toClient) :=
  if s.exited then none else move setup maxClients s e

/-- Nobody has connected. -/
def initial (setup : Setup threads) (listenFd : Int) : State threads toServer toClient where
  server := PollServer.initial listenFd
  network := .quiet
  clients i := .loopTest (setup.connections i) 0 0

def system (setup : Setup threads) (maxClients : Nat) (listenFd : Int)
    (toServer toClient : Nat) : System (State threads toServer toClient) (Event threads) where
  init s := s = initial setup listenFd
  next s e t := step setup maxClients s e = some t

end Model

end PollLoad

end SysLab.PartB
