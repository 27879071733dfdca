import SysLab.PartB.LockStep
import SysLab.PartB.Network
import SysLab.PartB.ThreadpoolProgress

/-!
# The load client against the thread-pool server

Any number of client threads of `load_client.c`, each opening its connections one
after the other, against `threadpool_server.c` with any number of workers.  The
kernel between them never fails, nor does `malloc`: a call blocks or moves bytes.
-/

namespace SysLab.PartB.ThreadpoolLoad

open SysLab.Foundation
open SysLab.PartB.LoadClient (Config Thread ThreadPc Worker sendBuf)

/-! ## The two programs and the network -/

/-- The client's arguments, with a number of connections for each of its threads;
how many connections wait for `accept` at most (the server asks for 256), and the
descriptors the server had open. -/
structure Setup (threads : Nat) where
  client : Config
  connections : Fin threads → Nat
  backlog : Nat
  base : Finset Int

/-- A connection: the client thread, and which of its connections it is. -/
abbrev Conn (threads : Nat) := Fin threads × Nat

/-- The server, the kernel and the client threads. -/
structure State (threadCount threads toServer toClient : Nat) where
  server : ThreadpoolServer.State threadCount
  network : Network (Conn threads) toServer toClient
  clients : Fin threads → Thread

/-- A step of the server, or of a client thread: a blocking call returns, with `n`
bytes moved or at the end of the stream, or the thread turns to its next
connection. -/
inductive Event (threadCount threads : Nat)
  | server (e : ThreadpoolServer.Event threadCount)
  | connect (i : Fin threads)
  | write (i : Fin threads) (n : Nat)
  | read (i : Fin threads) (n : Nat)
  | eof (i : Fin threads)
  | next (i : Fin threads)

section Model

variable {threadCount threads toServer toClient : Nat}

/-- The connection a client thread is at. -/
def State.conn (s : State threadCount threads toServer toClient) (i : Fin threads) :
    Conn threads := (i, (s.clients i).connIndex)

/-- The worker of the client on a connection, if it is there. -/
def State.worker (s : State threadCount threads toServer toClient) (k : Conn threads) :
    Option Worker :=
  match (s.clients k.1).pc with
  | .connected w => if (s.clients k.1).connIndex = k.2 then some w else none
  | _ => none

/-- The client has not closed the connection. -/
def State.isOpen (s : State threadCount threads toServer toClient) (k : Conn threads) :
    Bool :=
  match s.worker k with
  | some w => w.pc ≠ .closed
  | none => false

/-! ### A client thread -/

/-- A client thread goes on. -/
def State.setPc (s : State threadCount threads toServer toClient) (i : Fin threads)
    (pc : ThreadPc) : State threadCount threads toServer toClient :=
  { s with clients := Function.update s.clients i { s.clients i with pc := pc } }

/-- `connect_to_server` returns. -/
def connectStep (setup : Setup threads) (s : State threadCount threads toServer toClient)
    (i : Fin threads) (bytesCompleted : Nat) :
    Option (State threadCount threads toServer toClient) :=
  (s.network.connect setup.backlog (s.conn i)).map fun network =>
    { s.setPc i (.connected (.start setup.client bytesCompleted)) with network := network }

/-- The `write` in `write_full` takes `n` bytes. -/
def writeStep (setup : Setup threads) (s : State threadCount threads toServer toClient)
    (i : Fin threads) (w : Worker) (done n : Nat) :
    Option (State threadCount threads toServer toClient) :=
  if 0 < n ∧ done + n ≤ setup.client.payloadSize then
    (s.network.send (s.conn i) (((sendBuf setup.client).drop done).take n)).map
      fun network =>
        { s.setPc i (.connected (w.wrote setup.client done (.ok n))) with
          network := network }
  else none

/-- The `read` in `read_full` returns `n` bytes. -/
def readStep (setup : Setup threads) (s : State threadCount threads toServer toClient)
    (i : Fin threads) (w : Worker) (done n : Nat) :
    Option (State threadCount threads toServer toClient) :=
  if 0 < n ∧ done + n ≤ setup.client.payloadSize then
    (s.network.receive (s.conn i) n).map fun (bytes, network) =>
      { s.setPc i (.connected (w.received setup.client done (.ok bytes))) with
        network := network }
  else none

/-- It returns 0: the server has closed the connection. -/
def eofStep (setup : Setup threads) (s : State threadCount threads toServer toClient)
    (i : Fin threads) (w : Worker) (done : Nat) :
    Option (State threadCount threads toServer toClient) :=
  if s.network.dropped (s.conn i) ∧ (s.network.outbound (s.conn i)).length = 0 then
    some (s.setPc i (.connected (w.received setup.client done (.ok []))))
  else none

/-- The connection is closed; on to the next. -/
def nextStep (setup : Setup threads) (s : State threadCount threads toServer toClient)
    (i : Fin threads) (w : Worker) : State threadCount threads toServer toClient :=
  { s with
    clients := Function.update s.clients i
      (.loopTest (setup.connections i) ((s.clients i).connIndex + 1) w.bytesCompleted) }

/-! ### The server -/

/-- Neither `accept` nor `malloc` fails. -/
def faultless : ThreadpoolServer.Event threadCount → Bool
  | .accept (.error _) => false
  | .malloc none => false
  | _ => true

/-- The calls made since. -/
def newCalls (before after : Trace) : Trace := after.take (after.length - before.length)

/-- A step of the server, if the network answers its calls so. -/
def serverStep (setup : Setup threads) (s : State threadCount threads toServer toClient)
    (e : ThreadpoolServer.Event threadCount) :
    Option (State threadCount threads toServer toClient) :=
  if faultless e then
    (ThreadpoolServer.step s.server e).bind fun server =>
      if KernelOk setup.base server.trace then
        (s.network.answers s.isOpen (newCalls s.server.trace server.trace)).map
          fun network => { s with server := server, network := network }
      else none
  else none

/-! ### All of them -/

/-- One step of one of the threads; `none` where it is not at that point, or its call
blocks. -/
def step (setup : Setup threads) (s : State threadCount threads toServer toClient) :
    Event threadCount threads → Option (State threadCount threads toServer toClient)
  | .server e => serverStep setup s e
  | .connect i =>
      match (s.clients i).pc with
      | .connecting bytesCompleted => connectStep setup s i bytesCompleted
      | _ => none
  | .write i n =>
      match (s.clients i).pc with
      | .connected w =>
          match w.pc with
          | .writeFull done => writeStep setup s i w done n
          | _ => none
      | _ => none
  | .read i n =>
      match (s.clients i).pc with
      | .connected w =>
          match w.pc with
          | .readFull done => readStep setup s i w done n
          | _ => none
      | _ => none
  | .eof i =>
      match (s.clients i).pc with
      | .connected w =>
          match w.pc with
          | .readFull done => eofStep setup s i w done
          | _ => none
      | _ => none
  | .next i =>
      match (s.clients i).pc with
      | .connected w => if w.pc = .closed then some (nextStep setup s i w) else none
      | _ => none

/-- Nobody has connected. -/
def initial (setup : Setup threads) : State threadCount threads toServer toClient where
  server := ThreadpoolServer.initial threadCount
  network := .quiet
  clients i := .loopTest (setup.connections i) 0 0

def system (setup : Setup threads) (threadCount toServer toClient : Nat) :
    System (State threadCount threads toServer toClient) (Event threadCount threads) where
  init s := s = initial setup
  next s e t := step setup s e = some t

end Model

end SysLab.PartB.ThreadpoolLoad
