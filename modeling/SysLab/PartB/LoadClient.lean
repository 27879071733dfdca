import Mathlib.Algebra.Group.Nat.Defs
import SysLab.PartB.FullPrefix

/-!
# The load client's worker

`worker_main` of `load_client.c` on one of its connections, from the return of
`connect_to_server` to `close`: for each request `write_full` sends the payload
and `read_full` takes the same number of bytes back.  The clock readings and
the latencies computed from them are left out.  `Thread` is the loop around it,
over all the connections.
-/

namespace SysLab.PartB.LoadClient

/-- What `worker_main` reads of `worker_arg_t` for a connection. -/
structure Config where
  payloadSize : Nat
  requestsPerConnection : Nat

/-- Inside `write_full` or `read_full` with `done` bytes moved, past
`close(fd)`, or ended by `die_errno(message)`. -/
inductive Pc
  | writeFull (done : Nat)
  | readFull (done : Nat)
  | closed
  | died (message : String)
  deriving DecidableEq, Repr

/-- The worker's variables; `recvBuf` is `recv_buf[0 .. done)`. -/
structure Worker where
  pc : Pc
  req : Nat
  recvBuf : List UInt8
  bytesCompleted : Nat

/-- `memset(send_buf, 'A', payload_size)`. -/
def sendBuf (cfg : Config) : List UInt8 := List.replicate cfg.payloadSize 65

/-- The test of the `for` loop over the requests. -/
def loopTest (cfg : Config) (req : Nat) : Pc :=
  if req < cfg.requestsPerConnection then .writeFull 0 else .closed

/-- The connection has been made. -/
def Worker.start (cfg : Config) (bytesCompleted : Nat) : Worker where
  pc := loopTest cfg 0
  req := 0
  recvBuf := []
  bytesCompleted := bytesCompleted

/-- A request is complete. -/
def Worker.nextRequest (cfg : Config) (w : Worker) : Worker :=
  { w with
    pc := loopTest cfg (w.req + 1)
    req := w.req + 1
    bytesCompleted := (w.bytesCompleted + cfg.payloadSize * 2) % 2 ^ 64 }

/-- On from `write_full`. -/
def Worker.afterWrite (cfg : Config) (w : Worker) : Transfer → Worker
  | .running done => { w with pc := .writeFull done }
  | .returned (.ok n) =>
      if n = cfg.payloadSize then { w with pc := .readFull 0, recvBuf := [] }
      else { w with pc := .died "write_full" }
  | .returned (.error _) => { w with pc := .died "write_full" }

/-- On from `read_full`. -/
def Worker.afterRead (cfg : Config) (w : Worker) : Transfer → Worker
  | .running done => { w with pc := .readFull done }
  | .returned (.ok n) =>
      if n = cfg.payloadSize then w.nextRequest cfg
      else { w with pc := .died "read_full" }
  | .returned (.error _) => { w with pc := .died "read_full" }

/-- The `write` in `write_full` has answered. -/
def Worker.wrote (cfg : Config) (w : Worker) (done : Nat)
    (res : Except Errno Nat) : Worker :=
  w.afterWrite cfg (PartB.writeFull cfg.payloadSize done res)

/-- The `read` in `read_full` has answered. -/
def Worker.received (cfg : Config) (w : Worker) (done : Nat)
    (res : Except Errno (List UInt8)) : Worker :=
  let stored := match res with
    | .ok bytes => { w with recvBuf := w.recvBuf ++ bytes }
    | .error _ => w
  stored.afterRead cfg (PartB.readFull cfg.payloadSize done res)

/-! ## All its connections -/

/-- In `connect_to_server`, on a connection, or past the loop. -/
inductive ThreadPc
  | connecting (bytesCompleted : Nat)
  | connected (worker : Worker)
  | returned (bytesCompleted : Nat)

/-- A client thread. -/
structure Thread where
  connIndex : Nat
  pc : ThreadPc

/-- The test of the `for` loop over the connections. -/
def Thread.loopTest (connections connIndex bytesCompleted : Nat) : Thread where
  connIndex := connIndex
  pc := if connIndex < connections then .connecting bytesCompleted
    else .returned bytesCompleted

/-- The requests that have been completed. -/
def Thread.completed (cfg : Config) (thread : Thread) : Nat :=
  thread.connIndex * cfg.requestsPerConnection +
    match thread.pc with
    | .connected w => w.req
    | _ => 0

/-- The test of the loop leaves a thread without a connection. -/
theorem loopTest_not_connected (connections connIndex bytesCompleted : Nat) (w : Worker) :
    (Thread.loopTest connections connIndex bytesCompleted).pc ≠ .connected w := by
  rw [Thread.loopTest]
  split
  · simp
  · simp

/-- A thread returns past its last connection. -/
theorem loopTest_returned {connections connIndex bytesCompleted bytes : Nat}
    (h : (Thread.loopTest connections connIndex bytesCompleted).pc = .returned bytes) :
    connections ≤ (Thread.loopTest connections connIndex bytesCompleted).connIndex := by
  unfold Thread.loopTest at h
  split at h
  · cases h
  · next hdone => exact Nat.le_of_not_lt hdone

/-! ## A call that moves bytes -/

section Moved

variable {cfg : Config} {w : Worker} {done n : Nat}

/-- Within the payload there are `n` bytes to send. -/
theorem length_chunk (hdone : done + n ≤ cfg.payloadSize) :
    (((sendBuf cfg).drop done).take n).length = n := by
  rw [List.length_take, List.length_drop, sendBuf, List.length_replicate]
  omega

/-- A `write` moves the request on, or ends its sending. -/
theorem wrote_ok (hn : 0 < n) (hdone : done + n ≤ cfg.payloadSize) :
    w.wrote cfg done (.ok n) =
      if done + n < cfg.payloadSize then { w with pc := .writeFull (done + n) }
      else { w with pc := .readFull 0, recvBuf := [] } := by
  rw [Worker.wrote, PartB.writeFull, transferStep_ok hn, Transfer.resume]
  by_cases hmore : done + n < cfg.payloadSize
  · simp only [if_pos hmore, Worker.afterWrite]
  · have hall : done + n = cfg.payloadSize := by omega
    simp only [if_neg hmore, Worker.afterWrite, if_pos hall]

/-- A `read` stores what it returns, and moves the request on or completes
it. -/
theorem received_ok {bytes : List UInt8} (hn : 0 < bytes.length)
    (hdone : done + bytes.length ≤ cfg.payloadSize) :
    w.received cfg done (.ok bytes) =
      if done + bytes.length < cfg.payloadSize then
        { w with
          recvBuf := w.recvBuf ++ bytes
          pc := .readFull (done + bytes.length) }
      else Worker.nextRequest cfg { w with recvBuf := w.recvBuf ++ bytes } := by
  have hmap : (Except.ok bytes : Except Errno (List UInt8)).map List.length =
      .ok bytes.length := rfl
  rw [Worker.received, PartB.readFull, hmap, transferStep_ok hn, Transfer.resume]
  by_cases hmore : done + bytes.length < cfg.payloadSize
  · simp only [if_pos hmore, Worker.afterRead]
  · have hall : done + bytes.length = cfg.payloadSize := by omega
    simp only [if_neg hmore, Worker.afterRead, if_pos hall]

end Moved

/-! ## The calls of `write_full` and `read_full` -/

section Calls

open FullTransfer

variable (cfg : Config) (w : Worker) {done : Nat}

/-- What the worker does on a `write` is what `write_full` does with `send_buf`. -/
theorem wrote_eq {s : WriteFull} (hs : s.transfer = .running done) (res : Except Errno Nat) :
    w.wrote cfg done res =
      w.afterWrite cfg (s.wrote (sendBuf cfg) cfg.payloadSize res).transfer := by
  rw [WriteFull.wrote, hs, Worker.wrote]

/-- On a `read` it is what `read_full` does, and `recvBuf` grows as its buffer does. -/
theorem received_eq (stream : Nat → UInt8) {s : ReadFull} (hs : s.transfer = .running done)
    (hbuf : w.recvBuf = s.buffer.take done) (hdone : done ≤ s.buffer.length) (n : Nat) :
    w.received cfg done (.ok (incoming stream s.position n)) =
      Worker.afterRead cfg
        { w with
          recvBuf := (s.received stream cfg.payloadSize (.ok n)).buffer.take (done + n) }
        (s.received stream cfg.payloadSize (.ok n)).transfer := by
  have hlength : (s.buffer.take done).length = done := List.length_take_of_le hdone
  have hbytes := length_incoming stream s.position n
  have hstored : (storeAt s.buffer done (incoming stream s.position n)).take (done + n) =
      w.recvBuf ++ incoming stream s.position n := by
    rw [storeAt, ← List.append_assoc, hbuf]
    refine List.take_left' ?_
    rw [List.length_append, hlength, hbytes]
  unfold ReadFull.received
  rw [hs]
  show _ = Worker.afterRead cfg
    { w with recvBuf := (storeAt s.buffer done (incoming stream s.position n)).take (done + n) } _
  rw [hstored]
  rfl

end Calls

end SysLab.PartB.LoadClient
