import SysLab.Foundation.Channel
import SysLab.Foundation.Relay
import SysLab.PartB.LoadClient
import SysLab.PartB.PollServer

/-!
# The load client against the `poll` server

One connection, seen from both ends: the worker of `load_client.c` on one, a
slot of `poll_server.c` on the other, and a bounded channel of bytes in each
direction between them.  A blocking call of the worker returns when it has
moved a byte; the slot is served when `poll` finds it ready.

Counting bytes, the pair is a `Relay`: the client sends its whole payload before
it reads, and the slot holds one block at a time.  `abstracts` connects the two,
and whether they can get stuck is read off there.
-/

namespace SysLab.PartB.LockStep

open SysLab.Foundation
open SysLab.PartB.LoadClient
open SysLab.PartB.PollServer (Slot POLLIN POLLOUT noFlags serveSlot)

/-! ## The two programs and the connection -/

/-- The worker, the server's slot, and the bytes under way in both
directions. -/
structure State (toServer toClient : Nat) where
  worker : Worker
  slot : Slot
  inbound : Channel UInt8 toServer
  outbound : Channel UInt8 toClient

/-- A blocking call of the worker returns with `n` bytes moved, or the slot is
served and moves `n` bytes. -/
inductive Event
  | write (n : Nat)
  | read (n : Nat)
  | serve (n : Nat)

section Model

variable {toServer toClient : Nat}

/-- What `poll` reports of the slot. -/
def State.revents (s : State toServer toClient) : PollServer.PollFlags where
  pollin := s.slot.pfd.events.pollin && decide (0 < s.inbound.length)
  pollout := s.slot.pfd.events.pollout && decide (s.outbound.length < toClient)

/-- The slot as `poll` leaves it. -/
def State.polled (s : State toServer toClient) : Slot :=
  { s.slot with pfd := { s.slot.pfd with revents := s.revents } }

/-- The worker's `write` takes `n` of the bytes it was asked to write. -/
def writeStep (cfg : Config) (s : State toServer toClient) (done n : Nat) :
    Option (State toServer toClient) :=
  if 0 < n ∧ done + n ≤ cfg.payloadSize then
    (s.inbound.push (((sendBuf cfg).drop done).take n)).map fun inbound =>
      { s with
        worker := s.worker.wrote cfg done (.ok n)
        inbound := inbound }
  else none

/-- The worker's `read` returns `n` of the bytes it asked for. -/
def readStep (cfg : Config) (s : State toServer toClient) (done n : Nat) :
    Option (State toServer toClient) :=
  if 0 < n ∧ done + n ≤ cfg.payloadSize then
    (s.outbound.pop n).map fun (bytes, outbound) =>
      { s with
        worker := s.worker.received cfg done (.ok bytes)
        outbound := outbound }
  else none

/-- The slot is served on `POLLIN`: its `read` returns `n` bytes. -/
def fetchStep (s : State toServer toClient) (n : Nat) :
    Option (State toServer toClient) :=
  if 0 < n ∧ n ≤ bufferSize then
    (s.inbound.pop n).map fun (bytes, inbound) =>
      { s with
        slot := serveSlot s.polled (.ok bytes) (.error .EAGAIN)
        inbound := inbound }
  else none

/-- The slot is served on `POLLOUT`: its `write` takes `n` bytes. -/
def forwardStep (s : State toServer toClient) (n : Nat) :
    Option (State toServer toClient) :=
  if 0 < n ∧ n ≤ s.slot.conn.pending.length then
    (s.outbound.push (s.slot.conn.pending.take n)).map fun outbound =>
      { s with
        slot := serveSlot s.polled (.error .EAGAIN) (.ok n)
        outbound := outbound }
  else none

/-- One step of the worker or of the server; `none` where the worker is not at
that call, the call would block, or `poll` does not report the slot. -/
def step (cfg : Config) (s : State toServer toClient) :
    Event → Option (State toServer toClient)
  | .write n =>
      match s.worker.pc with
      | .writeFull done => writeStep cfg s done n
      | _ => none
  | .read n =>
      match s.worker.pc with
      | .readFull done => readStep cfg s done n
      | _ => none
  | .serve n =>
      if s.revents.pollin then fetchStep s n
      else if s.revents.pollout then forwardStep s n
      else none

/-- The worker has connected, and the server has entered the connection in a
slot. -/
def Connected (cfg : Config) (s : State toServer toClient) : Prop :=
  (∃ bytesCompleted, s.worker = .start cfg bytesCompleted) ∧
    0 ≤ s.slot.conn.fd ∧ s.slot.pfd.events = POLLIN ∧ s.slot.conn.used = 0 ∧
    s.slot.conn.sent = 0 ∧ s.inbound = .empty ∧ s.outbound = .empty

/-- The pair, on channels of any capacity. -/
def system (cfg : Config) (toServer toClient : Nat) :
    System (State toServer toClient) Event where
  init := Connected cfg
  next s e t := step cfg s e = some t

/-! ## The slot -/

/-- The slot watches for input with an empty buffer, or for output with a
non-empty one. -/
structure InOrder (x : Slot) : Prop where
  live : 0 ≤ x.conn.fd
  events : (x.pfd.events = POLLIN ∧ x.conn.used = 0 ∧ x.conn.sent = 0) ∨
    (x.pfd.events = POLLOUT ∧ x.conn.sent < x.conn.used ∧
      x.conn.used ≤ bufferSize)

theorem InOrder.length_pending {x : Slot} (h : InOrder x) :
    x.conn.pending.length = x.conn.used - x.conn.sent := by
  have hused : x.conn.used ≤ bufferSize := by
    rcases h.events with ⟨_, hused, _⟩ | ⟨_, _, hused⟩
    · omega
    · exact hused
  exact x.conn.buffer.length_window hused

/-- Serving a slot on `POLLIN` fills its empty buffer. -/
theorem serveSlot_fetch {x : Slot} (hlive : 0 ≤ x.conn.fd)
    (hrevents : x.pfd.revents = POLLIN) (hempty : x.conn.used = x.conn.sent)
    {bytes : List UInt8} (hbytes : 0 < bytes.length) :
    serveSlot x (.ok bytes) (.error .EAGAIN) =
      { trace := .read x.conn.fd bufferSize (.ok bytes) :: x.trace
        conn := { x.conn with
          buffer := x.conn.buffer.store bytes
          used := bytes.length
          sent := 0 }
        pfd := { x.pfd with events := POLLOUT } } := by
  obtain ⟨b, bs, rfl⟩ := List.exists_cons_of_length_pos hbytes
  have hguard : ¬ (x.conn.fd < 0 ∨ x.pfd.revents = noFlags) := by
    rw [hrevents]
    rintro (hneg | hnone)
    · omega
    · cases hnone
  have hbroken : x.pfd.revents.broken = false := by
    rw [hrevents]
    rfl
  have hin : x.pfd.revents.pollin = true := by
    rw [hrevents]
    rfl
  have hout : x.pfd.revents.pollout = false := by
    rw [hrevents]
    rfl
  simp [serveSlot, hguard, hbroken, PollServer.readBranch, hin, hempty,
    PollServer.writeBranch, hout]

/-- Serving it on `POLLOUT` writes from the buffer, and turns to input when all
is written. -/
theorem serveSlot_forward {x : Slot} (hlive : 0 ≤ x.conn.fd)
    (hrevents : x.pfd.revents = POLLOUT) (hbusy : x.conn.sent < x.conn.used)
    {n : Nat} (hn : 0 < n) :
    serveSlot x (.error .EAGAIN) (.ok n) =
      if x.conn.sent + n = x.conn.used then
        { trace := .write x.conn.fd x.conn.pending (.ok n) :: x.trace
          conn := { x.conn with used := 0, sent := 0 }
          pfd := { x.pfd with events := POLLIN } }
      else
        { x with
          trace := .write x.conn.fd x.conn.pending (.ok n) :: x.trace
          conn := { x.conn with sent := x.conn.sent + n } } := by
  obtain ⟨m, rfl⟩ := Nat.exists_eq_succ_of_ne_zero hn.ne'
  have hguard : ¬ (x.conn.fd < 0 ∨ x.pfd.revents = noFlags) := by
    rw [hrevents]
    rintro (hneg | hnone)
    · omega
    · cases hnone
  have hbroken : x.pfd.revents.broken = false := by
    rw [hrevents]
    rfl
  have hin : x.pfd.revents.pollin = false := by
    rw [hrevents]
    rfl
  have hout : x.pfd.revents.pollout = true := by
    rw [hrevents]
    rfl
  simp [serveSlot, hguard, hbroken, PollServer.readBranch, hin,
    PollServer.writeBranch, hout, hbusy]

/-! ## Counting the bytes -/

/-- The relay the pair is. -/
def relay (cfg : Config) (toServer toClient : Nat) : Relay.Config where
  message := cfg.payloadSize
  messages := cfg.requestsPerConnection
  inbound := toServer
  outbound := toClient
  block := bufferSize

/-- Where the worker stands within a request. -/
def phase : LoadClient.Pc → Relay.Phase
  | .writeFull done => .sending done
  | .readFull done => .receiving done
  | .closed => .finished
  | .died _ => .finished

/-- The bytes in each place. -/
def State.counts (s : State toServer toClient) : Relay.State where
  phase := phase s.worker.pc
  count := s.worker.req
  inbound := s.inbound.length
  held := s.slot.conn.used - s.slot.conn.sent
  outbound := s.outbound.length

/-- The slot is in order and the worker has not given up. -/
structure Sound (s : State toServer toClient) : Prop where
  slot : InOrder s.slot
  alive : ∀ message, s.worker.pc ≠ .died message

/-- The test of the loop over the requests never ends in `die_errno`. -/
theorem loopTest_alive (cfg : Config) (req : Nat) (message : String) :
    loopTest cfg req ≠ .died message := by
  unfold loopTest
  split
  · simp
  · simp

variable {cfg : Config} {s t : State toServer toClient}

variable (toServer toClient) in
/-- A `write` that moves bytes is the relay's client sending. -/
theorem wrote_phase {w : Worker} {done n : Nat} (hn : 0 < n)
    (hdone : done + n ≤ cfg.payloadSize) :
    phase (w.wrote cfg done (.ok n)).pc =
        Relay.afterSend (relay cfg toServer toClient) (done + n) ∧
      (w.wrote cfg done (.ok n)).req = w.req ∧
      ∀ message, (w.wrote cfg done (.ok n)).pc ≠ .died message := by
  rw [wrote_ok hn hdone]
  by_cases hmore : done + n < cfg.payloadSize
  · have hafter : Relay.afterSend (relay cfg toServer toClient) (done + n) =
        .sending (done + n) := if_pos hmore
    rw [if_pos hmore, hafter]
    exact ⟨rfl, rfl, by simp⟩
  · have hafter : Relay.afterSend (relay cfg toServer toClient) (done + n) =
        .receiving 0 := if_neg hmore
    rw [if_neg hmore, hafter]
    exact ⟨rfl, rfl, by simp⟩

variable (toServer toClient) in
/-- A `read` that moves bytes is the relay's client receiving. -/
theorem received_phase {w : Worker} {done : Nat} {bytes : List UInt8}
    (hn : 0 < bytes.length) (hdone : done + bytes.length ≤ cfg.payloadSize) :
    (phase (w.received cfg done (.ok bytes)).pc, (w.received cfg done (.ok bytes)).req) =
        Relay.afterReceive (relay cfg toServer toClient) w.req (done + bytes.length) ∧
      ∀ message, (w.received cfg done (.ok bytes)).pc ≠ .died message := by
  rw [received_ok hn hdone]
  by_cases hmore : done + bytes.length < cfg.payloadSize
  · have hafter : Relay.afterReceive (relay cfg toServer toClient) w.req
        (done + bytes.length) = (.receiving (done + bytes.length), w.req) := if_pos hmore
    rw [if_pos hmore, hafter]
    exact ⟨rfl, by simp⟩
  · have hafter : Relay.afterReceive (relay cfg toServer toClient) w.req
        (done + bytes.length) = (phase (loopTest cfg (w.req + 1)), w.req + 1) := by
      refine (if_neg hmore).trans ?_
      rw [loopTest]
      by_cases hnext : w.req + 1 < cfg.requestsPerConnection
      · rw [if_pos hnext]
        exact if_pos hnext
      · rw [if_neg hnext]
        exact if_neg hnext
    rw [if_neg hmore, hafter]
    exact ⟨rfl, loopTest_alive cfg _⟩

/-- The worker writes: the relay's client sends. -/
theorem writeStep_counts (h : Sound s) {done n : Nat}
    (hpc : s.worker.pc = .writeFull done)
    (hstep : writeStep cfg s done n = some t) :
    Sound t ∧ Relay.step (relay cfg toServer toClient) s.counts (.send n) =
      some t.counts := by
  unfold writeStep at hstep
  split at hstep
  · rename_i hguard
    obtain ⟨inbound, hpush, rfl⟩ := Option.map_eq_some_iff.mp hstep
    have hchunk : (((sendBuf cfg).drop done).take n).length = n := length_chunk hguard.2
    have hroom := (Channel.push_some hpush).1
    have hlength := Channel.length_push hpush
    rw [hchunk] at hroom hlength
    have hmove : 0 < n ∧ done + n ≤ cfg.payloadSize ∧
        s.inbound.length + n ≤ toServer := ⟨hguard.1, hguard.2, hroom⟩
    obtain ⟨hphase, hreq, halive⟩ :=
      wrote_phase (w := s.worker) toServer toClient hguard.1 hguard.2
    have hsending : phase s.worker.pc = .sending done := by
      rw [hpc]
      rfl
    refine ⟨⟨h.slot, halive⟩, ?_⟩
    simp only [Relay.step, State.counts, hsending, hlength, hreq, hphase]
    exact if_pos hmove
  · cases hstep

/-- The worker reads: the relay's client receives. -/
theorem readStep_counts (h : Sound s) {done n : Nat}
    (hpc : s.worker.pc = .readFull done)
    (hstep : readStep cfg s done n = some t) :
    Sound t ∧ Relay.step (relay cfg toServer toClient) s.counts (.receive n) =
      some t.counts := by
  unfold readStep at hstep
  split at hstep
  · rename_i hguard
    obtain ⟨⟨bytes, outbound⟩, hpop, rfl⟩ := Option.map_eq_some_iff.mp hstep
    have hbytes := (Channel.pop_some hpop).1
    have hlength := Channel.length_pop hpop
    have hleft : outbound.length = s.outbound.length - n := by omega
    have hmove : 0 < n ∧ done + n ≤ cfg.payloadSize ∧ n ≤ s.outbound.length := by
      omega
    subst hbytes
    obtain ⟨hafter, halive⟩ :=
      received_phase (w := s.worker) toServer toClient hguard.1 hguard.2
    have hreceiving : phase s.worker.pc = .receiving done := by
      rw [hpc]
      rfl
    refine ⟨⟨h.slot, halive⟩, ?_⟩
    simp only [Relay.step, State.counts, hreceiving, hleft, ← hafter]
    exact if_pos hmove
  · cases hstep

/-- What `poll` reports of a slot in order: input. -/
theorem revents_pollin (hevents : s.slot.pfd.events = POLLIN)
    (hin : 0 < s.inbound.length) : s.revents = POLLIN := by
  simp [State.revents, hevents, POLLIN, hin]

/-- Or room for output. -/
theorem revents_pollout (hevents : s.slot.pfd.events = POLLOUT)
    (hout : s.outbound.length < toClient) : s.revents = POLLOUT := by
  simp [State.revents, hevents, POLLOUT, hout]

/-- The slot reads: the relay fetches. -/
theorem fetchStep_counts (h : Sound s) {n : Nat}
    (hready : s.revents.pollin = true) (hstep : fetchStep s n = some t) :
    Sound t ∧ Relay.step (relay cfg toServer toClient) s.counts (.fetch n) =
      some t.counts := by
  unfold fetchStep at hstep
  split at hstep
  · rename_i hguard
    obtain ⟨⟨bytes, inbound⟩, hpop, rfl⟩ := Option.map_eq_some_iff.mp hstep
    have hbytes := (Channel.pop_some hpop).1
    have hlength := Channel.length_pop hpop
    have hready' : s.slot.pfd.events.pollin = true ∧ 0 < s.inbound.length := by
      simpa [State.revents] using hready
    rcases h.slot.events with ⟨hevents, hused, hsent⟩ | ⟨hevents, _, _⟩
    · have hrevents := revents_pollin hevents hready'.2
      have hslot := serveSlot_fetch (x := s.polled) h.slot.live hrevents
        (hused.trans hsent.symm) (by omega : 0 < bytes.length)
      have hmove : s.slot.conn.used - s.slot.conn.sent = 0 ∧ 0 < n ∧
          n ≤ bufferSize ∧ n ≤ s.inbound.length := by omega
      have hleft : inbound.length = s.inbound.length - n := by omega
      dsimp only
      rw [hslot]
      refine ⟨⟨⟨h.slot.live, .inr ⟨rfl, ?_, ?_⟩⟩, h.alive⟩, ?_⟩
      · show 0 < bytes.length
        omega
      · show bytes.length ≤ bufferSize
        omega
      · simp only [Relay.step, State.counts, hbytes, hleft]
        exact if_pos hmove
    · rw [hevents] at hready'
      cases hready'.1
  · cases hstep

/-- The slot writes: the relay forwards. -/
theorem forwardStep_counts (h : Sound s) {n : Nat}
    (hready : s.revents.pollout = true) (hstep : forwardStep s n = some t) :
    Sound t ∧ Relay.step (relay cfg toServer toClient) s.counts (.forward n) =
      some t.counts := by
  unfold forwardStep at hstep
  split at hstep
  · rename_i hguard
    obtain ⟨outbound, hpush, rfl⟩ := Option.map_eq_some_iff.mp hstep
    have hpending := h.slot.length_pending
    have hchunk : (s.slot.conn.pending.take n).length = n :=
      List.length_take_of_le hguard.2
    have hroom := (Channel.push_some hpush).1
    have hlength := Channel.length_push hpush
    rw [hchunk] at hroom hlength
    have hready' : s.slot.pfd.events.pollout = true ∧
        s.outbound.length < toClient := by
      simpa [State.revents] using hready
    rcases h.slot.events with ⟨hevents, _, _⟩ | ⟨hevents, hbusy, hused⟩
    · rw [hevents] at hready'
      cases hready'.1
    · have hrevents := revents_pollout hevents hready'.2
      have hslot := serveSlot_forward (x := s.polled) h.slot.live hrevents hbusy
        hguard.1
      have hmove : 0 < n ∧ n ≤ s.slot.conn.used - s.slot.conn.sent ∧
          s.outbound.length + n ≤ toClient := by omega
      rw [hslot]
      by_cases hall : s.polled.conn.sent + n = s.polled.conn.used
      · rw [if_pos hall]
        have hall' : s.slot.conn.sent + n = s.slot.conn.used := hall
        have hnone : s.slot.conn.used - s.slot.conn.sent - n = 0 := by omega
        refine ⟨⟨⟨h.slot.live, .inl ⟨rfl, rfl, rfl⟩⟩, h.alive⟩, ?_⟩
        simp only [Relay.step, State.counts, hlength]
        refine (if_pos hmove).trans ?_
        rw [hnone]
      · rw [if_neg hall]
        have hall' : s.slot.conn.sent + n ≠ s.slot.conn.used := hall
        have hsome : s.slot.conn.used - s.slot.conn.sent - n =
            s.slot.conn.used - (s.slot.conn.sent + n) := by omega
        refine ⟨⟨⟨h.slot.live, .inr ⟨hevents, ?_, hused⟩⟩, h.alive⟩, ?_⟩
        · show s.slot.conn.sent + n < s.slot.conn.used
          omega
        · simp only [Relay.step, State.counts, hlength]
          refine (if_pos hmove).trans ?_
          rw [hsome]
          rfl
  · cases hstep

/-- Every step is a move of the relay. -/
theorem step_counts (h : Sound s) {e : Event} (hstep : step cfg s e = some t) :
    Sound t ∧ ∃ m, Relay.step (relay cfg toServer toClient) s.counts m =
      some t.counts := by
  cases e with
  | write n =>
      simp only [step] at hstep
      split at hstep
      · rename_i done hpc
        obtain ⟨hsound, hmove⟩ := writeStep_counts h hpc hstep
        exact ⟨hsound, _, hmove⟩
      · cases hstep
  | read n =>
      simp only [step] at hstep
      split at hstep
      · rename_i done hpc
        obtain ⟨hsound, hmove⟩ := readStep_counts h hpc hstep
        exact ⟨hsound, _, hmove⟩
      · cases hstep
  | serve n =>
      simp only [step] at hstep
      split at hstep
      · rename_i hready
        obtain ⟨hsound, hmove⟩ := fetchStep_counts h hready hstep
        exact ⟨hsound, _, hmove⟩
      · split at hstep
        · rename_i hready
          obtain ⟨hsound, hmove⟩ := forwardStep_counts h hready hstep
          exact ⟨hsound, _, hmove⟩
        · cases hstep

/-- A guarded answer is given only where the guard holds. -/
theorem guard_of_some {α : Type*} {p : Prop} [Decidable p] {x y : α}
    (h : (if p then some x else none) = some y) : p := by
  by_contra hp
  rw [if_neg hp] at h
  cases h

/-- With room in the channel the worker's `write` returns. -/
theorem exists_writeStep {done n : Nat} (hn : 0 < n)
    (hdone : done + n ≤ cfg.payloadSize)
    (hroom : s.inbound.length + n ≤ toServer) :
    ∃ t, writeStep cfg s done n = some t := by
  have hchunk : (((sendBuf cfg).drop done).take n).length = n := length_chunk hdone
  rw [← hchunk] at hroom
  obtain ⟨inbound, hpush⟩ := Channel.exists_push hroom
  rw [writeStep, if_pos ⟨hn, hdone⟩, hpush]
  exact ⟨_, rfl⟩

/-- With bytes in the channel its `read` returns. -/
theorem exists_readStep {done n : Nat} (hn : 0 < n)
    (hdone : done + n ≤ cfg.payloadSize) (hbytes : n ≤ s.outbound.length) :
    ∃ t, readStep cfg s done n = some t := by
  obtain ⟨bytes, outbound, hpop⟩ := Channel.exists_pop hbytes
  rw [readStep, if_pos ⟨hn, hdone⟩, hpop]
  exact ⟨_, rfl⟩

/-- A slot with an empty buffer is served on input. -/
theorem exists_fetchStep (h : Sound s) {n : Nat}
    (hheld : s.slot.conn.used - s.slot.conn.sent = 0) (hn : 0 < n)
    (hblock : n ≤ bufferSize) (hbytes : n ≤ s.inbound.length) :
    ∃ t, s.revents.pollin = true ∧ fetchStep s n = some t := by
  rcases h.slot.events with ⟨hevents, _, _⟩ | ⟨_, hbusy, _⟩
  · obtain ⟨bytes, inbound, hpop⟩ := Channel.exists_pop hbytes
    have hrevents := revents_pollin hevents (by omega)
    rw [hrevents, fetchStep, if_pos ⟨hn, hblock⟩, hpop]
    exact ⟨_, rfl, rfl⟩
  · omega

/-- A slot with bytes to write is served when there is room for them. -/
theorem exists_forwardStep (h : Sound s) {n : Nat} (hn : 0 < n)
    (hheld : n ≤ s.slot.conn.used - s.slot.conn.sent)
    (hroom : s.outbound.length + n ≤ toClient) :
    ∃ t, s.revents.pollin = false ∧ s.revents.pollout = true ∧
      forwardStep s n = some t := by
  have hpending := h.slot.length_pending
  rcases h.slot.events with ⟨_, hused, hsent⟩ | ⟨hevents, _, _⟩
  · omega
  · have hrevents := revents_pollout hevents (by omega)
    have hlen : n ≤ s.slot.conn.pending.length := by omega
    have hchunk : (s.slot.conn.pending.take n).length = n :=
      List.length_take_of_le hlen
    rw [← hchunk] at hroom
    obtain ⟨outbound, hpush⟩ := Channel.exists_push hroom
    rw [hrevents, forwardStep, if_pos ⟨hn, hlen⟩, hpush]
    exact ⟨_, rfl, rfl, rfl⟩

/-- Every move of the relay is a step. -/
theorem step_lift (h : Sound s) {m : Relay.Move} {u : Relay.State}
    (hmove : Relay.step (relay cfg toServer toClient) s.counts m = some u) :
    ∃ e t, step cfg s e = some t ∧ t.counts = u := by
  cases m with
  | send n =>
      rcases hpc : s.worker.pc with done | done | _ | message
      · have hguard : 0 < n ∧ done + n ≤ cfg.payloadSize ∧
            s.inbound.length + n ≤ toServer := by
          simp only [Relay.step, State.counts, hpc, phase] at hmove
          exact guard_of_some hmove
        obtain ⟨t, hstep⟩ := exists_writeStep hguard.1 hguard.2.1 hguard.2.2
        rw [(writeStep_counts h hpc hstep).2] at hmove
        exact ⟨.write n, t, by simp only [step, hpc, hstep], Option.some.inj hmove⟩
      · simp [Relay.step, State.counts, hpc, phase] at hmove
      · simp [Relay.step, State.counts, hpc, phase] at hmove
      · simp [Relay.step, State.counts, hpc, phase] at hmove
  | receive n =>
      rcases hpc : s.worker.pc with done | done | _ | message
      · simp [Relay.step, State.counts, hpc, phase] at hmove
      · have hguard : 0 < n ∧ done + n ≤ cfg.payloadSize ∧
            n ≤ s.outbound.length := by
          simp only [Relay.step, State.counts, hpc, phase] at hmove
          exact guard_of_some hmove
        obtain ⟨t, hstep⟩ := exists_readStep hguard.1 hguard.2.1 hguard.2.2
        rw [(readStep_counts h hpc hstep).2] at hmove
        exact ⟨.read n, t, by simp only [step, hpc, hstep], Option.some.inj hmove⟩
      · simp [Relay.step, State.counts, hpc, phase] at hmove
      · simp [Relay.step, State.counts, hpc, phase] at hmove
  | fetch n =>
      obtain ⟨hheld, hn, hblock, hbytes⟩ := guard_of_some hmove
      obtain ⟨t, hready, hstep⟩ := exists_fetchStep h hheld hn hblock hbytes
      rw [(fetchStep_counts h hready hstep).2] at hmove
      exact ⟨.serve n, t, by simp only [step, hready, if_true, hstep],
        Option.some.inj hmove⟩
  | forward n =>
      obtain ⟨hn, hheld, hroom⟩ := guard_of_some hmove
      obtain ⟨t, hidle, hready, hstep⟩ := exists_forwardStep h hn hheld hroom
      rw [(forwardStep_counts h hready hstep).2] at hmove
      exact ⟨.serve n, t, by
        simp only [step, hidle, hready, if_true, hstep, Bool.false_eq_true,
          if_false], Option.some.inj hmove⟩

/-! ## The pair is a relay -/

/-- A fresh connection on descriptor `fd`. -/
def connected (cfg : Config) (fd : Nat) : State toServer toClient where
  worker := .start cfg 0
  slot :=
    { pfd := { fd := fd, events := POLLIN, revents := noFlags }
      conn := { PollServer.zeroConnection with fd := fd }
      trace := [.accept fd] }
  inbound := .empty
  outbound := .empty

theorem connected_init (cfg : Config) (fd : Nat) :
    (system cfg toServer toClient).init (connected cfg fd) :=
  ⟨⟨0, rfl⟩, Int.natCast_nonneg fd, rfl, rfl, rfl, rfl, rfl⟩

theorem Connected.sound (h : Connected cfg s) : Sound s := by
  obtain ⟨⟨bytes, hworker⟩, hlive, hevents, hused, hsent, _, _⟩ := h
  refine ⟨⟨hlive, .inl ⟨hevents, hused, hsent⟩⟩, ?_⟩
  rw [hworker]
  exact loopTest_alive cfg 0

theorem Connected.counts (h : Connected cfg s) :
    s.counts = Relay.start (relay cfg toServer toClient) := by
  obtain ⟨⟨bytes, hworker⟩, _, _, hused, hsent, hin, hout⟩ := h
  have hphase : phase (loopTest cfg 0) =
      (Relay.start (relay cfg toServer toClient)).phase := by
    unfold loopTest
    split
    · rename_i hmore
      exact (if_pos hmore).symm
    · rename_i hnone
      exact (if_neg hnone).symm
  rw [State.counts, hworker, hused, hsent, hin, hout]
  simp only [Worker.start, hphase]
  rfl

/-- Counted in bytes, the worker and the server are a relay. -/
theorem abstracts (cfg : Config) (toServer toClient : Nat) :
    (system cfg toServer toClient).Abstracts
      (Relay.system (relay cfg toServer toClient)) State.counts Sound where
  init_inv _ hs := Connected.sound hs
  step_inv _ _ _ h hstep := (step_counts h hstep).1
  init _ hs := Connected.counts hs
  init_lift _ hu :=
    ⟨connected cfg 0, connected_init cfg 0,
      (Connected.counts (connected_init cfg 0)).trans hu.symm⟩
  step _ _ _ h hstep := (step_counts h hstep).2
  step_lift _ _ _ h hmove := step_lift h hmove

/-- The worker that has not died is finished when it is past `close`. -/
theorem Sound.phase_finished (h : Sound s) :
    s.counts.phase = .finished ↔ s.worker.pc = .closed := by
  show phase s.worker.pc = .finished ↔ _
  rcases hpc : s.worker.pc with done | done | _ | message
  · simp [phase]
  · simp [phase]
  · simp [phase]
  · exact absurd hpc (h.alive message)

/-- For every number of requests, every pair of capacities and every
interleaving: in every reachable state in which the worker has not completed its
requests one of the two programs can move, if and only if a payload fits into
the two channels with a byte to spare. -/
theorem never_stuck_iff (hpayload : 1 ≤ cfg.payloadSize)
    (hrequests : 1 ≤ cfg.requestsPerConnection) (hserver : 1 ≤ toServer)
    (hclient : 1 ≤ toClient) :
    (∀ s, (system cfg toServer toClient).Reachable s → s.worker.pc ≠ .closed →
      ∃ e t, step cfg s e = some t) ↔
    cfg.payloadSize ≤ toServer + toClient + 1 := by
  have habs := abstracts cfg toServer toClient
  have hblock : 0 < bufferSize := by decide
  have hlive := Relay.live_iff (c := relay cfg toServer toClient) hrequests
    hpayload hserver hclient hblock
  refine Iff.trans ?_ hlive
  constructor
  · intro hmoves u hu hphase
    obtain ⟨s, hs, rfl⟩ := habs.reachable_lift hu
    have hopen : s.worker.pc ≠ .closed := fun hclosed =>
      hphase ((habs.inv hs).phase_finished.mpr hclosed)
    exact (habs.enabled_iff hs).mp (hmoves s hs hopen)
  · intro hmoves s hs hopen
    have hphase : s.counts.phase ≠ .finished := fun hfinished =>
      hopen ((habs.inv hs).phase_finished.mp hfinished)
    exact (habs.enabled_iff hs).mpr (hmoves _ (habs.reachable hs) hphase)

end Model

/-- `never_stuck_iff` for a payload of three bytes on channels of one. -/
theorem never_stuck_three : 3 ≤ 1 + 1 + 1 ∧
    ∀ s, (system ⟨3, 1⟩ 1 1).Reachable s → s.worker.pc ≠ .closed →
      ∃ e t, step ⟨3, 1⟩ s e = some t := by
  have hfits : 3 ≤ 1 + 1 + 1 := by decide
  have hpayload : 1 ≤ (⟨3, 1⟩ : Config).payloadSize := by decide
  have hrequests : 1 ≤ (⟨3, 1⟩ : Config).requestsPerConnection := by decide
  have hone : 1 ≤ 1 := by decide
  exact ⟨hfits, (never_stuck_iff hpayload hrequests hone hone).mpr hfits⟩

/-- A payload of four bytes jams them: the worker has written three, one in each
channel and one in the slot's buffer, and nobody can move. -/
theorem four_bytes_jam : ∃ s, (system ⟨4, 1⟩ 1 1).Reachable s ∧
    s.worker.pc = .writeFull 3 ∧ ∀ e, step ⟨4, 1⟩ s e = none := by
  have h₀ : (system ⟨4, 1⟩ 1 1).Reachable (connected ⟨4, 1⟩ 5) :=
    .start (connected_init ⟨4, 1⟩ 5)
  obtain ⟨s, hs, hpc, hcounts⟩ : ∃ s, (system ⟨4, 1⟩ 1 1).Reachable s ∧
      s.worker.pc = .writeFull 3 ∧ s.counts = ⟨.sending 3, 0, 1, 1, 1⟩ :=
    ⟨_, (((((h₀.step (e := Event.write 1) rfl).step (e := Event.serve 1) rfl).step
      (e := Event.serve 1) rfl).step (e := Event.write 1) rfl).step
      (e := Event.serve 1) rfl).step (e := Event.write 1) rfl, rfl, rfl⟩
  have hstuck : Relay.Stuck (relay ⟨4, 1⟩ 1 1) s.counts := by
    rw [hcounts]
    exact ⟨⟨3, rfl⟩, rfl, Nat.one_pos, rfl⟩
  refine ⟨s, hs, hpc, ?_⟩
  intro e
  by_contra hmoves
  obtain ⟨t, hstep⟩ := Option.ne_none_iff_exists'.mp hmoves
  exact hstuck.not_enabled (((abstracts ⟨4, 1⟩ 1 1).enabled_iff hs).mp ⟨e, t, hstep⟩)

end SysLab.PartB.LockStep
