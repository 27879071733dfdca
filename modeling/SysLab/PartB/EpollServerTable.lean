import SysLab.PartB.EpollServer

/-!
# The table and the interest list of the `epoll` server

One invariant ties together the connection table, the kernel's interest list,
the descriptors the kernel has open and the events of the current batch that
are still to come.  As for the `poll` server, `SlotOk` is what one connection
owes, `Served` what one connection event can do to it, and `Inv` the whole;
`PendingOk` is the part about raw pointers in the rest of the batch.
-/

namespace SysLab.PartB.EpollServer

open SysLab.Foundation
open SysLab.Foundation.Transcript

/-! ## What one connection owes -/

/-- A free connection is blank.  A live one is registered under its own
pointer, for input with an empty buffer or for output with a non-empty one,
and its pending bytes are exactly those read and not yet echoed. -/
structure SlotOk (x : Slot) : Prop where
  free : x.conn.fd < 0 →
    x.conn.fd = -1 ∧ x.conn.used = 0 ∧ x.conn.sent = 0
  busy : 0 ≤ x.conn.fd →
    (x.interest x.conn.fd = some ⟨armedForInput, some x.index⟩ ∧
      x.conn.used = 0 ∧ x.conn.sent = 0) ∨
    (x.interest x.conn.fd = some ⟨armedForOutput, some x.index⟩ ∧
      x.conn.sent < x.conn.used ∧ x.conn.used ≤ bufferSize)
  conserved : 0 ≤ x.conn.fd →
    Conserved x.trace x.conn.fd x.conn.pending

/-- What a connection event does: a half-duplex session that leaves the
connection open, or one that ends in `close`.  No other descriptor's
registration moves. -/
inductive Served (x y : Slot) : Prop
  | kept : y.conn.fd = x.conn.fd → y.index = x.index →
      (∀ k, k ≠ x.conn.fd → y.interest k = x.interest k) →
      Session x.conn.fd x.trace y.trace → Served x y
  | closed {h : Trace} : y.conn.fd = -1 → y.index = x.index →
      (∀ k, k ≠ x.conn.fd → y.interest k = x.interest k) →
      y.interest x.conn.fd = none → Session x.conn.fd x.trace h →
      y.trace = .close x.conn.fd :: h → Served x y

theorem SlotOk.cursors {x : Slot} (h : SlotOk x) (hfd : 0 ≤ x.conn.fd) :
    x.conn.sent ≤ x.conn.used ∧ x.conn.used ≤ bufferSize := by
  rcases h.busy hfd with ⟨_, hused, hsent⟩ | ⟨_, hlt, hcap⟩
  · omega
  · omega

theorem SlotOk.registered {x : Slot} (h : SlotOk x) (hfd : 0 ≤ x.conn.fd) :
    ∃ events, x.interest x.conn.fd = some ⟨events, some x.index⟩ := by
  rcases h.busy hfd with ⟨hreg, _⟩ | ⟨hreg, _⟩
  · exact ⟨_, hreg⟩
  · exact ⟨_, hreg⟩

/-- With the cursors together nothing is pending. -/
theorem pending_of_drained {conn : Connection} (h : conn.used = conn.sent) :
    conn.pending = [] := by
  rw [Connection.pending, h, Buffer.window_self]

theorem closeConnection_ok (x : Slot) : SlotOk (closeConnection x) where
  free _ := ⟨rfl, rfl, rfl⟩
  busy hfd := absurd hfd (by simp [closeConnection])
  conserved hfd := absurd hfd (by simp [closeConnection])

/-- Closing after a session on the connection's own descriptor. -/
theorem closeConnection_served {x y : Slot} (hfd : 0 ≤ x.conn.fd)
    (hy : y.conn.fd = x.conn.fd) (hindex : y.index = x.index)
    (hinterest : ∀ k, k ≠ x.conn.fd → y.interest k = x.interest k)
    (hs : Session x.conn.fd x.trace y.trace) :
    Served x (closeConnection y) := by
  refine .closed (h := y.trace) rfl hindex ?_ ?_ hs ?_
  · intro k hk
    simp [closeConnection, hy, hfd, forget, hk, hinterest]
  · simp [closeConnection, hy, hfd, forget]
  · simp [closeConnection, hy, hfd]

/-! ## The two branches -/

/-- The connection after its `read` returned. -/
def Slot.withRead (x : Slot) (rd : Except Errno (List UInt8)) : Slot :=
  { x with trace := .read x.conn.fd bufferSize rd :: x.trace }

/-- The connection after its `write` returned. -/
def Slot.withWrite (x : Slot) (wr : Except Errno Nat) : Slot :=
  { x with trace := .write x.conn.fd x.conn.pending wr :: x.trace }

/-- The connection with `bytes` in its buffer, armed for output. -/
def Slot.filled (x : Slot) (bytes : List UInt8) : Slot :=
  { x with
    conn := { x.conn with
      buffer := x.conn.buffer.store bytes, used := bytes.length, sent := 0 }
    interest := Function.update x.interest x.conn.fd
      (some ⟨armedForOutput, some x.index⟩) }

/-- The connection with an empty buffer, armed for input. -/
def Slot.drained (x : Slot) : Slot :=
  { x with
    conn := { x.conn with used := 0, sent := 0 }
    interest := Function.update x.interest x.conn.fd
      (some ⟨armedForInput, some x.index⟩) }

/-- The connection with `n` more bytes sent. -/
def Slot.advanced (x : Slot) (n : Nat) : Slot :=
  { x with conn := { x.conn with sent := x.conn.sent + n } }

/-- All a read branch can do on a registered connection. -/
inductive ReadOutcome (x : Slot) (revents : EpollFlags)
    (rd : Except Errno (List UInt8)) : Flow × Slot → Prop
  | skipped : ¬ (revents.epollin = true ∧ x.conn.used = x.conn.sent) →
      ReadOutcome x revents rd (.fallThrough, x)
  | blocked (e : Errno) : revents.epollin = true → x.conn.used = x.conn.sent →
      rd = .error e → e.wouldBlock = true →
      ReadOutcome x revents rd (.continueBatch, x.withRead rd)
  | closed : revents.epollin = true → x.conn.used = x.conn.sent →
      (rd = .ok [] ∨ ∃ e, rd = .error e ∧ e.wouldBlock = false) →
      ReadOutcome x revents rd
        (.continueBatch, closeConnection (x.withRead rd))
  | filled (bytes : List UInt8) : revents.epollin = true →
      x.conn.used = x.conn.sent → rd = .ok bytes → bytes ≠ [] →
      ReadOutcome x revents rd (.fallThrough, (x.withRead rd).filled bytes)

/-- All a write branch can do on a registered connection. -/
inductive WriteOutcome (x : Slot) (revents : EpollFlags)
    (wr : Except Errno Nat) : Flow × Slot → Prop
  | skipped : ¬ (revents.epollout = true ∧ x.conn.sent < x.conn.used) →
      WriteOutcome x revents wr (.fallThrough, x)
  | blocked (e : Errno) : revents.epollout = true →
      x.conn.sent < x.conn.used → wr = .error e → e.wouldBlock = true →
      WriteOutcome x revents wr (.continueBatch, x.withWrite wr)
  | closed : revents.epollout = true → x.conn.sent < x.conn.used →
      (wr = .ok 0 ∨ ∃ e, wr = .error e ∧ e.wouldBlock = false) →
      WriteOutcome x revents wr
        (.continueBatch, closeConnection (x.withWrite wr))
  | drained (n : Nat) : revents.epollout = true →
      x.conn.sent < x.conn.used → wr = .ok (n + 1) →
      x.conn.sent + (n + 1) = x.conn.used →
      WriteOutcome x revents wr (.fallThrough, (x.withWrite wr).drained)
  | advanced (n : Nat) : revents.epollout = true →
      x.conn.sent < x.conn.used → wr = .ok (n + 1) →
      x.conn.sent + (n + 1) ≠ x.conn.used →
      WriteOutcome x revents wr
        (.fallThrough, (x.withWrite wr).advanced (n + 1))

/-- The read branch never exits: the `EPOLL_CTL_MOD` of `arm_connection` meets
a registered descriptor. -/
theorem readBranch_outcome {x : Slot} {it : EpollEvent}
    (hreg : x.interest x.conn.fd = some it) (revents : EpollFlags)
    (rd : Except Errno (List UInt8)) :
    ReadOutcome x revents rd (readBranch x revents rd) := by
  by_cases hguard : revents.epollin = true ∧ x.conn.used = x.conn.sent
  · obtain ⟨hin, hempty⟩ := hguard
    rcases rd with e | _ | ⟨b, bs⟩
    · by_cases he : e.wouldBlock = true
      · have hout : readBranch x revents (.error e) =
            (.continueBatch, x.withRead (.error e)) := by
          simp [readBranch, Slot.withRead, hin, hempty, he]
        rw [hout]
        exact .blocked e hin hempty rfl he
      · have hout : readBranch x revents (.error e) =
            (.continueBatch, closeConnection (x.withRead (.error e))) := by
          simp [readBranch, Slot.withRead, hin, hempty, he]
        rw [hout]
        exact .closed hin hempty (.inr ⟨e, rfl, by simpa using he⟩)
    · have hout : readBranch x revents (.ok []) =
          (.continueBatch, closeConnection (x.withRead (.ok []))) := by
        simp [readBranch, Slot.withRead, hin, hempty]
      rw [hout]
      exact .closed hin hempty (.inl rfl)
    · have hout : readBranch x revents (.ok (b :: bs)) =
          (.fallThrough, (x.withRead (.ok (b :: bs))).filled (b :: bs)) := by
        simp [readBranch, Slot.withRead, Slot.filled, hin, hempty,
          armConnection, epollCtlMod, hreg]
      rw [hout]
      exact .filled (b :: bs) hin hempty rfl (List.cons_ne_nil b bs)
  · have hout : readBranch x revents rd = (.fallThrough, x) := by
      simp only [readBranch, hguard, if_false]
    rw [hout]
    exact .skipped hguard

/-- The write branch never exits either. -/
theorem writeBranch_outcome {x : Slot} {it : EpollEvent}
    (hreg : x.interest x.conn.fd = some it) (revents : EpollFlags)
    (wr : Except Errno Nat) :
    WriteOutcome x revents wr (writeBranch x revents wr) := by
  by_cases hguard : revents.epollout = true ∧ x.conn.sent < x.conn.used
  · obtain ⟨hwant, hlt⟩ := hguard
    rcases wr with e | _ | n
    · by_cases he : e.wouldBlock = true
      · have hout : writeBranch x revents (.error e) =
            (.continueBatch, x.withWrite (.error e)) := by
          simp [writeBranch, Slot.withWrite, hwant, hlt, he]
        rw [hout]
        exact .blocked e hwant hlt rfl he
      · have hout : writeBranch x revents (.error e) =
            (.continueBatch, closeConnection (x.withWrite (.error e))) := by
          simp [writeBranch, Slot.withWrite, hwant, hlt, he]
        rw [hout]
        exact .closed hwant hlt (.inr ⟨e, rfl, by simpa using he⟩)
    · have hout : writeBranch x revents (.ok 0) =
          (.continueBatch, closeConnection (x.withWrite (.ok 0))) := by
        simp [writeBranch, Slot.withWrite, hwant, hlt]
      rw [hout]
      exact .closed hwant hlt (.inl rfl)
    · by_cases hall : x.conn.sent + (n + 1) = x.conn.used
      · have hout : writeBranch x revents (.ok (n + 1)) =
            (.fallThrough, (x.withWrite (.ok (n + 1))).drained) := by
          simp [writeBranch, Slot.withWrite, Slot.drained, hwant, hlt, hall,
            armConnection, epollCtlMod, hreg]
        rw [hout]
        exact .drained n hwant hlt rfl hall
      · have hout : writeBranch x revents (.ok (n + 1)) =
            (.fallThrough, (x.withWrite (.ok (n + 1))).advanced (n + 1)) := by
          simp [writeBranch, Slot.withWrite, Slot.advanced, hwant, hlt, hall]
        rw [hout]
        exact .advanced n hwant hlt rfl hall
  · have hout : writeBranch x revents wr = (.fallThrough, x) := by
      simp only [writeBranch, hguard, if_false]
    rw [hout]
    exact .skipped hguard

/-- Where the read branch falls through, the connection is still registered. -/
theorem ReadOutcome.registered {x y : Slot} {revents : EpollFlags}
    {rd : Except Errno (List UInt8)}
    (h : ReadOutcome x revents rd (.fallThrough, y)) {it : EpollEvent}
    (hreg : x.interest x.conn.fd = some it) :
    ∃ it', y.interest y.conn.fd = some it' := by
  cases h with
  | skipped _ => exact ⟨it, hreg⟩
  | filled bytes _ _ _ _ => exact ⟨_, Function.update_self _ _ _⟩

/-- A `read` with an empty buffer is a session of one call. -/
theorem SlotOk.readSession {x : Slot} (hx : SlotOk x) (hfd : 0 ≤ x.conn.fd)
    (hempty : x.conn.used = x.conn.sent) (rd : Except Errno (List UInt8)) :
    Session x.conn.fd x.trace (x.withRead rd).trace := by
  have hcons := hx.conserved hfd
  rw [pending_of_drained hempty] at hcons
  exact Session.refl.read bufferSize rd hcons

/-- A `write` of the pending bytes is a session of one call. -/
theorem SlotOk.writeSession {x : Slot} (hx : SlotOk x) (hfd : 0 ≤ x.conn.fd)
    (wr : Except Errno Nat) :
    Session x.conn.fd x.trace (x.withWrite wr).trace :=
  Session.refl.write x.conn.pending wr (hx.conserved hfd)

/-- The read branch keeps the connection in order, never exits, and leaves it
open if it falls through. -/
theorem readBranch_spec {base : Finset Int} {x : Slot} {revents : EpollFlags}
    {rd : Except Errno (List UInt8)} (hx : SlotOk x) (hfd : 0 ≤ x.conn.fd)
    (hk : KernelOk base (readBranch x revents rd).2.trace) :
    SlotOk (readBranch x revents rd).2 ∧
      Served x (readBranch x revents rd).2 ∧
      ((readBranch x revents rd).1 = .continueBatch ∨
        (readBranch x revents rd).1 = .fallThrough ∧
          (readBranch x revents rd).2.conn.fd = x.conn.fd) := by
  obtain ⟨events, hreg⟩ := hx.registered hfd
  have houtcome := readBranch_outcome hreg revents rd
  revert houtcome hk
  generalize readBranch x revents rd = out
  intro hk houtcome
  cases houtcome with
  | skipped _ =>
      exact ⟨hx, .kept rfl rfl (fun _ _ => rfl) .refl, .inr ⟨rfl, rfl⟩⟩
  | blocked e _ hempty hrd _ =>
      refine ⟨⟨hx.free, hx.busy, fun _ => ?_⟩, .kept rfl rfl (fun _ _ => rfl)
        (hx.readSession hfd hempty rd), .inl rfl⟩
      subst hrd
      exact (hx.conserved hfd).idle rfl rfl rfl
  | closed _ hempty _ =>
      exact ⟨closeConnection_ok _, closeConnection_served hfd rfl rfl
        (fun _ _ => rfl) (hx.readSession hfd hempty rd), .inl rfl⟩
  | filled bytes _ hempty hrd hbytes =>
      subst hrd
      have hlen : bytes.length ≤ bufferSize := hk.1
      have hpos : 0 < bytes.length := List.length_pos_of_ne_nil hbytes
      refine ⟨⟨fun hneg => absurd hfd (not_le.mpr hneg), fun _ => ?_, fun _ => ?_⟩,
        .kept rfl rfl (fun k hk => Function.update_of_ne hk _ _)
          (hx.readSession hfd hempty _), .inr ⟨rfl, rfl⟩⟩
      · exact .inr ⟨Function.update_self _ _ _, hpos, hlen⟩
      · have hcons := hx.conserved hfd
        rw [pending_of_drained hempty] at hcons
        have hread := hcons.read bufferSize bytes
        rw [List.nil_append] at hread
        show Conserved _ _ ((x.conn.buffer.store bytes).window 0 bytes.length)
        rw [Buffer.window_store _ hlen]
        exact hread

/-- The write branch keeps the connection in order and never exits. -/
theorem writeBranch_spec {base : Finset Int} {x : Slot} {revents : EpollFlags}
    {wr : Except Errno Nat} (hx : SlotOk x) (hfd : 0 ≤ x.conn.fd)
    (hk : KernelOk base (writeBranch x revents wr).2.trace) :
    SlotOk (writeBranch x revents wr).2 ∧
      Served x (writeBranch x revents wr).2 ∧
      ∀ why, (writeBranch x revents wr).1 ≠ .exits why := by
  obtain ⟨events, hreg⟩ := hx.registered hfd
  have houtcome := writeBranch_outcome hreg revents wr
  revert houtcome hk
  generalize writeBranch x revents wr = out
  intro hk houtcome
  cases houtcome with
  | skipped _ =>
      exact ⟨hx, .kept rfl rfl (fun _ _ => rfl) .refl, fun why h => by cases h⟩
  | blocked e _ _ hwr _ =>
      refine ⟨⟨hx.free, hx.busy, fun _ => ?_⟩, .kept rfl rfl (fun _ _ => rfl)
        (hx.writeSession hfd wr), fun why h => by cases h⟩
      subst hwr
      exact (hx.conserved hfd).idle rfl rfl rfl
  | closed _ _ _ =>
      exact ⟨closeConnection_ok _, closeConnection_served hfd rfl rfl
        (fun _ _ => rfl) (hx.writeSession hfd wr), fun why h => by cases h⟩
  | drained n _ _ hwr hall =>
      subst hwr
      refine ⟨⟨fun hneg => absurd hfd (not_le.mpr hneg),
        fun _ => .inl ⟨Function.update_self _ _ _, rfl, rfl⟩, fun _ => ?_⟩,
        .kept rfl rfl (fun k hk => Function.update_of_ne hk _ _)
          (hx.writeSession hfd _), fun why h => by cases h⟩
      have hmoved := (hx.conserved hfd).write (n + 1)
      rw [Connection.pending, Buffer.drop_window, hall, Buffer.window_self]
        at hmoved
      show Conserved _ _ (x.conn.buffer.window 0 0)
      rw [Buffer.window_self]
      exact hmoved
  | advanced n _ hlt hwr hall =>
      subst hwr
      obtain ⟨_, hcap⟩ := hx.cursors hfd
      have hn : n + 1 ≤ x.conn.pending.length := hk.1
      rw [Connection.pending, Buffer.length_window _ hcap] at hn
      have hless : x.conn.sent + (n + 1) < x.conn.used := by omega
      refine ⟨⟨fun hneg => absurd hfd (not_le.mpr hneg), fun _ => ?_, fun _ => ?_⟩,
        .kept rfl rfl (fun _ _ => rfl) (hx.writeSession hfd _),
        fun why h => by cases h⟩
      · rcases hx.busy hfd with ⟨_, hused, _⟩ | ⟨hmask, _, _⟩
        · omega
        · exact .inr ⟨hmask, hless, hcap⟩
      · have hmoved := (hx.conserved hfd).write (n + 1)
        rw [Connection.pending, Buffer.drop_window] at hmoved
        exact hmoved

theorem closeConnection_suffix {h : Trace} (y : Slot) (hy : h <:+ y.trace) :
    h <:+ (closeConnection y).trace := by
  simp only [closeConnection]
  split
  · exact hy.trans (List.suffix_cons _ _)
  · exact hy

/-- The write branch only adds calls. -/
theorem writeBranch_suffix {x : Slot} {it : EpollEvent}
    (hreg : x.interest x.conn.fd = some it) (revents : EpollFlags)
    (wr : Except Errno Nat) :
    x.trace <:+ (writeBranch x revents wr).2.trace := by
  have hcall : x.trace <:+ (x.withWrite wr).trace := List.suffix_cons _ _
  have houtcome := writeBranch_outcome hreg revents wr
  revert houtcome
  generalize writeBranch x revents wr = out
  intro houtcome
  cases houtcome with
  | skipped _ => exact List.suffix_refl _
  | blocked e _ _ _ _ => exact hcall
  | closed _ _ _ => exact closeConnection_suffix _ hcall
  | drained n _ _ _ _ => exact hcall
  | advanced n _ _ _ _ => exact hcall

/-- A kept connection served again is served from the start. -/
theorem Served.trans {x y z : Slot} (hfd : y.conn.fd = x.conn.fd)
    (hindex : y.index = x.index)
    (hinterest : ∀ k, k ≠ x.conn.fd → y.interest k = x.interest k)
    (hs : Session x.conn.fd x.trace y.trace) (h : Served y z) :
    Served x z := by
  have hagree : (∀ k, k ≠ y.conn.fd → z.interest k = y.interest k) →
      ∀ k, k ≠ x.conn.fd → z.interest k = x.interest k := by
    intro hz k hk
    rw [hz k (hfd ▸ hk), hinterest k hk]
  cases h with
  | kept hz hzi hzint hyz =>
      exact .kept (hz.trans hfd) (hzi.trans hindex) (hagree hzint)
        (hs.trans (hfd ▸ hyz))
  | closed hz hzi hzint hgone hyz htrace =>
      exact .closed hz (hzi.trans hindex) (hagree hzint) (hfd ▸ hgone)
        (hs.trans (hfd ▸ hyz)) (by rw [htrace, hfd])

/-- A connection event keeps its connection in order and never exits: the
`EPOLL_CTL_MOD` of `arm_connection` meets a registered descriptor. -/
theorem handleEvent_spec {base : Finset Int} {x : Slot} {revents : EpollFlags}
    {rd : Except Errno (List UInt8)} {wr : Except Errno Nat}
    (hx : SlotOk x) (hfd : 0 ≤ x.conn.fd)
    (hk : KernelOk base (handleEvent x revents rd wr).2.trace) :
    SlotOk (handleEvent x revents rd wr).2 ∧
      Served x (handleEvent x revents rd wr).2 ∧
      ∀ why, (handleEvent x revents rd wr).1 ≠ .exits why := by
  unfold handleEvent at hk ⊢
  by_cases hbroken : revents.broken = true
  · rw [if_pos hbroken]
    exact ⟨closeConnection_ok x,
      closeConnection_served hfd rfl rfl (fun _ _ => rfl) .refl,
      fun why h => by cases h⟩
  rw [if_neg hbroken] at hk ⊢
  obtain ⟨events, hreg⟩ := hx.registered hfd
  have houtcome := readBranch_outcome hreg revents rd
  rcases hread : readBranch x revents rd with ⟨flow, y⟩
  rw [hread] at hk houtcome
  have hky : KernelOk base y.trace := by
    cases flow with
    | fallThrough =>
        obtain ⟨it, hy⟩ := houtcome.registered hreg
        exact hk.of_suffix (writeBranch_suffix hy revents wr)
    | continueBatch => exact hk
    | exits why => exact hk
  have hkr : KernelOk base (readBranch x revents rd).2.trace := by
    rw [hread]
    exact hky
  have hspec := readBranch_spec hx hfd hkr
  rw [hread] at hspec
  obtain ⟨hy, hserved, hflow⟩ := hspec
  rcases hflow with hflow | ⟨hflow, hyfd⟩
  · simp only at hflow
    subst hflow
    exact ⟨hy, hserved, fun why h => by cases h⟩
  · simp only at hflow hyfd
    subst hflow
    have hwrite := writeBranch_spec hy (hyfd ▸ hfd) hk
    cases hserved with
    | kept _ hindex hinterest hsess =>
        exact ⟨hwrite.1, hwrite.2.1.trans hyfd hindex hinterest hsess,
          hwrite.2.2⟩
    | closed hneg _ _ _ _ _ =>
        simp only at hneg
        omega

/-! ## The table and the interest list -/

/-- A connection counts as live while it holds a descriptor. -/
def Connection.Live (conn : Connection) : Prop := 0 ≤ conn.fd

/-- The live connections hold exactly the descriptors `fds`, each once. -/
abbrev Tabled (maxClients : Nat) (conns : Nat → Connection)
    (fds : Finset Int) : Prop :=
  Registers (Set.Iio maxClients) Connection.Live Connection.fd conns
    (fds : Set Int)

/-- Every connection is in order; table, open clients and interest list agree;
every call made so far was in order. -/
structure Core (maxClients : Nat) (base : Finset Int) (listenFd : Int)
    (s : State) : Prop where
  slots : ∀ i, i < maxClients → SlotOk (s.slot i)
  table : Tabled maxClients s.conns (clients base s.trace)
  listener : s.interest listenFd = some ⟨EPOLLIN, none⟩
  registered : ∀ fd, (s.interest fd).isSome →
    fd = listenFd ∨ fd ∈ clients base s.trace
  lawful : Lawful base s.trace
  halfDuplex : HalfDuplex s.trace

/-- The slot behind an event's pointer still holds the descriptor the event
was generated for. -/
def PointsRight (maxClients : Nat) (listenFd : Int)
    (conns : Nat → Connection) (ev : Ready) : Prop :=
  (ev.ptr = none ∧ ev.fd = listenFd) ∨
    ∃ i, ev.ptr = some i ∧ i < maxClients ∧ (conns i).fd = ev.fd ∧ 0 ≤ ev.fd

/-- The events of a batch still to come: one per descriptor, none stale. -/
structure PendingOk (maxClients : Nat) (listenFd : Int)
    (conns : Nat → Connection) (evs : List Ready) : Prop where
  distinct : (evs.map Ready.fd).Nodup
  pointsRight : ∀ ev ∈ evs, PointsRight maxClients listenFd conns ev

/-- The events the loop has not finished with. -/
def Pc.pending : Pc → List Ready
  | .wait => []
  | .accept rest => rest
  | .event _ ev rest => ev :: rest
  | .exited _ => []

/-- The invariant of the event loop. -/
structure Inv (maxClients : Nat) (base : Finset Int) (listenFd : Int)
    (s : State) : Prop where
  core : Core maxClients base listenFd s
  pending : PendingOk maxClients listenFd s.conns s.pc.pending
  current : ∀ i ev rest, s.pc = .event i ev rest → ev.ptr = some i

section Invariant

variable {maxClients : Nat} {base : Finset Int} {listenFd : Int} {s : State}

theorem Core.with_pc (h : Core maxClients base listenFd s) (pc : Pc) :
    Core maxClients base listenFd { s with pc := pc } :=
  ⟨h.slots, h.table, h.listener, h.registered, h.lawful, h.halfDuplex⟩

/-- A live connection holds a client the kernel has open. -/
theorem Core.mem_clients (h : Core maxClients base listenFd s) {i : Nat}
    (hi : i < maxClients) (hfd : 0 ≤ (s.conns i).fd) :
    (s.conns i).fd ∈ clients base s.trace :=
  Finset.mem_coe.mp (h.table.mem hi hfd)

/-- Two live connections hold different descriptors. -/
theorem Core.fd_ne (h : Core maxClients base listenFd s) {i j : Nat}
    (hi : i < maxClients) (hli : 0 ≤ (s.conns i).fd) (hj : j < maxClients)
    (hlj : 0 ≤ (s.conns j).fd) (hne : j ≠ i) :
    (s.conns i).fd ≠ (s.conns j).fd := fun heq =>
  hne (h.table.eq_of_key_eq hi hli hj hlj heq).symm

theorem PendingOk.nil (conns : Nat → Connection) :
    PendingOk maxClients listenFd conns [] :=
  ⟨List.nodup_nil, fun _ h => absurd h List.not_mem_nil⟩

theorem PendingOk.tail {conns : Nat → Connection} {ev : Ready}
    {rest : List Ready}
    (h : PendingOk maxClients listenFd conns (ev :: rest)) :
    PendingOk maxClients listenFd conns rest :=
  ⟨(List.nodup_cons.mp h.distinct).2,
    fun e he => h.pointsRight e (List.mem_cons_of_mem ev he)⟩

/-- Changing a slot no pending event points into. -/
theorem PendingOk.update {conns : Nat → Connection} {evs : List Ready}
    (h : PendingOk maxClients listenFd conns evs) {i : Nat} {c : Connection}
    (hout : ∀ ev ∈ evs, 0 ≤ ev.fd → ev.fd ≠ (conns i).fd) :
    PendingOk maxClients listenFd (Function.update conns i c) evs := by
  refine ⟨h.distinct, ?_⟩
  intro ev hev
  rcases h.pointsRight ev hev with hlisten | ⟨j, hptr, hj, hfd, hpos⟩
  · exact .inl hlisten
  · refine .inr ⟨j, hptr, hj, ?_, hpos⟩
    have hji : j ≠ i := by
      rintro rfl
      exact hout ev hev hpos hfd.symm
    rw [Function.update_of_ne hji]
    exact hfd

/-- The loop turns to the next event of the batch. -/
theorem dispatch_inv {evs : List Ready}
    (h : Core maxClients base listenFd s)
    (hevs : PendingOk maxClients listenFd s.conns evs) :
    Inv maxClients base listenFd { s with pc := dispatch evs } := by
  rcases evs with _ | ⟨ev, rest⟩
  · exact ⟨h.with_pc _, PendingOk.nil _, fun i ev rest hpc => by cases hpc⟩
  · rcases hptr : ev.ptr with _ | i
    · have hpc : dispatch (ev :: rest) = .accept rest := by
        simp [dispatch, hptr]
      rw [hpc]
      exact ⟨h.with_pc _, hevs.tail, fun i ev rest hpc => by cases hpc⟩
    · have hpc : dispatch (ev :: rest) = .event i ev rest := by
        simp [dispatch, hptr]
      rw [hpc]
      refine ⟨h.with_pc _, hevs, fun j ev' rest' hpc' => ?_⟩
      cases hpc'
      exact hptr

theorem minus_one_not_live : ¬ (0 : Int) ≤ -1 := by decide

theorem initial_inv : Inv maxClients base listenFd (initial listenFd) where
  core :=
    { slots := fun i _ =>
        ⟨fun _ => ⟨rfl, rfl, rfl⟩, fun h => absurd h minus_one_not_live,
          fun h => absurd h minus_one_not_live⟩
      table := by
        rw [Tabled, show clients base (initial listenFd).trace = ∅ from
          clients_nil base, Finset.coe_empty]
        refine Registers.empty ?_
        intro i _ hlive
        exact minus_one_not_live hlive
      listener := by simp [initial]
      registered := by
        intro fd hfd
        by_cases hl : fd = listenFd
        · exact .inl hl
        · simp [initial, hl] at hfd
      lawful := trivial
      halfDuplex := trivial }
  pending := PendingOk.nil _
  current i ev rest hpc := by cases hpc

/-- A batch of the kernel is not stale when it arrives. -/
theorem batch_pendingOk (h : Core maxClients base listenFd s)
    {batch : List Ready} (hbatch : BatchOk s batch) :
    PendingOk maxClients listenFd s.conns batch := by
  refine ⟨hbatch.1, ?_⟩
  intro ev hev
  obtain ⟨it, hit, hptr⟩ := Option.map_eq_some_iff.mp (hbatch.2 ev hev)
  by_cases hl : ev.fd = listenFd
  · rw [hl, h.listener] at hit
    cases hit
    exact .inl ⟨hptr.symm, hl⟩
  · have hmem : ev.fd ∈ clients base s.trace := by
      rcases h.registered ev.fd (by simp [hit]) with hlf | hmem
      · exact absurd hlf hl
      · exact hmem
    obtain ⟨i, hi, hlive, hkey⟩ := h.table.exists_slot (Finset.mem_coe.mpr hmem)
    obtain ⟨events, hreg⟩ := (h.slots i hi).registered hlive
    have hreg' : s.interest (s.conns i).fd = some ⟨events, some i⟩ := hreg
    rw [hkey, hit] at hreg'
    cases hreg'
    exact .inr ⟨i, hptr.symm, hi, hkey, hkey ▸ hlive⟩

theorem Served.index_eq {x y : Slot} (h : Served x y) : y.index = x.index := by
  cases h with
  | kept _ hindex _ _ => exact hindex
  | closed _ hindex _ _ _ _ => exact hindex

theorem Served.interest_eq {x y : Slot} (h : Served x y) :
    ∀ k, k ≠ x.conn.fd → y.interest k = x.interest k := by
  cases h with
  | kept _ _ hinterest _ => exact hinterest
  | closed _ _ hinterest _ _ _ => exact hinterest

/-- Storing `y` back leaves every slot right, if what happened is a frame for
the other descriptors. -/
theorem setSlot_slots {i : Nat} {y : Slot}
    (h : Core maxClients base listenFd s) (hi : i < maxClients)
    (hfd : 0 ≤ (s.conns i).fd) (hy : SlotOk y) (hindex : y.index = i)
    (hinterest : ∀ k, k ≠ (s.conns i).fd → y.interest k = s.interest k)
    (hframe : ∀ k p, (s.conns i).fd ≠ k → Conserved s.trace k p →
      Conserved y.trace k p) :
    ∀ j, j < maxClients → SlotOk ((s.setSlot y).slot j) := by
  intro j hj
  by_cases hji : j = i
  · subst hji
    have hself : (s.setSlot y).slot j = y := by
      subst hindex
      simp [State.slot, State.setSlot]
    rw [hself]
    exact hy
  · have hother : (s.setSlot y).slot j =
        ⟨j, s.conns j, y.interest, y.trace⟩ := by
      simp [State.slot, State.setSlot, hindex, hji]
    rw [hother]
    have hold := h.slots j hj
    refine ⟨hold.free, fun hlj => ?_, fun hlj => ?_⟩
    · have hne := (h.fd_ne hi hfd hj hlj hji).symm
      show (y.interest (s.conns j).fd = _ ∧ _) ∨
        (y.interest (s.conns j).fd = _ ∧ _)
      rw [hinterest _ hne]
      exact hold.busy hlj
    · exact hframe _ _ (h.fd_ne hi hfd hj hlj hji) (hold.conserved hlj)

/-- Storing a served connection back: the event is a frame for every other
slot, registration and pending event. -/
theorem setSlot_core {i : Nat} {y : Slot} (hlisten : listenFd ∈ base)
    (h : Core maxClients base listenFd s) (hi : i < maxClients)
    (hfd : 0 ≤ (s.conns i).fd) (hy : SlotOk y)
    (hserved : Served (s.slot i) y) :
    Core maxClients base listenFd (s.setSlot y) := by
  have hclient := h.mem_clients hi hfd
  obtain ⟨hopen, hbase⟩ := mem_clients.mp hclient
  have hindex : y.index = i := hserved.index_eq
  have hinterest : ∀ k, k ≠ (s.conns i).fd → y.interest k = s.interest k :=
    hserved.interest_eq
  have hslots := setSlot_slots h hi hfd hy hindex hinterest
  have hlistener : (s.setSlot y).interest listenFd =
      some ⟨EPOLLIN, none⟩ := by
    have hnotListen : listenFd ≠ (s.conns i).fd := by
      rintro rfl
      exact hbase hlisten
    exact (hinterest _ hnotListen).trans h.listener
  cases hserved with
  | kept hyfd _ _ hsess =>
      have hyfd' : y.conn.fd = (s.conns i).fd := hyfd
      have hsess' : Session (s.conns i).fd s.trace y.trace := hsess
      have hclients : clients base y.trace = clients base s.trace :=
        hsess'.clients_eq
      refine ⟨hslots fun k p hne hc => hsess'.frame hne hc, ?_, hlistener, ?_,
        hsess'.lawful hopen h.lawful, hsess'.halfDuplex h.halfDuplex⟩
      · show Tabled maxClients (Function.update s.conns y.index y.conn)
          (clients base y.trace)
        rw [Tabled, hclients, hindex]
        refine h.table.rewrite hfd ?_ hyfd'
        show 0 ≤ y.conn.fd
        omega
      · intro k hk
        show k = listenFd ∨ k ∈ clients base y.trace
        rw [hclients]
        by_cases hki : k = (s.conns i).fd
        · exact .inr (hki ▸ hclient)
        · have hk' : (y.interest k).isSome := hk
          rw [hinterest _ hki] at hk'
          exact h.registered k hk'
  | @closed past hneg _ _ hgone hsess htrace =>
      have hsess' : Session (s.conns i).fd s.trace past := hsess
      have htrace' : y.trace = .close (s.conns i).fd :: past := htrace
      have hclients : clients base y.trace =
          (clients base s.trace).erase (s.conns i).fd := by
        rw [htrace']
        exact hsess'.clients_eq_close
      refine ⟨hslots fun k p hne hc => ?_, ?_, hlistener, ?_, ?_, ?_⟩
      · rw [htrace']
        exact hsess'.frame_close hne hc
      · show Tabled maxClients (Function.update s.conns y.index y.conn)
          (clients base y.trace)
        rw [Tabled, hclients, hindex, Finset.coe_erase]
        refine h.table.vacate hi hfd ?_
        show ¬ 0 ≤ y.conn.fd
        omega
      · intro k hk
        show k = listenFd ∨ k ∈ clients base y.trace
        have hk' : (y.interest k).isSome := hk
        have hki : k ≠ (s.conns i).fd := by
          rintro rfl
          have hgone' : y.interest (s.conns i).fd = none := hgone
          rw [hgone'] at hk'
          cases hk'
        rw [hinterest _ hki] at hk'
        rw [hclients, Finset.mem_erase]
        rcases h.registered k hk' with hl | hmem
        · exact .inl hl
        · exact .inr ⟨hki, hmem⟩
      · show Lawful base y.trace
        rw [htrace']
        exact hsess'.lawful_close hclient h.lawful
      · show HalfDuplex y.trace
        rw [htrace']
        exact hsess'.halfDuplex_close h.halfDuplex

theorem waitStep_inv (h : Inv maxClients base listenFd s)
    (res : Except Errno (List Ready)) (hans : Answer s (.wait res)) :
    Inv maxClients base listenFd (waitStep s res) := by
  rcases res with e | batch
  · simp only [waitStep]
    split
    · exact h
    · exact ⟨h.core.with_pc _, PendingOk.nil _,
        fun i ev rest hpc => by cases hpc⟩
  · exact dispatch_inv h.core (batch_pendingOk h.core hans)

/-- The event the loop is at points to a live connection that holds the
descriptor it was generated for. -/
theorem Inv.event_pointsRight (h : Inv maxClients base listenFd s) {i : Nat}
    {ev : Ready} {rest : List Ready} (hpc : s.pc = .event i ev rest) :
    i < maxClients ∧ (s.conns i).fd = ev.fd ∧ 0 ≤ ev.fd := by
  have hpending := h.pending
  rw [hpc] at hpending
  have hptr := h.current i ev rest hpc
  rcases hpending.pointsRight ev List.mem_cons_self with
    ⟨hnone, _⟩ | ⟨j, hptr', hj, hfd, hpos⟩
  · rw [hptr] at hnone
    cases hnone
  · rw [hptr] at hptr'
    cases hptr'
    exact ⟨hj, hfd, hpos⟩

/-- What a connection event does: it serves the connection behind its pointer
and goes on with the batch; it never exits. -/
theorem eventStep_cases {i : Nat} {ev : Ready} {rest : List Ready}
    (h : Inv maxClients base listenFd s) (hpc : s.pc = .event i ev rest)
    (rd : Except Errno (List UInt8)) (wr : Except Errno Nat)
    (hk : KernelOk base (eventStep s i ev rest rd wr).trace) :
    SlotOk (handleEvent (s.slot i) ev.events rd wr).2 ∧
      Served (s.slot i) (handleEvent (s.slot i) ev.events rd wr).2 ∧
      eventStep s i ev rest rd wr =
        { s.setSlot (handleEvent (s.slot i) ev.events rd wr).2 with
          pc := dispatch rest } := by
  obtain ⟨hi, hfd, hpos⟩ := h.event_pointsRight hpc
  have hlive : 0 ≤ (s.conns i).fd := by omega
  rcases hout : handleEvent (s.slot i) ev.events rd wr with ⟨flow, y⟩
  have hky : KernelOk base (handleEvent (s.slot i) ev.events rd wr).2.trace := by
    unfold eventStep at hk
    rw [hout] at hk ⊢
    cases flow with
    | fallThrough => exact hk
    | continueBatch => exact hk
    | exits why => exact hk
  obtain ⟨hy, hserved, hnoexit⟩ := handleEvent_spec (h.core.slots i hi) hlive hky
  rw [hout] at hy hserved hnoexit
  refine ⟨hy, hserved, ?_⟩
  unfold eventStep
  rw [hout]
  cases flow with
  | fallThrough => rfl
  | continueBatch => rfl
  | exits why => exact absurd rfl (hnoexit why)

theorem eventStep_inv (hlisten : listenFd ∈ base) {i : Nat} {ev : Ready}
    {rest : List Ready} (h : Inv maxClients base listenFd s)
    (hpc : s.pc = .event i ev rest) (rd : Except Errno (List UInt8))
    (wr : Except Errno Nat)
    (hk : KernelOk base (eventStep s i ev rest rd wr).trace) :
    Inv maxClients base listenFd (eventStep s i ev rest rd wr) := by
  obtain ⟨hi, hfd, hpos⟩ := h.event_pointsRight hpc
  have hlive : 0 ≤ (s.conns i).fd := by omega
  have hpending := h.pending
  rw [hpc] at hpending
  have hrest : ∀ e ∈ rest, 0 ≤ e.fd → e.fd ≠ (s.conns i).fd := by
    intro e he _ heq
    have hnodup := (List.nodup_cons.mp hpending.distinct).1
    refine hnodup (List.mem_map.mpr ⟨e, he, ?_⟩)
    omega
  obtain ⟨hy, hserved, hstate⟩ := eventStep_cases h hpc rd wr hk
  rw [hstate]
  refine dispatch_inv (setSlot_core hlisten h.core hi hlive hy hserved) ?_
  have hindex := hserved.index_eq
  show PendingOk maxClients listenFd (Function.update s.conns _ _) rest
  rw [hindex]
  exact hpending.tail.update hrest

/-- A refused client is closed at once and leaves no mark. -/
theorem refuse_core {fd : Int} (hlisten : listenFd ∈ base)
    (h : Core maxClients base listenFd s) (hnew : fd ∉ openKeys base s.trace) :
    Core maxClients base listenFd
      { s with
        interest := forget s.interest fd
        trace := .close fd :: .accept fd :: s.trace } := by
  have hbase : fd ∉ base := fun hb => hnew (h.lawful.base_subset hb)
  have hclient : fd ∉ clients base s.trace := fun hc =>
    hnew (Finset.mem_sdiff.mp hc).1
  have hnone : s.interest fd = none := by
    rw [← Option.not_isSome_iff_eq_none]
    intro hsome
    rcases h.registered fd hsome with rfl | hc
    · exact hbase hlisten
    · exact hclient hc
  have hforget : forget s.interest fd = s.interest := by
    rw [forget, ← hnone, Function.update_eq_self]
  have hclients : clients base (.close fd :: .accept fd :: s.trace) =
      clients base s.trace := by
    rw [clients_close, clients_accept hbase, Finset.erase_insert hclient]
  rw [hforget]
  refine ⟨fun j hj => ?_, ?_, h.listener, ?_,
    ⟨⟨Finset.mem_insert_self fd _, hbase⟩, hnew, h.lawful⟩,
    ⟨trivial, trivial, h.halfDuplex⟩⟩
  · have hold := h.slots j hj
    refine ⟨hold.free, hold.busy, fun hlj => ?_⟩
    have hne : fd ≠ (s.conns j).fd := fun heq =>
      hclient (heq ▸ h.mem_clients hj hlj)
    have haccepted : Conserved (.accept fd :: s.trace) (s.conns j).fd
        (s.conns j).pending := (hold.conserved hlj).frame hne
    exact haccepted.frame hne
  · show Tabled maxClients s.conns _
    rw [hclients]
    exact h.table
  · intro k hk
    show k = listenFd ∨ k ∈ clients base _
    rw [hclients]
    exact h.registered k hk

/-- A new client takes a free slot and is registered for input. -/
theorem enrol_core {fd : Int} {i : Nat} {conns : Nat → Connection}
    (hlisten : listenFd ∈ base) (h : Core maxClients base listenFd s)
    (hfd : 0 ≤ fd) (hnew : fd ∉ openKeys base s.trace)
    (hi : i < maxClients) (hfree : (s.conns i).fd < 0)
    (hconns : conns = Function.update s.conns i
      { s.conns i with fd := fd, used := 0, sent := 0 }) :
    Core maxClients base listenFd
      { s with
        conns := conns
        interest := Function.update s.interest fd
          (some ⟨armedForInput, some i⟩)
        trace := .accept fd :: s.trace } := by
  subst hconns
  have hbase : fd ∉ base := fun hb => hnew (h.lawful.base_subset hb)
  have hclient : fd ∉ clients base s.trace := fun hc =>
    hnew (Finset.mem_sdiff.mp hc).1
  have hnotListen : listenFd ≠ fd := by
    rintro rfl
    exact hbase hlisten
  have hclients : clients base (.accept fd :: s.trace) =
      insert fd (clients base s.trace) := clients_accept hbase
  refine ⟨fun j hj => ?_, ?_, ?_, ?_, ⟨hnew, h.lawful⟩,
    ⟨trivial, h.halfDuplex⟩⟩
  · by_cases hji : j = i
    · subst hji
      simp only [State.slot, Function.update_self]
      refine ⟨fun hneg => absurd hfd (by simpa using hneg),
        fun _ => .inl ⟨Function.update_self _ _ _, rfl, rfl⟩, fun _ => ?_⟩
      rw [Connection.pending, Buffer.window_self]
      exact Conserved.accept s.trace fd
    · simp only [State.slot, Function.update_of_ne hji]
      have hold := h.slots j hj
      have hne : 0 ≤ (s.conns j).fd → (s.conns j).fd ≠ fd := by
        intro hlj heq
        exact hclient (heq ▸ h.mem_clients hj hlj)
      refine ⟨hold.free, fun hlj => ?_, fun hlj => ?_⟩
      · show (Function.update s.interest fd _ (s.conns j).fd = _ ∧ _) ∨
          (Function.update s.interest fd _ (s.conns j).fd = _ ∧ _)
        rw [Function.update_of_ne (hne hlj)]
        exact hold.busy hlj
      · exact (hold.conserved hlj).frame (hne hlj).symm
  · show Tabled maxClients _ _
    rw [hclients, Tabled, Finset.coe_insert]
    exact h.table.occupy hi (not_le.mpr hfree) hfd (by simpa using hclient)
  · show Function.update s.interest fd _ listenFd = _
    rw [Function.update_of_ne hnotListen]
    exact h.listener
  · intro k hk
    show k = listenFd ∨ k ∈ clients base _
    rw [hclients, Finset.mem_insert]
    by_cases hkf : k = fd
    · exact .inr (.inl hkf)
    · have hk' : (Function.update s.interest fd
          (some ⟨armedForInput, some i⟩) k).isSome := hk
      rw [Function.update_of_ne hkf] at hk'
      rcases h.registered k hk' with hl | hc
      · exact .inl hl
      · exact .inr (.inr hc)

/-- A free slot that is filled and emptied again is as it was. -/
theorem refill_eq (h : Core maxClients base listenFd s) {i : Nat}
    (hi : i < maxClients) (hfree : (s.conns i).fd < 0) {fd : Int}
    (hfd : 0 ≤ fd) :
    ({ s with
        conns := Function.update s.conns i
          { s.conns i with fd := fd, used := 0, sent := 0 }
        trace := .accept fd :: s.trace } : State).setSlot
      (closeConnection ⟨i, { s.conns i with fd := fd, used := 0, sent := 0 },
        s.interest, .accept fd :: s.trace⟩) =
    { s with
      interest := forget s.interest fd
      trace := .close fd :: .accept fd :: s.trace } := by
  obtain ⟨hneg, hused, hsent⟩ := (h.slots i hi).free hfree
  have hsame : { s.conns i with fd := -1, used := 0, sent := 0 } =
      s.conns i := by
    cases hc : s.conns i with
    | mk fd' used sent buffer =>
        simp only [State.slot, hc] at hneg hused hsent
        rw [hneg, hused, hsent]
  have hconn : { s.conns i with fd := -1, used := 0, sent := 0 } =
      s.conns i := hsame
  simp [State.setSlot, closeConnection, hfd, hconn]

theorem epollCtlAdd_ok {interest interest' : InterestList} {fd : Int}
    {ev : EpollEvent} {refused : Option Errno}
    (h : epollCtlAdd interest fd ev refused = .ok interest') :
    interest' = Function.update interest fd (some ev) := by
  unfold epollCtlAdd at h
  split at h
  · cases h
  · rcases refused with _ | e
    · cases h
      rfl
    · cases h

/-- What one round of the accept loop does: it leaves the loop, retries,
exits, refuses the client or admits it to a free slot.  A client whose
`EPOLL_CTL_ADD` fails is refused. -/
theorem acceptStep_cases {rest : List Ready}
    (h : Core maxClients base listenFd s) (res : Except Errno Int)
    (refused : Option Errno)
    (hk : KernelOk base (acceptStep maxClients base s rest res refused).trace) :
    (∃ e, res = .error e ∧ e.wouldBlock = true ∧
      acceptStep maxClients base s rest res refused =
        { s with pc := dispatch rest }) ∨
    (res = .error .EINTR ∧
      acceptStep maxClients base s rest res refused = s) ∨
    (∃ e, res = .error e ∧ e.wouldBlock = false ∧ e ≠ .EINTR ∧
      acceptStep maxClients base s rest res refused =
        { s with pc := .exited ⟨"accept", e⟩ }) ∨
    (∃ fd, res = .ok fd ∧ 0 ≤ fd ∧ fd ∉ openKeys base s.trace ∧
      acceptStep maxClients base s rest res refused =
        { s with
          interest := forget s.interest fd
          trace := .close fd :: .accept fd :: s.trace }) ∨
    (∃ fd i, res = .ok fd ∧ 0 ≤ fd ∧ fd ∉ openKeys base s.trace ∧
      i < maxClients ∧ (s.conns i).fd < 0 ∧
      acceptStep maxClients base s rest res refused =
        { s with
          conns := Function.update s.conns i
            { s.conns i with fd := fd, used := 0, sent := 0 }
          interest := Function.update s.interest fd
            (some ⟨armedForInput, some i⟩)
          trace := .accept fd :: s.trace }) := by
  rcases res with e | fd
  · by_cases hblock : e.wouldBlock = true
    · exact .inl ⟨e, rfl, hblock, by simp [acceptStep, hblock]⟩
    · by_cases hintr : e = .EINTR
      · subst hintr
        exact .inr (.inl ⟨rfl, by simp [acceptStep, Errno.wouldBlock]⟩)
      · exact .inr (.inr (.inl ⟨e, rfl, by simpa using hblock, hintr,
          by simp [acceptStep, hblock, hintr]⟩))
  have hset : setNonblocking (openKeys base (.accept fd :: s.trace)) fd =
      none := setNonblocking_of_mem (Finset.mem_insert_self fd _)
  unfold acceptStep allocateConnection at hk ⊢
  simp only [hset] at hk ⊢
  rcases hfirst : firstFree (fun i => (s.conns i).fd < 0) 0 maxClients with _ | i
  · simp only [hfirst] at hk ⊢
    exact .inr (.inr (.inr (.inl ⟨fd, rfl, hk.2.1.1, hk.2.1.2, rfl⟩)))
  · simp only [hfirst] at hk ⊢
    obtain ⟨_, hi, hfree⟩ := firstFree_some hfirst
    have hi' : i < maxClients := by omega
    have hfree' : (s.conns i).fd < 0 := by simpa using hfree
    rcases hadd : epollCtlAdd s.interest fd
        { events := armedForInput, ptr := some i } refused with e | interest
    · simp only [hadd] at hk ⊢
      have hnew := (hk.of_suffix (closeConnection_suffix _
        (List.suffix_refl _))).1
      have hrefill := refill_eq h hi' hfree' hnew.1
      simp only [State.slot, Function.update_self]
      exact .inr (.inr (.inr (.inl ⟨fd, rfl, hnew.1, hnew.2, hrefill⟩)))
    · simp only [hadd] at hk ⊢
      obtain ⟨⟨hfd, hnew⟩, _⟩ := hk
      have hinterest := epollCtlAdd_ok hadd
      subst hinterest
      exact .inr (.inr (.inr (.inr ⟨fd, i, rfl, hfd, hnew, hi', hfree', rfl⟩)))

theorem acceptStep_inv (hlisten : listenFd ∈ base) {rest : List Ready}
    (h : Inv maxClients base listenFd s) (hpc : s.pc = .accept rest)
    (res : Except Errno Int) (refused : Option Errno)
    (hk : KernelOk base (acceptStep maxClients base s rest res refused).trace) :
    Inv maxClients base listenFd
      (acceptStep maxClients base s rest res refused) := by
  have hrest := h.pending
  rw [hpc] at hrest
  have hnocurrent : ∀ i ev r, s.pc = .event i ev r → ev.ptr = some i := by
    intro i ev r hev
    rw [hpc] at hev
    cases hev
  rcases acceptStep_cases h.core res refused hk with
    ⟨e, _, _, heq⟩ | ⟨_, heq⟩ | ⟨e, _, _, _, heq⟩ | ⟨fd, _, _, hnew, heq⟩ |
    ⟨fd, i, _, hfd, hnew, hi, hfree, heq⟩
  · rw [heq]
    exact dispatch_inv h.core hrest
  · rw [heq]
    exact h
  · rw [heq]
    exact ⟨h.core.with_pc _, PendingOk.nil _, fun i ev r hev => by cases hev⟩
  · rw [heq]
    exact ⟨refuse_core hlisten h.core hnew, h.pending, hnocurrent⟩
  · rw [heq]
    refine ⟨enrol_core hlisten h.core hfd hnew hi hfree rfl, ?_, hnocurrent⟩
    refine h.pending.update fun ev _ hpos hev => ?_
    omega

/-- One step of the server, whatever the kernel answers. -/
theorem step_inv (hlisten : listenFd ∈ base) {e : Event} {t : State}
    (h : Inv maxClients base listenFd s)
    (hstep : step maxClients base s e = some t) (hk : KernelOk base t.trace)
    (hans : Answer s e) : Inv maxClients base listenFd t := by
  cases e with
  | wait res =>
      obtain ⟨_, rfl⟩ := step_wait hstep
      exact waitStep_inv h res hans
  | accept res refused =>
      obtain ⟨rest, hpc, rfl⟩ := step_accept hstep
      exact acceptStep_inv hlisten h hpc res refused hk
  | conn rd wr =>
      obtain ⟨i, ev, rest, hpc, rfl⟩ := step_conn hstep
      exact eventStep_inv hlisten h hpc rd wr hk

/-! ## What one step changes -/

/-- All a step does to table, interest list and trace: nothing, the refusal or
the admission of a client, or a connection event. -/
inductive Moves (maxClients : Nat) (base : Finset Int) (s t : State) : Prop
  | quiet (pc : Pc) : t = { s with pc := pc } → Moves maxClients base s t
  | refuse (fd : Int) : fd ∉ openKeys base s.trace →
      t = { s with
        interest := forget s.interest fd
        trace := .close fd :: .accept fd :: s.trace } →
      Moves maxClients base s t
  | enrol (fd : Int) (i : Nat) : fd ∉ openKeys base s.trace →
      i < maxClients → (s.conns i).fd < 0 →
      t = { s with
        conns := Function.update s.conns i
          { s.conns i with fd := fd, used := 0, sent := 0 }
        interest := Function.update s.interest fd
          (some ⟨armedForInput, some i⟩)
        trace := .accept fd :: s.trace } →
      Moves maxClients base s t
  | serve (i : Nat) (ev : Ready) (rest : List Ready) (y : Slot) :
      s.pc = .event i ev rest → i < maxClients → (s.conns i).fd = ev.fd →
      0 ≤ ev.fd → SlotOk y → Served (s.slot i) y →
      t = { s.setSlot y with pc := dispatch rest } →
      Moves maxClients base s t

theorem step_moves {e : Event} {t : State} (h : Inv maxClients base listenFd s)
    (hstep : step maxClients base s e = some t) (hk : KernelOk base t.trace) :
    Moves maxClients base s t := by
  cases e with
  | wait res =>
      obtain ⟨_, rfl⟩ := step_wait hstep
      rcases res with e | batch
      · by_cases hintr : e = .EINTR
        · exact .quiet s.pc (by simp [waitStep, hintr])
        · exact .quiet (.exited ⟨"epoll_wait", e⟩) (by simp [waitStep, hintr])
      · exact .quiet (dispatch batch) rfl
  | accept res refused =>
      obtain ⟨rest, hpc, rfl⟩ := step_accept hstep
      rcases acceptStep_cases h.core res refused hk with
        ⟨e, _, _, heq⟩ | ⟨_, heq⟩ | ⟨e, _, _, _, heq⟩ |
        ⟨fd, _, _, hnew, heq⟩ | ⟨fd, i, _, hfd, hnew, hi, hfree, heq⟩
      · exact .quiet _ heq
      · exact .quiet s.pc heq
      · exact .quiet _ heq
      · exact .refuse fd hnew heq
      · exact .enrol fd i hnew hi hfree heq
  | conn rd wr =>
      obtain ⟨i, ev, rest, hpc, rfl⟩ := step_conn hstep
      obtain ⟨hi, hfd, hpos⟩ := h.event_pointsRight hpc
      obtain ⟨hy, hserved, heq⟩ := eventStep_cases h hpc rd wr hk
      exact .serve i ev rest _ hpc hi hfd hpos hy hserved heq

theorem dispatch_ne_exited (evs : List Ready) (why : Exit) :
    dispatch evs ≠ .exited why := by
  intro hexit
  cases evs with
  | nil => cases hexit
  | cons ev rest =>
      rcases hptr : ev.ptr with _ | i
      · simp [dispatch, hptr] at hexit
      · simp [dispatch, hptr] at hexit

/-- The exits of the event loop: `epoll_wait` or `accept` failed with an error
that is not retried.  `set_nonblocking` and `arm_connection` never exit. -/
theorem exited_cases {e : Event} {t : State} {why : Exit}
    (h : Inv maxClients base listenFd s)
    (hstep : step maxClients base s e = some t) (hk : KernelOk base t.trace)
    (hexit : t.pc = .exited why) :
    (∃ errno, e = .wait (.error errno) ∧ errno ≠ .EINTR ∧
      why = ⟨"epoll_wait", errno⟩) ∨
    (∃ errno refused, e = .accept (.error errno) refused ∧
      errno.wouldBlock = false ∧ errno ≠ .EINTR ∧
      why = ⟨"accept", errno⟩) := by
  cases e with
  | wait res =>
      obtain ⟨hpc, rfl⟩ := step_wait hstep
      rcases res with errno | batch
      · by_cases hintr : errno = .EINTR
        · simp only [waitStep, hintr, if_true] at hexit
          rw [hpc] at hexit
          cases hexit
        · simp only [waitStep, hintr, if_false, Pc.exited.injEq] at hexit
          exact .inl ⟨errno, rfl, hintr, hexit.symm⟩
      · exact absurd hexit (dispatch_ne_exited batch why)
  | accept res refused =>
      obtain ⟨rest, hpc, rfl⟩ := step_accept hstep
      rcases acceptStep_cases h.core res refused hk with
        ⟨e, _, _, heq⟩ | ⟨_, heq⟩ | ⟨e, hres, hblock, hintr, heq⟩ |
        ⟨fd, _, _, _, heq⟩ | ⟨fd, i, _, _, _, _, _, heq⟩
      · rw [heq] at hexit
        exact absurd hexit (dispatch_ne_exited rest why)
      · rw [heq, hpc] at hexit
        cases hexit
      · rw [heq] at hexit
        cases hexit
        exact .inr ⟨e, refused, by rw [hres], hblock, hintr, rfl⟩
      · rw [heq] at hexit
        rw [show s.pc = .exited why from hexit] at hpc
        cases hpc
      · rw [heq] at hexit
        rw [show s.pc = .exited why from hexit] at hpc
        cases hpc
  | conn rd wr =>
      obtain ⟨i, ev, rest, hpc, rfl⟩ := step_conn hstep
      obtain ⟨_, _, heq⟩ := eventStep_cases h hpc rd wr hk
      rw [heq] at hexit
      exact absurd hexit (dispatch_ne_exited rest why)

/-- A step leaves alone every live connection except the one whose event it
handles: its slot, its buffer and its registration. -/
theorem Moves.frame {t : State} (hm : Moves maxClients base s t)
    (h : Core maxClients base listenFd s) {j : Nat} (hj : j < maxClients)
    (hlj : 0 ≤ (s.conns j).fd) (hidle : ∀ ev rest, s.pc ≠ .event j ev rest) :
    t.conns j = s.conns j ∧
      t.interest (s.conns j).fd = s.interest (s.conns j).fd := by
  have hopen := (Finset.mem_sdiff.mp (h.mem_clients hj hlj)).1
  cases hm with
  | quiet pc heq =>
      subst heq
      exact ⟨rfl, rfl⟩
  | refuse fd hnew heq =>
      have hne : (s.conns j).fd ≠ fd := fun hfd => hnew (hfd ▸ hopen)
      subst heq
      exact ⟨rfl, Function.update_of_ne hne _ _⟩
  | enrol fd i hnew hi hfree heq =>
      have hne : (s.conns j).fd ≠ fd := fun hfd => hnew (hfd ▸ hopen)
      have hji : j ≠ i := by
        rintro rfl
        omega
      subst heq
      exact ⟨Function.update_of_ne hji _ _, Function.update_of_ne hne _ _⟩
  | serve i ev rest y hpc hi hfd hpos hy hserved heq =>
      have hji : j ≠ i := by
        rintro rfl
        exact hidle ev rest hpc
      have hli : 0 ≤ (s.conns i).fd := by omega
      have hne := (h.fd_ne hi hli hj hlj hji).symm
      have hindex : y.index = i := hserved.index_eq
      subst heq
      constructor
      · show Function.update s.conns y.index y.conn j = s.conns j
        rw [hindex, Function.update_of_ne hji]
      · cases hserved with
        | kept _ _ hinterest _ => exact hinterest _ hne
        | closed _ _ hinterest _ _ _ => exact hinterest _ hne

/-- A step neither accepts nor closes an open descriptor, except the one of
the connection whose event it handles. -/
theorem Moves.ledger_eq {t : State} (hm : Moves maxClients base s t) {fd : Int}
    (hopen : fd ∈ openKeys base s.trace)
    (hidle : ∀ i ev rest, s.pc = .event i ev rest → ev.fd ≠ fd) :
    accepts fd t.trace = accepts fd s.trace ∧
      closes fd t.trace = closes fd s.trace := by
  cases hm with
  | quiet pc heq =>
      subst heq
      exact ⟨rfl, rfl⟩
  | refuse k hnew heq =>
      have hne : k ≠ fd := by
        rintro rfl
        exact hnew hopen
      subst heq
      simp [accepts, closes, hne]
  | enrol k i hnew hi hfree heq =>
      have hne : k ≠ fd := by
        rintro rfl
        exact hnew hopen
      subst heq
      simp [accepts, closes, hne]
  | serve i ev rest y hpc hi hfd hpos hy hserved heq =>
      have hne : (s.conns i).fd ≠ fd := hfd ▸ hidle i ev rest hpc
      subst heq
      cases hserved with
      | kept _ _ _ hsess => exact hsess.ledger_eq fd
      | @closed past _ _ _ _ hsess htrace =>
          have htrace' : y.trace = .close (s.conns i).fd :: past := htrace
          have hpast : accepts fd past = accepts fd s.trace ∧
              closes fd past = closes fd s.trace := hsess.ledger_eq fd
          show accepts fd y.trace = _ ∧ closes fd y.trace = _
          simpa [htrace', accepts, closes, hne] using hpast

/-- A step moves no byte of an open connection, except of the one whose event
it handles. -/
theorem Moves.streams_eq {t : State} (hm : Moves maxClients base s t) {fd : Int}
    (hopen : fd ∈ openKeys base s.trace)
    (hidle : ∀ i ev rest, s.pc = .event i ev rest → ev.fd ≠ fd) :
    received t.trace fd = received s.trace fd ∧
      echoed t.trace fd = echoed s.trace fd := by
  cases hm with
  | quiet pc heq =>
      subst heq
      exact ⟨rfl, rfl⟩
  | refuse k hnew heq =>
      have hne : k ≠ fd := by
        rintro rfl
        exact hnew hopen
      subst heq
      simp [received, echoed, Call.key, hne]
  | enrol k i hnew hi hfree heq =>
      have hne : k ≠ fd := by
        rintro rfl
        exact hnew hopen
      subst heq
      simp [received, echoed, Call.key, hne]
  | serve i ev rest y hpc hi hfd hpos hy hserved heq =>
      have hne : (s.conns i).fd ≠ fd := hfd ▸ hidle i ev rest hpc
      subst heq
      cases hserved with
      | kept _ _ _ hsess => exact hsess.streams_eq hne
      | @closed past _ _ _ _ hsess htrace =>
          have htrace' : y.trace = .close (s.conns i).fd :: past := htrace
          show received y.trace fd = _ ∧ echoed y.trace fd = _
          rw [htrace']
          exact hsess.streams_eq_close hne

end Invariant

/-- The invariant holds in every reachable state. -/
theorem reachable_inv {maxClients : Nat} {inherited : Finset Int}
    {listenFd epfd : Int} {s : State}
    (hs : (system maxClients inherited listenFd epfd).Reachable s) :
    Inv maxClients (startFds inherited listenFd epfd) listenFd s := by
  refine hs.induct ?_ ?_
  · rintro s rfl
    exact initial_inv
  · rintro s e t _ hinv ⟨hstep, hk, hans⟩
    exact step_inv (Finset.mem_insert_self listenFd _) hinv hstep hk hans

end SysLab.PartB.EpollServer
