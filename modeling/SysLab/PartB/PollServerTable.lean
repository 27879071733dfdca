import SysLab.PartB.PollServer

/-!
# The tables of the `poll` server

The connection table, the `pollfd` array and the descriptors the kernel holds
open stay in agreement along every run.  The argument is split where the code
is: `SlotOk` is what one slot owes, `Served` says what one slot of the scan can
do to the connection it belongs to, and `Inv` puts the slots together and ties
them to the open descriptors through `Registers`.
-/

namespace SysLab.PartB.PollServer

open SysLab.Foundation
open SysLab.Foundation.Transcript

/-! ## What one slot owes -/

/-- A free slot is blank.  A live one watches for input with an empty buffer
or for output with a non-empty one, and its pending bytes are exactly those
read and not yet echoed. -/
structure SlotOk (x : Slot) : Prop where
  fd_eq : x.pfd.fd = x.conn.fd
  free : x.conn.fd < 0 →
    x.pfd.events = noFlags ∧ x.conn.used = 0 ∧ x.conn.sent = 0
  busy : 0 ≤ x.conn.fd →
    (x.pfd.events = POLLIN ∧ x.conn.used = 0 ∧ x.conn.sent = 0) ∨
      (x.pfd.events = POLLOUT ∧ x.conn.sent < x.conn.used ∧
        x.conn.used ≤ bufferSize)
  conserved : 0 ≤ x.conn.fd →
    Conserved x.trace x.conn.fd x.conn.pending

/-- What serving a live slot does to its connection: a half-duplex session
that leaves it open, or one that ends in `close`. -/
inductive Served (x y : Slot) : Prop
  | kept : y.conn.fd = x.conn.fd → Session x.conn.fd x.trace y.trace →
      Served x y
  | closed {h : Trace} : y.conn.fd = -1 → Session x.conn.fd x.trace h →
      y.trace = .close x.conn.fd :: h → Served x y

theorem SlotOk.cursors {x : Slot} (h : SlotOk x) (hfd : 0 ≤ x.conn.fd) :
    x.conn.sent ≤ x.conn.used ∧ x.conn.used ≤ bufferSize := by
  rcases h.busy hfd with ⟨_, hused, hsent⟩ | ⟨_, hlt, hcap⟩
  · omega
  · omega

/-- With the cursors together nothing is pending. -/
theorem pending_of_drained {conn : Connection} (h : conn.used = conn.sent) :
    conn.pending = [] := by
  rw [Connection.pending, h, Buffer.window_self]

theorem closeConnection_ok (x : Slot) : SlotOk (closeConnection x) where
  fd_eq := rfl
  free _ := ⟨rfl, rfl, rfl⟩
  busy hfd := absurd hfd (by simp [closeConnection])
  conserved hfd := absurd hfd (by simp [closeConnection])

/-- Closing after a session on the slot's own connection. -/
theorem closeConnection_served {x y : Slot} (hfd : 0 ≤ x.conn.fd)
    (hy : y.conn.fd = x.conn.fd) (hs : Session x.conn.fd x.trace y.trace) :
    Served x (closeConnection y) := by
  refine .closed (h := y.trace) rfl hs ?_
  simp [closeConnection, hy, hfd]

/-! ## What a call leaves -/

section Calls

variable {x : Slot}

/-- A call that moves no byte. -/
theorem SlotOk.idle (hx : SlotOk x) {call : Syscall} (hopen : call.opens = false)
    (hdelivered : call.delivered = []) (htaken : call.taken = []) :
    SlotOk { x with trace := call :: x.trace } :=
  ⟨hx.fd_eq, hx.free, hx.busy, fun hfd =>
    (hx.conserved hfd).idle hopen hdelivered htaken⟩

/-- A `read` with an empty buffer is a session of one call. -/
theorem SlotOk.readSession (hx : SlotOk x) (hfd : 0 ≤ x.conn.fd)
    (hempty : x.conn.used = x.conn.sent) (rd : Except Errno (List UInt8)) :
    Session x.conn.fd x.trace (.read x.conn.fd bufferSize rd :: x.trace) := by
  have hcons := hx.conserved hfd
  rw [pending_of_drained hempty] at hcons
  exact Session.refl.read bufferSize rd hcons

/-- A `write` of the pending bytes is a session of one call. -/
theorem SlotOk.writeSession (hx : SlotOk x) (hfd : 0 ≤ x.conn.fd)
    (wr : Except Errno Nat) :
    Session x.conn.fd x.trace (.write x.conn.fd x.conn.pending wr :: x.trace) :=
  Session.refl.write x.conn.pending wr (hx.conserved hfd)

/-- The buffer has been filled by a `read`. -/
theorem SlotOk.filled (hx : SlotOk x) (hfd : 0 ≤ x.conn.fd)
    (hempty : x.conn.used = x.conn.sent) {bytes : List UInt8}
    (hpos : 0 < bytes.length) (hlen : bytes.length ≤ bufferSize) :
    SlotOk { x with
      trace := .read x.conn.fd bufferSize (.ok bytes) :: x.trace
      conn := { x.conn with
        buffer := x.conn.buffer.store bytes
        used := bytes.length
        sent := 0 }
      pfd := { x.pfd with events := POLLOUT } } := by
  refine ⟨hx.fd_eq, fun hneg => absurd hfd (not_le.mpr hneg),
    fun _ => .inr ⟨rfl, hpos, hlen⟩, fun _ => ?_⟩
  have hcons := hx.conserved hfd
  rw [pending_of_drained hempty] at hcons
  have hread := hcons.read bufferSize bytes
  rw [List.nil_append] at hread
  rw [Connection.pending, Buffer.window_store _ hlen]
  exact hread

/-- A `write` has taken all that was pending. -/
theorem SlotOk.drained (hx : SlotOk x) (hfd : 0 ≤ x.conn.fd) {n : Nat}
    (hall : x.conn.sent + n = x.conn.used) :
    SlotOk { x with
      trace := .write x.conn.fd x.conn.pending (.ok n) :: x.trace
      conn := { x.conn with used := 0, sent := 0 }
      pfd := { x.pfd with events := POLLIN } } := by
  refine ⟨hx.fd_eq, fun hneg => absurd hfd (not_le.mpr hneg),
    fun _ => .inl ⟨rfl, rfl, rfl⟩, fun _ => ?_⟩
  have hmoved := (hx.conserved hfd).write n
  rw [Connection.pending, Buffer.drop_window, hall, Buffer.window_self] at hmoved
  show Conserved _ _ (x.conn.buffer.window 0 0)
  rw [Buffer.window_self]
  exact hmoved

/-- A `write` has taken a part of it. -/
theorem SlotOk.advanced (hx : SlotOk x) (hfd : 0 ≤ x.conn.fd) {n : Nat}
    (hless : x.conn.sent + n < x.conn.used) :
    SlotOk { x with
      trace := .write x.conn.fd x.conn.pending (.ok n) :: x.trace
      conn := { x.conn with sent := x.conn.sent + n } } := by
  refine ⟨hx.fd_eq, fun hneg => absurd hfd (not_le.mpr hneg), fun _ => ?_,
    fun _ => ?_⟩
  · rcases hx.busy hfd with ⟨_, hused, _⟩ | ⟨hevents, _, hcap⟩
    · omega
    · exact .inr ⟨hevents, hless, hcap⟩
  · have hmoved := (hx.conserved hfd).write n
    rw [Connection.pending, Buffer.drop_window] at hmoved
    exact hmoved

end Calls

/-! ## The two branches -/

/-- The read branch keeps the slot in order; if it falls through, the
connection is still open. -/
theorem readBranch_spec {base : Finset Int} {x : Slot}
    {rd : Except Errno (List UInt8)} (hx : SlotOk x) (hfd : 0 ≤ x.conn.fd)
    (hk : KernelOk base (readBranch x rd).2.trace) :
    SlotOk (readBranch x rd).2 ∧ Served x (readBranch x rd).2 ∧
      ((readBranch x rd).1 = .fallThrough →
        (readBranch x rd).2.conn.fd = x.conn.fd) := by
  by_cases hguard : x.pfd.revents.pollin = true ∧ x.conn.used = x.conn.sent
  · have hsess := hx.readSession hfd hguard.2 rd
    rcases rd with e | _ | ⟨b, bs⟩
    · by_cases he : e.wouldBlock = true
      · have hout : readBranch x (.error e) = (.continueScan,
            { x with trace := .read x.conn.fd bufferSize (.error e) :: x.trace }) := by
          simp [readBranch, hguard, he]
        rw [hout]
        exact ⟨hx.idle rfl rfl rfl, .kept rfl hsess, fun _ => rfl⟩
      · have hout : readBranch x (.error e) = (.continueScan, closeConnection
            { x with trace := .read x.conn.fd bufferSize (.error e) :: x.trace }) := by
          simp [readBranch, hguard, he]
        rw [hout]
        exact ⟨closeConnection_ok _, closeConnection_served hfd rfl hsess,
          fun h => by cases h⟩
    · have hout : readBranch x (.ok []) = (.continueScan, closeConnection
          { x with trace := .read x.conn.fd bufferSize (.ok []) :: x.trace }) := by
        simp [readBranch, hguard]
      rw [hout]
      exact ⟨closeConnection_ok _, closeConnection_served hfd rfl hsess,
        fun h => by cases h⟩
    · have hout : readBranch x (.ok (b :: bs)) = (.fallThrough,
          { x with
            trace := .read x.conn.fd bufferSize (.ok (b :: bs)) :: x.trace
            conn := { x.conn with
              buffer := x.conn.buffer.store (b :: bs)
              used := (b :: bs).length
              sent := 0 }
            pfd := { x.pfd with events := POLLOUT } }) := by
        simp [readBranch, hguard]
      rw [hout] at hk ⊢
      have hlen : (b :: bs).length ≤ bufferSize := hk.1
      exact ⟨hx.filled hfd hguard.2 (Nat.succ_pos _) hlen, .kept rfl hsess,
        fun _ => rfl⟩
  · have hout : readBranch x rd = (.fallThrough, x) := by
      simp only [readBranch, hguard, if_false]
    rw [hout]
    exact ⟨hx, .kept rfl .refl, fun _ => rfl⟩

/-- The write branch keeps the slot in order. -/
theorem writeBranch_spec {base : Finset Int} {x : Slot}
    {wr : Except Errno Nat} (hx : SlotOk x) (hfd : 0 ≤ x.conn.fd)
    (hk : KernelOk base (writeBranch x wr).trace) :
    SlotOk (writeBranch x wr) ∧ Served x (writeBranch x wr) := by
  by_cases hguard : x.pfd.revents.pollout = true ∧ x.conn.sent < x.conn.used
  · have hsess := hx.writeSession hfd wr
    rcases wr with e | _ | n
    · by_cases he : e.wouldBlock = true
      · have hout : writeBranch x (.error e) =
            { x with
              trace := .write x.conn.fd x.conn.pending (.error e) :: x.trace } := by
          simp [writeBranch, hguard, he]
        rw [hout]
        exact ⟨hx.idle rfl rfl rfl, .kept rfl hsess⟩
      · have hout : writeBranch x (.error e) = closeConnection
            { x with
              trace := .write x.conn.fd x.conn.pending (.error e) :: x.trace } := by
          simp [writeBranch, hguard, he]
        rw [hout]
        exact ⟨closeConnection_ok _, closeConnection_served hfd rfl hsess⟩
    · have hout : writeBranch x (.ok 0) = closeConnection
          { x with
            trace := .write x.conn.fd x.conn.pending (.ok 0) :: x.trace } := by
        simp [writeBranch, hguard]
      rw [hout]
      exact ⟨closeConnection_ok _, closeConnection_served hfd rfl hsess⟩
    · by_cases hall : x.conn.sent + (n + 1) = x.conn.used
      · have hout : writeBranch x (.ok (n + 1)) =
            { x with
              trace := .write x.conn.fd x.conn.pending (.ok (n + 1)) :: x.trace
              conn := { x.conn with used := 0, sent := 0 }
              pfd := { x.pfd with events := POLLIN } } := by
          simp [writeBranch, hguard, hall]
        rw [hout]
        exact ⟨hx.drained hfd hall, .kept rfl hsess⟩
      · have hout : writeBranch x (.ok (n + 1)) =
            { x with
              trace := .write x.conn.fd x.conn.pending (.ok (n + 1)) :: x.trace
              conn := { x.conn with sent := x.conn.sent + (n + 1) } } := by
          simp [writeBranch, hguard, hall]
        rw [hout] at hk ⊢
        -- the kernel took no more than it was offered
        have hn : n + 1 ≤ x.conn.pending.length := hk.1
        rw [Connection.pending, Buffer.length_window _ (hx.cursors hfd).2] at hn
        have hless : x.conn.sent + (n + 1) < x.conn.used := by omega
        exact ⟨hx.advanced hfd hless, .kept rfl hsess⟩
  · have hout : writeBranch x wr = x := by
      simp only [writeBranch, hguard, if_false]
    rw [hout]
    exact ⟨hx, .kept rfl .refl⟩

/-- The write branch only adds calls. -/
theorem writeBranch_suffix (x : Slot) (wr : Except Errno Nat) :
    x.trace <:+ (writeBranch x wr).trace := by
  unfold writeBranch closeConnection
  split
  · rcases wr with e | _ | n
    · dsimp only
      split
      · exact List.suffix_cons _ _
      · dsimp only
        split
        · exact (List.suffix_cons _ _).trans (List.suffix_cons _ _)
        · exact List.suffix_cons _ _
    · dsimp only
      split
      · exact (List.suffix_cons _ _).trans (List.suffix_cons _ _)
      · exact List.suffix_cons _ _
    · dsimp only
      split
      · exact List.suffix_cons _ _
      · exact List.suffix_cons _ _
  · exact List.suffix_refl _

/-- A kept connection served again is served from the start. -/
theorem Served.trans {x y z : Slot} (hfd : y.conn.fd = x.conn.fd)
    (hs : Session x.conn.fd x.trace y.trace) (h : Served y z) :
    Served x z := by
  cases h with
  | kept hz hyz => exact .kept (hz.trans hfd) (hs.trans (hfd ▸ hyz))
  | closed hz hyz htrace =>
      exact .closed hz (hs.trans (hfd ▸ hyz)) (by rw [htrace, hfd])

/-- One slot of the scan keeps a live slot in order. -/
theorem serveSlot_spec {base : Finset Int} {x : Slot}
    {rd : Except Errno (List UInt8)} {wr : Except Errno Nat}
    (hx : SlotOk x) (hfd : 0 ≤ x.conn.fd)
    (hk : KernelOk base (serveSlot x rd wr).trace) :
    SlotOk (serveSlot x rd wr) ∧ Served x (serveSlot x rd wr) := by
  unfold serveSlot at hk ⊢
  by_cases hskip : x.conn.fd < 0 ∨ x.pfd.revents = noFlags
  · rw [if_pos hskip]
    exact ⟨hx, .kept rfl .refl⟩
  rw [if_neg hskip] at hk ⊢
  by_cases hbroken : x.pfd.revents.broken = true
  · rw [if_pos hbroken]
    exact ⟨closeConnection_ok x, closeConnection_served hfd rfl .refl⟩
  rw [if_neg hbroken] at hk ⊢
  rcases hread : readBranch x rd with ⟨flow, y⟩
  rw [hread] at hk
  have hky : KernelOk base y.trace := by
    cases flow with
    | continueScan => exact hk
    | fallThrough => exact hk.of_suffix (writeBranch_suffix y wr)
  have hkr : KernelOk base (readBranch x rd).2.trace := by
    rw [hread]
    exact hky
  have hspec := readBranch_spec hx hfd hkr
  rw [hread] at hspec
  obtain ⟨hy, hserved, hopen⟩ := hspec
  cases flow with
  | continueScan => exact ⟨hy, hserved⟩
  | fallThrough =>
      have hyfd : y.conn.fd = x.conn.fd := hopen rfl
      have hwrite := writeBranch_spec hy (hyfd ▸ hfd) hk
      cases hserved with
      | kept _ hsess => exact ⟨hwrite.1, hwrite.2.trans hyfd hsess⟩
      | closed hneg _ _ =>
          simp only at hneg hyfd
          omega

/-! ## The whole table -/

/-- A connection counts as live while it holds a descriptor. -/
def Connection.Live (conn : Connection) : Prop := 0 ≤ conn.fd

/-- The live slots hold exactly the descriptors `fds`, each once. -/
abbrev Tabled (maxClients : Nat) (conns : Nat → Connection)
    (fds : Finset Int) : Prop :=
  Registers (Set.Icc 1 maxClients) Connection.Live Connection.fd conns
    (fds : Set Int)

/-- Every slot is in order, the live ones hold exactly the client descriptors
the kernel has open, and every call made so far was in order too. -/
structure Inv (maxClients : Nat) (base : Finset Int) (s : State) : Prop where
  slots : ∀ i, 1 ≤ i → i ≤ maxClients → SlotOk (s.slot i)
  table : Tabled maxClients s.conns (clients base s.trace)
  lawful : Lawful base s.trace
  halfDuplex : HalfDuplex s.trace
  scanning : ∀ i, s.pc = .scan i → 1 ≤ i ∧ i ≤ maxClients

section Invariant

variable {maxClients : Nat} {base : Finset Int} {s : State}

theorem scanFrom_scan {i j : Nat} (hi : 1 ≤ i)
    (h : scanFrom maxClients i = .scan j) : 1 ≤ j ∧ j ≤ maxClients := by
  unfold scanFrom at h
  split at h
  · cases h
    omega
  · cases h

theorem scanFrom_ne_exited (i : Nat) (why : Exit) :
    scanFrom maxClients i ≠ .exited why := by
  unfold scanFrom
  split
  · intro h
    cases h
  · intro h
    cases h

/-- Only the conservation law of a slot looks at the trace. -/
theorem SlotOk.with_trace {x : Slot} (h : SlotOk x) {trace : Trace}
    (hc : 0 ≤ x.conn.fd → Conserved trace x.conn.fd x.conn.pending) :
    SlotOk { x with trace := trace } where
  fd_eq := h.fd_eq
  free := h.free
  busy := h.busy
  conserved := hc

/-- A live slot holds a client the kernel has open. -/
theorem Inv.mem_clients (h : Inv maxClients base s) {i : Nat} (hi : 1 ≤ i)
    (him : i ≤ maxClients) (hfd : 0 ≤ (s.conns i).fd) :
    (s.conns i).fd ∈ clients base s.trace :=
  Finset.mem_coe.mp (h.table.mem ⟨hi, him⟩ hfd)

theorem initial_inv (listenFd : Int) :
    Inv maxClients base (initial listenFd) where
  slots i hi _ := by
    have hi0 : i ≠ 0 := by omega
    have hslot : (initial listenFd).slot i =
        ⟨⟨-1, noFlags, noFlags⟩, { zeroConnection with fd := -1 }, []⟩ := by
      simp [State.slot, initial, hi0]
    rw [hslot]
    exact ⟨rfl, fun _ => ⟨rfl, rfl, rfl⟩, fun h => absurd h (by decide),
      fun h => absurd h (by decide)⟩
  table := by
    rw [Tabled, show clients base (initial listenFd).trace = ∅ from clients_nil base,
      Finset.coe_empty]
    refine Registers.empty ?_
    intro i hi hlive
    have hi0 : i ≠ 0 := by have := hi.1; omega
    simp [Connection.Live, initial, hi0, zeroConnection] at hlive
  lawful := trivial
  halfDuplex := trivial
  scanning i h := by cases h

theorem pollStep_inv (h : Inv maxClients base s)
    (res : Except Errno (Nat → PollFlags)) :
    Inv maxClients base (pollStep maxClients s res) := by
  rcases res with e | revents
  · unfold pollStep
    dsimp only
    split
    · exact h
    · exact ⟨h.slots, h.table, h.lawful, h.halfDuplex, fun i hi => by cases hi⟩
  · refine ⟨fun i hi him => ?_, h.table, h.lawful, h.halfDuplex, ?_⟩
    · have hslot := h.slots i hi him
      exact ⟨hslot.fd_eq, hslot.free, hslot.busy, hslot.conserved⟩
    · intro i hi
      simp only [pollStep] at hi
      split at hi
      · cases hi
      · exact scanFrom_scan (Nat.le_refl 1) hi

/-- Another client's call leaves a slot in order. -/
theorem SlotOk.frame {x : Slot} (h : SlotOk x) {c : Syscall}
    (hc : 0 ≤ x.conn.fd → c.key ≠ x.conn.fd) :
    SlotOk { x with trace := c :: x.trace } :=
  h.with_trace fun hfd => (h.conserved hfd).frame (hc hfd)

/-- A client added to the table: its slot starts blank, no other slot moves. -/
theorem addConnection_inv {fd : Int} (h : Inv maxClients base s)
    (hfd : 0 ≤ fd) (hnew : fd ∉ openKeys base s.trace)
    {pfds : Nat → Pollfd} {conns : Nat → Connection}
    (hadd : addConnection s.pfds s.conns maxClients fd = some (pfds, conns)) :
    Inv maxClients base
      { s with pfds := pfds, conns := conns, trace := .accept fd :: s.trace } := by
  have hbase : fd ∉ base := fun hb => hnew (h.lawful.base_subset hb)
  have hclient : fd ∉ clients base s.trace := fun hc =>
    hnew (Finset.mem_sdiff.mp hc).1
  unfold addConnection at hadd
  split at hadd
  · rename_i i hfirst
    obtain ⟨hi, hilt, hfree⟩ := firstFree_some hfirst
    have him : i ≤ maxClients := by omega
    have hdead : ¬ (s.conns i).Live := by
      have : (s.conns i).fd < 0 := by simpa using hfree
      exact not_le.mpr this
    cases hadd
    refine ⟨fun j hj hjm => ?_, ?_, ⟨hnew, h.lawful⟩,
      ⟨trivial, h.halfDuplex⟩, h.scanning⟩
    · by_cases hji : j = i
      · subst hji
        simp only [State.slot, Function.update_self]
        refine ⟨rfl, fun hneg => absurd hfd (by simpa using hneg),
          fun _ => .inl ⟨rfl, rfl, rfl⟩, fun _ => ?_⟩
        rw [Connection.pending, Buffer.window_self]
        exact Conserved.accept s.trace fd
      · simp only [State.slot, Function.update_of_ne hji]
        refine (h.slots j hj hjm).frame fun hlive hkey => hclient ?_
        have hmem := h.mem_clients hj hjm hlive
        have hkey' : fd = (s.conns j).fd := hkey
        rw [hkey']
        exact hmem
    · rw [Tabled, clients_accept hbase, Finset.coe_insert]
      exact h.table.occupy ⟨hi, him⟩ hdead hfd
        (by simpa using hclient)
  · cases hadd

/-- A refused client is closed at once and leaves no mark. -/
theorem refuse_inv {fd : Int} (h : Inv maxClients base s)
    (hnew : fd ∉ openKeys base s.trace) :
    Inv maxClients base
      { s with trace := .close fd :: .accept fd :: s.trace } := by
  have hbase : fd ∉ base := fun hb => hnew (h.lawful.base_subset hb)
  have hclient : fd ∉ clients base s.trace := fun hc =>
    hnew (Finset.mem_sdiff.mp hc).1
  have hother : ∀ j, 1 ≤ j → j ≤ maxClients → 0 ≤ (s.conns j).fd →
      fd ≠ (s.conns j).fd := by
    intro j hj hjm hlive heq
    exact hclient (heq ▸ h.mem_clients hj hjm hlive)
  refine ⟨fun j hj hjm => ?_, ?_,
    ⟨⟨Finset.mem_insert_self fd _, hbase⟩, hnew, h.lawful⟩,
    ⟨trivial, trivial, h.halfDuplex⟩, h.scanning⟩
  · have haccepted : SlotOk ⟨s.pfds j, s.conns j, .accept fd :: s.trace⟩ :=
      (h.slots j hj hjm).frame (hother j hj hjm)
    exact haccepted.frame (hother j hj hjm)
  · rw [clients_close, clients_accept hbase, Finset.erase_insert hclient]
    exact h.table

theorem acceptStep_inv (h : Inv maxClients base s) (res : Except Errno Int)
    (hk : KernelOk base (acceptStep maxClients base s res).trace) :
    Inv maxClients base (acceptStep maxClients base s res) := by
  rcases res with e | fd
  · unfold acceptStep
    dsimp only
    split
    · exact ⟨h.slots, h.table, h.lawful, h.halfDuplex,
        fun i hi => scanFrom_scan (Nat.le_refl 1) hi⟩
    · split
      · exact h
      · exact ⟨h.slots, h.table, h.lawful, h.halfDuplex, fun i hi => by cases hi⟩
  · have hset : setNonblocking (openKeys base (.accept fd :: s.trace)) fd =
        none := setNonblocking_of_mem (Finset.mem_insert_self fd _)
    unfold acceptStep at hk ⊢
    simp only [hset] at hk ⊢
    split at hk
    · rename_i pfds conns hadd
      obtain ⟨⟨hfd, hnew⟩, _⟩ := hk
      exact addConnection_inv h hfd hnew hadd
    · obtain ⟨_, ⟨_, hnew⟩, _⟩ := hk
      exact refuse_inv h hnew

/-- Two live slots hold different descriptors. -/
theorem Inv.fd_ne (h : Inv maxClients base s) {i j : Nat} (hi : 1 ≤ i)
    (him : i ≤ maxClients) (hli : 0 ≤ (s.conns i).fd) (hj : 1 ≤ j)
    (hjm : j ≤ maxClients) (hlj : 0 ≤ (s.conns j).fd) (hne : j ≠ i) :
    (s.conns i).fd ≠ (s.conns j).fd := fun heq =>
  hne (h.table.eq_of_key_eq ⟨hi, him⟩ hli ⟨hj, hjm⟩ hlj heq).symm

/-- Storing a served slot back: the session is a frame for every other slot,
and the table follows the descriptor if it was closed. -/
theorem setSlot_inv {i : Nat} {y : Slot} (h : Inv maxClients base s)
    (hi : 1 ≤ i) (him : i ≤ maxClients) (hfd : 0 ≤ (s.conns i).fd)
    (hy : SlotOk y) (hserved : Served (s.slot i) y) :
    Inv maxClients base (s.setSlot i y) := by
  have hclient := h.mem_clients hi him hfd
  have hopen : (s.conns i).fd ∈ openKeys base s.trace := (mem_clients.mp hclient).1
  have hslots : (∀ k p, (s.conns i).fd ≠ k → Conserved s.trace k p →
      Conserved y.trace k p) →
      ∀ j, 1 ≤ j → j ≤ maxClients → SlotOk ((s.setSlot i y).slot j) := by
    intro hframe j hj hjm
    by_cases hji : j = i
    · subst hji
      simpa [State.slot, State.setSlot] using hy
    · simp only [State.slot, State.setSlot, Function.update_of_ne hji]
      exact (h.slots j hj hjm).with_trace fun hlj =>
        hframe _ _ (h.fd_ne hi him hfd hj hjm hlj hji)
          ((h.slots j hj hjm).conserved hlj)
  cases hserved with
  | kept hyfd hsess =>
      have hyfd' : y.conn.fd = (s.conns i).fd := hyfd
      have hsess' : Session (s.conns i).fd s.trace y.trace := hsess
      refine ⟨hslots fun k p hne hc => hsess'.frame hne hc, ?_,
        hsess'.lawful hopen h.lawful, hsess'.halfDuplex h.halfDuplex,
        h.scanning⟩
      show Tabled maxClients (Function.update s.conns i y.conn)
        (clients base y.trace)
      rw [hsess'.clients_eq]
      refine h.table.rewrite hfd ?_ hyfd'
      show 0 ≤ y.conn.fd
      omega
  | @closed past hneg hsess htrace =>
      have hsess' : Session (s.conns i).fd s.trace past := hsess
      have htrace' : y.trace = .close (s.conns i).fd :: past := htrace
      refine ⟨hslots fun k p hne hc => ?_, ?_, ?_, ?_, h.scanning⟩
      · rw [htrace']
        exact hsess'.frame_close hne hc
      · show Tabled maxClients (Function.update s.conns i y.conn)
          (clients base y.trace)
        rw [Tabled, htrace', hsess'.clients_eq_close, Finset.coe_erase]
        refine h.table.vacate ⟨hi, him⟩ hfd ?_
        show ¬ 0 ≤ y.conn.fd
        omega
      · show Lawful base y.trace
        rw [htrace']
        exact hsess'.lawful_close hclient h.lawful
      · show HalfDuplex y.trace
        rw [htrace']
        exact hsess'.halfDuplex_close h.halfDuplex

theorem scanStep_inv {i : Nat} (h : Inv maxClients base s) (hi : 1 ≤ i)
    (him : i ≤ maxClients) (rd : Except Errno (List UInt8))
    (wr : Except Errno Nat)
    (hk : KernelOk base (scanStep maxClients s i rd wr).trace) :
    Inv maxClients base (scanStep maxClients s i rd wr) := by
  have hset : Inv maxClients base (s.setSlot i (serveSlot (s.slot i) rd wr)) := by
    by_cases hfd : (s.conns i).fd < 0
    · have hidle : serveSlot (s.slot i) rd wr = s.slot i := by
        simp [serveSlot, State.slot, hfd]
      have hsame : s.setSlot i (s.slot i) = s := by
        simp [State.setSlot, State.slot]
      rw [hidle, hsame]
      exact h
    · have hlive : 0 ≤ (s.conns i).fd := by omega
      have hk' : KernelOk base (serveSlot (s.slot i) rd wr).trace := hk
      obtain ⟨hy, hserved⟩ := serveSlot_spec (h.slots i hi him) hlive hk'
      exact setSlot_inv h hi him hlive hy hserved
  exact ⟨hset.slots, hset.table, hset.lawful, hset.halfDuplex,
    fun j hj => scanFrom_scan (by omega) hj⟩

/-- One step of the server, whatever the kernel answers. -/
theorem step_inv {e : Event} {t : State} (h : Inv maxClients base s)
    (hstep : step maxClients base s e = some t) (hk : KernelOk base t.trace) :
    Inv maxClients base t := by
  cases e with
  | poll res =>
      obtain ⟨_, rfl⟩ := step_poll hstep
      exact pollStep_inv h res
  | accept res =>
      obtain ⟨_, rfl⟩ := step_accept hstep
      exact acceptStep_inv h res hk
  | slot rd wr =>
      obtain ⟨i, hpc, rfl⟩ := step_slot hstep
      obtain ⟨hi, him⟩ := h.scanning i hpc
      exact scanStep_inv h hi him rd wr hk

end Invariant

/-- The exits of the event loop: `poll` or `accept` failed with an error that
is not retried, the accept loop's own helper never being one of them. -/
theorem exited_cases {maxClients : Nat} {base : Finset Int} {s t : State}
    {e : Event} {why : Exit} (hstep : step maxClients base s e = some t)
    (hrun : s.pc ≠ .exited why) (hexit : t.pc = .exited why) :
    (∃ errno, e = .poll (.error errno) ∧ errno ≠ .EINTR ∧
      why = ⟨"poll", errno⟩) ∨
    (∃ errno, e = .accept (.error errno) ∧ errno.wouldBlock = false ∧
      errno ≠ .EINTR ∧ why = ⟨"accept", errno⟩) := by
  cases e with
  | poll res =>
      obtain ⟨_, rfl⟩ := step_poll hstep
      rcases res with errno | revents
      · by_cases hintr : errno = .EINTR
        · simp only [pollStep, hintr, if_true] at hexit
          exact absurd hexit hrun
        · simp only [pollStep, hintr, if_false, Pc.exited.injEq] at hexit
          exact .inl ⟨errno, rfl, hintr, hexit.symm⟩
      · simp only [pollStep] at hexit
        split at hexit
        · cases hexit
        · exact absurd hexit (scanFrom_ne_exited 1 why)
  | accept res =>
      obtain ⟨_, rfl⟩ := step_accept hstep
      rcases res with errno | fd
      · simp only [acceptStep] at hexit
        split at hexit
        · exact absurd hexit (scanFrom_ne_exited 1 why)
        · rename_i hblock
          split at hexit
          · exact absurd hexit hrun
          · rename_i hintr
            exact .inr ⟨errno, rfl, by simpa using hblock, hintr,
              by simpa using hexit.symm⟩
      · have hset : setNonblocking (openKeys base (.accept fd :: s.trace)) fd =
            none := setNonblocking_of_mem (Finset.mem_insert_self fd _)
        simp only [acceptStep, hset] at hexit
        split at hexit
        · exact absurd hexit hrun
        · exact absurd hexit hrun
  | slot rd wr =>
      obtain ⟨_, _, rfl⟩ := step_slot hstep
      exact absurd hexit (scanFrom_ne_exited _ why)

/-- The kernel has kept its promises in every reachable state. -/
theorem reachable_kernelOk {maxClients : Nat} {base : Finset Int}
    {listenFd : Int} {s : State}
    (hs : (system maxClients base listenFd).Reachable s) :
    KernelOk base s.trace := by
  cases hs with
  | start h₀ =>
      cases h₀
      exact trivial
  | step _ hnext => exact hnext.2

/-- The tables agree in every reachable state. -/
theorem reachable_inv {maxClients : Nat} {base : Finset Int} {listenFd : Int}
    {s : State} (hs : (system maxClients base listenFd).Reachable s) :
    Inv maxClients base s := by
  refine hs.induct ?_ ?_
  · rintro s rfl
    exact initial_inv listenFd
  · rintro s e t _ hinv ⟨hstep, hk⟩
    exact step_inv hinv hstep hk

end SysLab.PartB.PollServer
