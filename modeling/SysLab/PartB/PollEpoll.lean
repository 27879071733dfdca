import SysLab.PartB.PollServerTable
import SysLab.PartB.EpollServerTable

/-!
# The `poll` server and the `epoll` server simulate each other

The two servers side by side, a step being a client accepted or an event on a
connection, with whatever `read` and `write` then return.  Slot `i` of the
`epoll` server goes with index `i + 1` of the `poll` server, whose index `0`
watches the listener.

`Matches` relates two slots, `Related` the two tables; a step keeps `Related`
branch by branch, in the order of the sources.
-/

namespace SysLab.PartB.PollEpoll

open SysLab.Foundation
open SysLab.Foundation.Transcript

/-! ## Steps -/

/-- The readiness flags that both interfaces know. -/
structure Flags where
  readable : Bool
  writable : Bool
  error : Bool
  hangUp : Bool
  deriving DecidableEq, Repr

/-- `IN`, `OUT`, `ERR` and `HUP` as `poll` reports them. -/
def Flags.toPoll (f : Flags) : PollServer.PollFlags :=
  { pollin := f.readable, pollout := f.writable, pollerr := f.error, pollhup := f.hangUp }

/-- As `epoll_wait` reports them. -/
def Flags.toEpoll (f : Flags) : EpollServer.EpollFlags :=
  { epollin := f.readable, epollout := f.writable, epollerr := f.error,
    epollhup := f.hangUp }

/-- A client is accepted, or an event is served on the open connection `i`. -/
inductive Step
  | accepted (fd : Int)
  | event (i : Nat) (flags : Flags) (rd : Except Errno (List UInt8))
      (wr : Except Errno Nat)

/-- `poll` has reported `flags` on index `i`. -/
def raise (p : PollServer.State) (i : Nat) (flags : PollServer.PollFlags) :
    PollServer.State :=
  { p with pfds := Function.update p.pfds i { p.pfds i with revents := flags } }

/-- The `poll` server, step by step. -/
def pollSteps (maxClients : Nat) (base : Finset Int) (listenFd : Int) :
    System PollServer.State Step where
  init p := p = PollServer.initial listenFd
  next p step p' :=
    match step with
    | .accepted fd =>
        KernelCall base (.accept fd) p.trace ∧
          p' = PollServer.acceptStep maxClients base p (.ok fd)
    | .event i flags rd wr =>
        (i < maxClients ∧ 0 ≤ (p.conns (i + 1)).fd) ∧
          p' = PollServer.scanStep maxClients (raise p (i + 1) flags.toPoll) (i + 1) rd wr

/-- The `epoll` server, step by step; the registrations succeed. -/
def epollSteps (maxClients : Nat) (base : Finset Int) (listenFd : Int) :
    System EpollServer.State Step where
  init e := e = EpollServer.initial listenFd
  next e step e' :=
    match step with
    | .accepted fd =>
        KernelCall base (.accept fd) e.trace ∧
          e' = EpollServer.acceptStep maxClients base e [] (.ok fd) none
    | .event i flags rd wr =>
        (i < maxClients ∧ 0 ≤ (e.conns i).fd) ∧
          e' = EpollServer.eventStep e i ⟨(e.conns i).fd, flags.toEpoll, some i⟩ [] rd wr

/-! ## Slots that match -/

/-- The requested events and the registered mask say the same. -/
def Armed (events : PollServer.PollFlags) (mask : EpollServer.EpollFlags) : Prop :=
  (events = PollServer.POLLIN ∧ mask = EpollServer.armedForInput) ∨
    (events = PollServer.POLLOUT ∧ mask = EpollServer.armedForOutput)

/-- Two slots in the same state, after the same calls. -/
structure Matches (x : PollServer.Slot) (y : EpollServer.Slot) : Prop where
  fd : x.conn.fd = y.conn.fd
  pfd : x.pfd.fd = y.conn.fd
  used : x.conn.used = y.conn.used
  sent : x.conn.sent = y.conn.sent
  pending : x.conn.pending = y.conn.pending
  trace : x.trace = y.trace
  armed : 0 ≤ y.conn.fd → ∃ mask,
    y.interest y.conn.fd = some ⟨mask, some y.index⟩ ∧ Armed x.pfd.events mask

/-- A connection event has left the connection open. -/
structure Stays (base : Finset Int) (y z : EpollServer.Slot) : Prop where
  index : z.index = y.index
  frame : ∀ k, k ≠ y.conn.fd → z.interest k = y.interest k
  fd : z.conn.fd = y.conn.fd
  openKeys : openKeys base z.trace = openKeys base y.trace

/-- Or it has closed it, which takes it off the interest list. -/
structure Closes (base : Finset Int) (y z : EpollServer.Slot) : Prop where
  index : z.index = y.index
  frame : ∀ k, k ≠ y.conn.fd → z.interest k = y.interest k
  fd : z.conn.fd = -1
  forgotten : z.interest y.conn.fd = none
  openKeys : Transcript.openKeys base z.trace =
    (Transcript.openKeys base y.trace).erase y.conn.fd

section Slots

variable {base : Finset Int} {x : PollServer.Slot} {y z : EpollServer.Slot}

theorem Stays.refl (y : EpollServer.Slot) : Stays base y y :=
  ⟨rfl, fun _ _ => rfl, rfl, rfl⟩

theorem Stays.trans {w : EpollServer.Slot} (h : Stays base y z) (h' : Stays base z w) :
    Stays base y w := by
  refine ⟨h'.index.trans h.index, fun k hk => ?_, h'.fd.trans h.fd,
    h'.openKeys.trans h.openKeys⟩
  rw [h'.frame k (h.fd ▸ hk), h.frame k hk]

theorem Stays.closes {w : EpollServer.Slot} (h : Stays base y z) (h' : Closes base z w) :
    Closes base y w := by
  refine ⟨h'.index.trans h.index, fun k hk => ?_, h'.fd, ?_, ?_⟩
  · rw [h'.frame k (h.fd ▸ hk), h.frame k hk]
  · rw [← h.fd]
    exact h'.forgotten
  · rw [h'.openKeys, h.openKeys, h.fd]

/-- Both helpers close the same connection. -/
theorem Matches.close (h : Matches x y) :
    Matches (PollServer.closeConnection x) (EpollServer.closeConnection y) := by
  refine ⟨rfl, rfl, rfl, rfl, ?_, ?_, fun hopen => ?_⟩
  · rw [PollServer.pending_of_drained rfl, EpollServer.pending_of_drained rfl]
  · simp only [PollServer.closeConnection, EpollServer.closeConnection, h.fd, h.trace]
  · have hneg : (0 : Int) ≤ -1 := hopen
    omega

theorem closes_closeConnection (hfd : 0 ≤ y.conn.fd) :
    Closes base y (EpollServer.closeConnection y) := by
  refine ⟨rfl, fun k hk => ?_, rfl, ?_, ?_⟩
  · simp only [EpollServer.closeConnection, if_pos hfd, EpollServer.forget]
    exact Function.update_of_ne hk _ _
  · simp only [EpollServer.closeConnection, if_pos hfd, EpollServer.forget]
    exact Function.update_self _ _ _
  · simp only [EpollServer.closeConnection, if_pos hfd]
    rfl

/-- The same call is made on both. -/
theorem Matches.call (h : Matches x y) {c d : Syscall} (hcall : c = d) :
    Matches { x with trace := c :: x.trace } { y with trace := d :: y.trace } :=
  ⟨h.fd, h.pfd, h.used, h.sent, h.pending, by rw [hcall, h.trace], h.armed⟩

theorem Matches.read (h : Matches x y) (rd : Except Errno (List UInt8)) :
    Matches { x with trace := .read x.conn.fd bufferSize rd :: x.trace }
      (y.withRead rd) :=
  h.call (by rw [h.fd])

theorem Matches.write (h : Matches x y) (wr : Except Errno Nat) :
    Matches { x with trace := .write x.conn.fd x.conn.pending wr :: x.trace }
      (y.withWrite wr) :=
  h.call (by rw [h.fd, h.pending])

/-- Both buffers are filled with what was read. -/
theorem Matches.filled (h : Matches x y) (bytes : List UInt8) :
    Matches
      { x with
        conn := { x.conn with
          buffer := x.conn.buffer.store bytes
          used := bytes.length
          sent := 0 }
        pfd := { x.pfd with events := PollServer.POLLOUT } }
      (y.filled bytes) := by
  refine ⟨h.fd, h.pfd, rfl, rfl, ?_, h.trace, fun _ => ?_⟩
  · show (x.conn.buffer.store bytes).window 0 bytes.length =
      (y.conn.buffer.store bytes).window 0 bytes.length
    rw [Buffer.window_store_take, Buffer.window_store_take]
  · exact ⟨_, Function.update_self _ _ _, .inr ⟨rfl, rfl⟩⟩

/-- Both are drained. -/
theorem Matches.drained (h : Matches x y) :
    Matches
      { x with
        conn := { x.conn with used := 0, sent := 0 }
        pfd := { x.pfd with events := PollServer.POLLIN } }
      y.drained := by
  refine ⟨h.fd, h.pfd, rfl, rfl, ?_, h.trace, fun _ => ?_⟩
  · show x.conn.buffer.window 0 0 = y.conn.buffer.window 0 0
    rw [Buffer.window_self, Buffer.window_self]
  · exact ⟨_, Function.update_self _ _ _, .inl ⟨rfl, rfl⟩⟩

/-- Both have `n` more bytes sent. -/
theorem Matches.advanced (h : Matches x y) (n : Nat) :
    Matches { x with conn := { x.conn with sent := x.conn.sent + n } }
      (y.advanced n) := by
  refine ⟨h.fd, h.pfd, h.used, congrArg (· + n) h.sent, ?_, h.trace, h.armed⟩
  have hpending : x.conn.buffer.window x.conn.sent x.conn.used =
      y.conn.buffer.window y.conn.sent y.conn.used := h.pending
  show x.conn.buffer.window (x.conn.sent + n) x.conn.used =
    y.conn.buffer.window (y.conn.sent + n) y.conn.used
  rw [← Buffer.drop_window, ← Buffer.drop_window, hpending]

/-! ## The branches -/

/-- How two branches that read leave two matching slots. -/
inductive Branched (base : Finset Int) (x : PollServer.Slot) (y : EpollServer.Slot) :
    PollServer.Flow × PollServer.Slot → EpollServer.Flow × EpollServer.Slot → Prop
  | falls {x' : PollServer.Slot} {y' : EpollServer.Slot} : Matches x' y' →
      Stays base y y' → x'.pfd.revents = x.pfd.revents →
      Branched base x y (.fallThrough, x') (.fallThrough, y')
  | blocked {x' : PollServer.Slot} {y' : EpollServer.Slot} : Matches x' y' →
      Stays base y y' → Branched base x y (.continueScan, x') (.continueBatch, y')
  | closed {x' : PollServer.Slot} {y' : EpollServer.Slot} : Matches x' y' →
      Closes base y y' → Branched base x y (.continueScan, x') (.continueBatch, y')

variable {revents : EpollServer.EpollFlags} {rd : Except Errno (List UInt8)}
  {wr : Except Errno Nat}

theorem Matches.registered (h : Matches x y) (hfd : 0 ≤ y.conn.fd) :
    ∃ mask, y.interest y.conn.fd = some ⟨mask, some y.index⟩ := by
  obtain ⟨mask, hreg, _⟩ := h.armed hfd
  exact ⟨mask, hreg⟩

/-- A `read` on `y` leaves its descriptor open. -/
theorem stays_withRead (rd : Except Errno (List UInt8)) : Stays base y (y.withRead rd) :=
  ⟨rfl, fun _ _ => rfl, rfl, rfl⟩

theorem stays_withWrite (wr : Except Errno Nat) : Stays base y (y.withWrite wr) :=
  ⟨rfl, fun _ _ => rfl, rfl, rfl⟩

theorem stays_filled (bytes : List UInt8) : Stays base y (y.filled bytes) :=
  ⟨rfl, fun _ hk => Function.update_of_ne hk _ _, rfl, rfl⟩

theorem stays_drained : Stays base y y.drained :=
  ⟨rfl, fun _ hk => Function.update_of_ne hk _ _, rfl, rfl⟩

theorem stays_advanced (n : Nat) : Stays base y (y.advanced n) :=
  ⟨rfl, fun _ _ => rfl, rfl, rfl⟩

theorem readBranch_branched (h : Matches x y) (hfd : 0 ≤ y.conn.fd)
    (hin : x.pfd.revents.pollin = revents.epollin) (rd : Except Errno (List UInt8)) :
    Branched base x y (PollServer.readBranch x rd)
      (EpollServer.readBranch y revents rd) := by
  obtain ⟨mask, hreg⟩ := h.registered hfd
  have hguard : (x.pfd.revents.pollin = true ∧ x.conn.used = x.conn.sent) ↔
      (revents.epollin = true ∧ y.conn.used = y.conn.sent) := by
    rw [hin, h.used, h.sent]
  have houtcome := EpollServer.readBranch_outcome hreg revents rd
  revert houtcome
  generalize EpollServer.readBranch y revents rd = out
  intro houtcome
  cases houtcome with
  | skipped hskip =>
      have hout : PollServer.readBranch x rd = (.fallThrough, x) := by
        simp only [PollServer.readBranch, hguard, hskip, if_false]
      rw [hout]
      exact .falls h (.refl y) rfl
  | blocked e hepollin hempty hrd he =>
      subst hrd
      have hout : PollServer.readBranch x (.error e) = (.continueScan,
          { x with trace := .read x.conn.fd bufferSize (.error e) :: x.trace }) := by
        simp only [PollServer.readBranch, hguard.mpr ⟨hepollin, hempty⟩, and_self, he,
          if_true]
      rw [hout]
      exact .blocked (h.read _) (stays_withRead _)
  | closed hepollin hempty hrd =>
      have hout : PollServer.readBranch x rd = (.continueScan, PollServer.closeConnection
          { x with trace := .read x.conn.fd bufferSize rd :: x.trace }) := by
        rcases hrd with rfl | ⟨e, rfl, he⟩
        · simp only [PollServer.readBranch, hguard.mpr ⟨hepollin, hempty⟩, and_self,
            if_true]
        · simp only [PollServer.readBranch, hguard.mpr ⟨hepollin, hempty⟩, and_self, he,
            if_true, Bool.false_eq_true, if_false]
      rw [hout]
      exact .closed (h.read rd).close
        ((stays_withRead rd).closes (closes_closeConnection hfd))
  | filled bytes hepollin hempty hrd hbytes =>
      subst hrd
      obtain ⟨b, bs, rfl⟩ := List.exists_cons_of_ne_nil hbytes
      have hout : PollServer.readBranch x (.ok (b :: bs)) = (.fallThrough,
          { x with
            trace := .read x.conn.fd bufferSize (.ok (b :: bs)) :: x.trace
            conn := { x.conn with
              buffer := x.conn.buffer.store (b :: bs)
              used := (b :: bs).length
              sent := 0 }
            pfd := { x.pfd with events := PollServer.POLLOUT } }) := by
        simp only [PollServer.readBranch, hguard.mpr ⟨hepollin, hempty⟩, and_self,
          if_true]
      rw [hout]
      exact .falls ((h.read _).filled (b :: bs))
        ((stays_withRead _).trans (stays_filled _)) rfl

/-- What a whole event leaves. -/
structure Served (base : Finset Int) (y : EpollServer.Slot) (x' : PollServer.Slot)
    (out : EpollServer.Flow × EpollServer.Slot) : Prop where
  runs : ∀ why, out.1 ≠ .exits why
  slots : Matches x' out.2
  kernel : Stays base y out.2 ∨ Closes base y out.2

theorem writeBranch_served (h : Matches x y) (hfd : 0 ≤ y.conn.fd)
    (hwant : x.pfd.revents.pollout = revents.epollout) (wr : Except Errno Nat) :
    Served base y (PollServer.writeBranch x wr)
      (EpollServer.writeBranch y revents wr) := by
  obtain ⟨mask, hreg⟩ := h.registered hfd
  have hguard : (x.pfd.revents.pollout = true ∧ x.conn.sent < x.conn.used) ↔
      (revents.epollout = true ∧ y.conn.sent < y.conn.used) := by
    rw [hwant, h.used, h.sent]
  have houtcome := EpollServer.writeBranch_outcome hreg revents wr
  revert houtcome
  generalize EpollServer.writeBranch y revents wr = out
  intro houtcome
  cases houtcome with
  | skipped hskip =>
      have hout : PollServer.writeBranch x wr = x := by
        simp only [PollServer.writeBranch, hguard, hskip, if_false]
      rw [hout]
      exact ⟨fun _ hflow => (by cases hflow), h, .inl (.refl y)⟩
  | blocked e hepollout hless hwr he =>
      subst hwr
      have hout : PollServer.writeBranch x (.error e) =
          { x with
            trace := .write x.conn.fd x.conn.pending (.error e) :: x.trace } := by
        simp only [PollServer.writeBranch, hguard.mpr ⟨hepollout, hless⟩, and_self, he,
          if_true]
      rw [hout]
      exact ⟨fun _ hflow => (by cases hflow), h.write _, .inl (stays_withWrite _)⟩
  | closed hepollout hless hwr =>
      have hout : PollServer.writeBranch x wr = PollServer.closeConnection
          { x with trace := .write x.conn.fd x.conn.pending wr :: x.trace } := by
        rcases hwr with rfl | ⟨e, rfl, he⟩
        · simp only [PollServer.writeBranch, hguard.mpr ⟨hepollout, hless⟩, and_self,
            if_true]
        · simp only [PollServer.writeBranch, hguard.mpr ⟨hepollout, hless⟩, and_self, he,
            if_true, Bool.false_eq_true, if_false]
      rw [hout]
      exact ⟨fun _ hflow => (by cases hflow), (h.write wr).close,
        .inr ((stays_withWrite wr).closes (closes_closeConnection hfd))⟩
  | drained n hepollout hless hwr hall =>
      subst hwr
      have hout : PollServer.writeBranch x (.ok (n + 1)) =
          { x with
            trace := .write x.conn.fd x.conn.pending (.ok (n + 1)) :: x.trace
            conn := { x.conn with used := 0, sent := 0 }
            pfd := { x.pfd with events := PollServer.POLLIN } } := by
        have hall' : x.conn.sent + (n + 1) = x.conn.used := by
          rw [h.used, h.sent]
          exact hall
        simp only [PollServer.writeBranch, hguard.mpr ⟨hepollout, hless⟩, and_self,
          hall', if_true]
      rw [hout]
      exact ⟨fun _ hflow => (by cases hflow), (h.write _).drained,
        .inl ((stays_withWrite _).trans stays_drained)⟩
  | advanced n hepollout hless hwr hall =>
      subst hwr
      have hout : PollServer.writeBranch x (.ok (n + 1)) =
          { x with
            trace := .write x.conn.fd x.conn.pending (.ok (n + 1)) :: x.trace
            conn := { x.conn with sent := x.conn.sent + (n + 1) } } := by
        have hall' : x.conn.sent + (n + 1) ≠ x.conn.used := by
          rw [h.used, h.sent]
          exact hall
        simp only [PollServer.writeBranch, hguard.mpr ⟨hepollout, hless⟩, and_self,
          hall', if_true, if_false]
      rw [hout]
      exact ⟨fun _ hflow => (by cases hflow), (h.write _).advanced (n + 1),
        .inl ((stays_withWrite _).trans (stays_advanced _))⟩

/-- The bodies of the two loops do the same. -/
theorem serveSlot_served (h : Matches x y) (hfd : 0 ≤ y.conn.fd) (flags : Flags)
    (hflags : x.pfd.revents = flags.toPoll) (rd : Except Errno (List UInt8))
    (wr : Except Errno Nat) :
    Served base y (PollServer.serveSlot x rd wr)
      (EpollServer.handleEvent y flags.toEpoll rd wr) := by
  have hopen : ¬ x.conn.fd < 0 := by
    rw [h.fd]
    omega
  unfold PollServer.serveSlot EpollServer.handleEvent
  by_cases hnone : x.pfd.revents = PollServer.noFlags
  · -- without flags `poll` skips the slot, and no branch of the event is entered
    have hflags' : flags = ⟨false, false, false, false⟩ := by
      rw [hflags] at hnone
      cases flags
      simpa [Flags.toPoll, PollServer.noFlags] using hnone
    subst hflags'
    rw [if_pos (.inr hnone)]
    exact ⟨fun _ hflow => (by cases hflow), h, .inl (.refl y)⟩
  rw [if_neg (by rintro (hneg | hskip) <;> contradiction)]
  have hbroken : x.pfd.revents.broken = flags.toEpoll.broken := by
    rw [hflags]
    simp [Flags.toPoll, Flags.toEpoll, PollServer.PollFlags.broken,
      EpollServer.EpollFlags.broken]
  by_cases hbad : flags.toEpoll.broken
  · rw [if_pos hbad, if_pos (hbroken.trans hbad)]
    exact ⟨fun _ hflow => (by cases hflow), h.close, .inr (closes_closeConnection hfd)⟩
  rw [if_neg hbad, if_neg (hbroken ▸ hbad)]
  have hin : x.pfd.revents.pollin = flags.toEpoll.epollin := by
    rw [hflags]
    rfl
  have hbranched : Branched base x y (PollServer.readBranch x rd)
      (EpollServer.readBranch y flags.toEpoll rd) := readBranch_branched h hfd hin rd
  revert hbranched
  generalize PollServer.readBranch x rd = px
  generalize EpollServer.readBranch y flags.toEpoll rd = ey
  intro hbranched
  cases hbranched with
  | blocked hmatch hstays =>
      exact ⟨fun _ hflow => (by cases hflow), hmatch, .inl hstays⟩
  | closed hmatch hcloses =>
      exact ⟨fun _ hflow => (by cases hflow), hmatch, .inr hcloses⟩
  | @falls x' y' hmatch hstays hrevents =>
      have hfd' : 0 ≤ y'.conn.fd := by
        rw [hstays.fd]
        exact hfd
      have hwant : x'.pfd.revents.pollout = flags.toEpoll.epollout := by
        rw [hrevents, hflags]
        rfl
      have hwrite : Served base y' (PollServer.writeBranch x' wr)
          (EpollServer.writeBranch y' flags.toEpoll wr) :=
        writeBranch_served hmatch hfd' hwant wr
      obtain ⟨hruns, hslots, hkernel⟩ := hwrite
      refine ⟨hruns, hslots, ?_⟩
      rcases hkernel with hkernel | hkernel
      · exact .inl (hstays.trans hkernel)
      · exact .inr (hstays.closes hkernel)

end Slots

/-! ## The tables -/

/-- The two servers are in the same state: their slots match, they have made the
same calls, and neither has ended. -/
structure Related (maxClients : Nat) (base : Finset Int) (listenFd : Int)
    (p : PollServer.State) (e : EpollServer.State) : Prop where
  slots : ∀ i, i < maxClients → Matches (p.slot (i + 1)) (e.slot i)
  trace : p.trace = e.trace
  running : ∀ why, p.pc ≠ .exited why ∧ e.pc ≠ .exited why
  clients : ∀ i, i < maxClients → 0 ≤ (e.conns i).fd →
    (e.conns i).fd ∈ clients base e.trace
  registered : ∀ fd, (e.interest fd).isSome →
    fd = listenFd ∨ ∃ i, i < maxClients ∧ (e.conns i).fd = fd ∧ 0 ≤ fd
  base_subset : base ⊆ openKeys base e.trace

section Tables

variable {maxClients : Nat} {base : Finset Int} {listenFd : Int}
  {p : PollServer.State} {e : EpollServer.State}

/-- Two open connections have different descriptors. -/
theorem Related.fd_ne (h : Related maxClients base listenFd p e) {i j : Nat}
    (hi : i < maxClients) (hfd : 0 ≤ (e.conns i).fd) (hj : j < maxClients)
    (hne : j ≠ i) : (e.conns j).fd ≠ (e.conns i).fd := by
  intro heq
  obtain ⟨mask, hreg⟩ := (h.slots i hi).registered hfd
  obtain ⟨mask', hreg'⟩ := (h.slots j hj).registered (heq ▸ hfd)
  have hboth : e.interest (e.conns i).fd = some ⟨mask', some j⟩ := heq ▸ hreg'
  have hindex : some j = some i := by
    have hsame := hboth.symm.trans hreg
    exact congrArg EpollServer.EpollEvent.ptr (Option.some.inj hsame)
  exact hne (Option.some.inj hindex)

/-- A match does not depend on what happens to other descriptors. -/
theorem Matches.frame {x : PollServer.Slot} {y : EpollServer.Slot} (h : Matches x y)
    {interest : EpollServer.InterestList} {trace : Trace}
    (hinterest : 0 ≤ y.conn.fd → interest y.conn.fd = y.interest y.conn.fd) :
    Matches { x with trace := trace } { y with interest := interest, trace := trace } := by
  refine ⟨h.fd, h.pfd, h.used, h.sent, h.pending, rfl, fun hfd => ?_⟩
  obtain ⟨mask, hreg, harmed⟩ := h.armed hfd
  exact ⟨mask, (hinterest hfd).trans hreg, harmed⟩

theorem initial_related : Related maxClients base listenFd
    (PollServer.initial listenFd) (EpollServer.initial listenFd) := by
  refine ⟨fun i _ => ?_, rfl, fun why => ⟨(by intro h; cases h), (by intro h; cases h)⟩,
    fun i _ hfd => ?_, fun fd hreg => ?_, Finset.Subset.refl base⟩
  · refine ⟨rfl, rfl, rfl, rfl, rfl, rfl, fun hfd => ?_⟩
    have hneg : (0 : Int) ≤ -1 := hfd
    omega
  · have hneg : (0 : Int) ≤ -1 := hfd
    omega
  · left
    by_contra hne
    simp [EpollServer.initial, hne] at hreg

/-! ## An event -/

theorem eventStep_runs {i : Nat} {ev : EpollServer.Ready} {rest : List EpollServer.Ready}
    {rd : Except Errno (List UInt8)} {wr : Except Errno Nat}
    (h : ∀ why, (EpollServer.handleEvent (e.slot i) ev.events rd wr).1 ≠ .exits why) :
    EpollServer.eventStep e i ev rest rd wr =
      { e.setSlot (EpollServer.handleEvent (e.slot i) ev.events rd wr).2 with
        pc := EpollServer.dispatch rest } := by
  unfold EpollServer.eventStep
  rcases hout : EpollServer.handleEvent (e.slot i) ev.events rd wr with ⟨flow, y⟩
  rw [hout] at h
  cases flow with
  | fallThrough => rfl
  | continueBatch => rfl
  | exits why => exact absurd rfl (h why)

/-- Storing two slots back that were served alike. -/
theorem Related.setSlot (h : Related maxClients base listenFd p e) {i : Nat}
    (hi : i < maxClients) (hfd : 0 ≤ (e.conns i).fd) {x : PollServer.Slot}
    {y : EpollServer.Slot} (hmatch : Matches x y)
    (hkernel : Stays base (e.slot i) y ∨ Closes base (e.slot i) y)
    {pp : PollServer.Pc} {pe : EpollServer.Pc}
    (hrunning : ∀ why, pp ≠ .exited why ∧ pe ≠ .exited why) :
    Related maxClients base listenFd { p.setSlot (i + 1) x with pc := pp }
      { e.setSlot y with pc := pe } := by
  have hindex : y.index = i := by
    rcases hkernel with hk | hk
    · exact hk.index
    · exact hk.index
  have hframe : ∀ k, k ≠ (e.conns i).fd → y.interest k = e.interest k := by
    rcases hkernel with hk | hk
    · exact hk.frame
    · exact hk.frame
  have hconn : ∀ j, j ≠ i → Function.update e.conns y.index y.conn j = e.conns j := by
    intro j hji
    rw [hindex, Function.update_of_ne hji]
  have hself : Function.update e.conns y.index y.conn i = y.conn := by
    rw [hindex, Function.update_self]
  have hopen : ∀ j, j < maxClients → j ≠ i → 0 ≤ (e.conns j).fd →
      (e.conns j).fd ∈ Transcript.clients base y.trace := by
    intro j hj hji hlive
    obtain ⟨hmem, hbase⟩ := mem_clients.mp (h.clients j hj hlive)
    refine mem_clients.mpr ⟨?_, hbase⟩
    rcases hkernel with hk | hk
    · rw [hk.openKeys]
      exact hmem
    · rw [hk.openKeys]
      exact Finset.mem_erase.mpr ⟨h.fd_ne hi hfd hj hji, hmem⟩
  refine ⟨fun j hj => ?_, hmatch.trace, hrunning, fun j hj hlive => ?_, fun fd hreg => ?_,
    ?_⟩
  · by_cases hji : j = i
    · subst hji
      show Matches ⟨Function.update p.pfds (j + 1) x.pfd (j + 1),
        Function.update p.conns (j + 1) x.conn (j + 1), x.trace⟩
        ⟨j, Function.update e.conns y.index y.conn j, y.interest, y.trace⟩
      rw [Function.update_self, Function.update_self, hself]
      cases y
      cases hindex
      exact hmatch
    · have hji' : j + 1 ≠ i + 1 := by omega
      show Matches ⟨Function.update p.pfds (i + 1) x.pfd (j + 1),
        Function.update p.conns (i + 1) x.conn (j + 1), x.trace⟩
        ⟨j, Function.update e.conns y.index y.conn j, y.interest, y.trace⟩
      rw [Function.update_of_ne hji', Function.update_of_ne hji', hconn j hji,
        hmatch.trace]
      exact (h.slots j hj).frame fun _ => hframe _ (h.fd_ne hi hfd hj hji)
  · show (Function.update e.conns y.index y.conn j).fd ∈ Transcript.clients base y.trace
    change 0 ≤ (Function.update e.conns y.index y.conn j).fd at hlive
    by_cases hji : j = i
    · subst hji
      rw [hself] at hlive ⊢
      rcases hkernel with hk | hk
      · rw [Transcript.clients, hk.openKeys, hk.fd]
        exact h.clients j hj hfd
      · rw [hk.fd] at hlive
        omega
    · rw [hconn j hji] at hlive ⊢
      exact hopen j hj hji hlive
  · change (y.interest fd).isSome at hreg
    by_cases hown : fd = (e.conns i).fd
    · rcases hkernel with hk | hk
      · refine .inr ⟨i, hi, ?_, hown ▸ hfd⟩
        show (Function.update e.conns y.index y.conn i).fd = fd
        rw [hself, hk.fd, hown]
        rfl
      · have hnone : y.interest (e.conns i).fd = none := hk.forgotten
        rw [hown, hnone] at hreg
        cases hreg
    · rw [hframe fd hown] at hreg
      rcases h.registered fd hreg with hlisten | ⟨j, hj, hjfd, hpos⟩
      · exact .inl hlisten
      · have hji : j ≠ i := by
          rintro rfl
          exact hown hjfd.symm
        refine .inr ⟨j, hj, ?_, hpos⟩
        show (Function.update e.conns y.index y.conn j).fd = fd
        rw [hconn j hji, hjfd]
  · show base ⊆ openKeys base y.trace
    rcases hkernel with hk | hk
    · rw [hk.openKeys]
      exact h.base_subset
    · rw [hk.openKeys]
      intro k hk
      refine Finset.mem_erase.mpr ⟨?_, h.base_subset hk⟩
      rintro rfl
      exact (mem_clients.mp (h.clients i hi hfd)).2 hk

/-- No slot's state depends on its `revents`. -/
theorem Related.raise (h : Related maxClients base listenFd p e) (i : Nat)
    (flags : PollServer.PollFlags) :
    Related maxClients base listenFd (raise p i flags) e := by
  refine ⟨fun j hj => ?_, h.trace, h.running, h.clients, h.registered, h.base_subset⟩
  have hmatch := h.slots j hj
  by_cases hji : j + 1 = i
  · have hslot : (PollEpoll.raise p i flags).slot (j + 1) =
        { p.slot (j + 1) with pfd := { (p.slot (j + 1)).pfd with revents := flags } } := by
      rw [← hji]
      show PollServer.Slot.mk (Function.update p.pfds (j + 1) _ (j + 1)) _ _ = _
      rw [Function.update_self]
      rfl
    rw [hslot]
    exact ⟨hmatch.fd, hmatch.pfd, hmatch.used, hmatch.sent, hmatch.pending, hmatch.trace,
      hmatch.armed⟩
  · have hslot : (PollEpoll.raise p i flags).slot (j + 1) = p.slot (j + 1) := by
      show PollServer.Slot.mk (Function.update p.pfds i _ (j + 1)) _ _ = _
      rw [Function.update_of_ne hji]
      rfl
    rw [hslot]
    exact hmatch

/-- An event on an open connection is served alike. -/
theorem Related.event (h : Related maxClients base listenFd p e) {i : Nat}
    (hi : i < maxClients) (hfd : 0 ≤ (e.conns i).fd) (flags : Flags)
    (rd : Except Errno (List UInt8)) (wr : Except Errno Nat) :
    Related maxClients base listenFd
      (PollServer.scanStep maxClients (PollEpoll.raise p (i + 1) flags.toPoll) (i + 1) rd wr)
      (EpollServer.eventStep e i ⟨(e.conns i).fd, flags.toEpoll, some i⟩ [] rd wr) := by
  have hraised := h.raise (i + 1) flags.toPoll
  have hflags : ((PollEpoll.raise p (i + 1) flags.toPoll).slot (i + 1)).pfd.revents =
      flags.toPoll := by
    show (Function.update p.pfds (i + 1) _ (i + 1)).revents = _
    rw [Function.update_self]
  have hserved : Served base (e.slot i) _ _ :=
    serveSlot_served (hraised.slots i hi) hfd flags hflags rd wr
  rw [eventStep_runs hserved.runs]
  refine hraised.setSlot hi hfd hserved.slots hserved.kernel fun why => ⟨?_, ?_⟩
  · exact PollServer.scanFrom_ne_exited _ why
  · intro hexit
    cases hexit

/-! ## An accepted client -/

/-- The two searches for a free slot find the same one. -/
theorem Related.firstFree_eq (h : Related maxClients base listenFd p e) :
    firstFree (fun i => (p.conns i).fd < 0) 1 maxClients =
      (firstFree (fun i => (e.conns i).fd < 0) 0 maxClients).map (· + 1) := by
  rw [show (1 : Nat) = 0 + 1 from rfl, firstFree_succ]
  congr 1
  refine firstFree_congr fun i _ hi => ?_
  have hfd : (p.conns (i + 1)).fd = (e.conns i).fd := (h.slots i (by omega)).fd
  rw [hfd]

/-- A number that is not in use is not registered. -/
theorem Related.not_registered (hlisten : listenFd ∈ base)
    (h : Related maxClients base listenFd p e) {fd : Int}
    (hnew : fd ∉ openKeys base e.trace) : e.interest fd = none := by
  rw [← Option.not_isSome_iff_eq_none]
  intro hreg
  rcases h.registered fd hreg with rfl | ⟨i, hi, rfl, hpos⟩
  · exact hnew (h.base_subset hlisten)
  · exact hnew (mem_clients.mp (h.clients i hi hpos)).1

/-- The client is refused by both servers. -/
theorem Related.refused (h : Related maxClients base listenFd p e) {fd : Int}
    (hnew : fd ∉ openKeys base e.trace) :
    Related maxClients base listenFd
      { p with trace := .close fd :: .accept fd :: p.trace }
      { e with
        interest := EpollServer.forget e.interest fd
        trace := .close fd :: .accept fd :: e.trace } := by
  have hopen : openKeys base (.close fd :: .accept fd :: e.trace) =
      openKeys base e.trace := Finset.erase_insert hnew
  have hother : ∀ i, i < maxClients → 0 ≤ (e.conns i).fd → (e.conns i).fd ≠ fd := by
    rintro i hi hlive rfl
    exact hnew (mem_clients.mp (h.clients i hi hlive)).1
  refine ⟨fun i hi => ?_, by rw [h.trace], h.running, fun i hi hlive => ?_,
    fun k hreg => ?_, ?_⟩
  · show Matches ⟨p.pfds (i + 1), p.conns (i + 1), .close fd :: .accept fd :: p.trace⟩ _
    rw [h.trace]
    exact (h.slots i hi).frame fun hlive => Function.update_of_ne (hother i hi hlive) _ _
  · show (e.conns i).fd ∈ openKeys base (.close fd :: .accept fd :: e.trace) \ base
    rw [hopen]
    exact h.clients i hi hlive
  · change (EpollServer.forget e.interest fd k).isSome at hreg
    by_cases hk : k = fd
    · subst hk
      have hnone : EpollServer.forget e.interest k k = none := Function.update_self _ _ _
      rw [hnone] at hreg
      cases hreg
    · have hsame : EpollServer.forget e.interest fd k = e.interest k :=
        Function.update_of_ne hk _ _
      rw [hsame] at hreg
      exact h.registered k hreg
  · show base ⊆ openKeys base (.close fd :: .accept fd :: e.trace)
    rw [hopen]
    exact h.base_subset

/-- The client is entered in slot `i` by both servers. -/
theorem Related.enrolled (h : Related maxClients base listenFd p e) {fd : Int} {i : Nat}
    (hi : i < maxClients) (hfree : (e.conns i).fd < 0) (hfd : 0 ≤ fd)
    (hnew : fd ∉ openKeys base e.trace) :
    Related maxClients base listenFd
      { p with
        pfds := Function.update p.pfds (i + 1)
          { fd := fd, events := PollServer.POLLIN, revents := PollServer.noFlags }
        conns := Function.update p.conns (i + 1)
          { p.conns (i + 1) with fd := fd, used := 0, sent := 0 }
        trace := .accept fd :: p.trace }
      { e with
        conns := Function.update e.conns i { e.conns i with fd := fd, used := 0, sent := 0 }
        interest := Function.update e.interest fd
          (some ⟨EpollServer.armedForInput, some i⟩)
        trace := .accept fd :: e.trace } := by
  have hother : ∀ j, j < maxClients → 0 ≤ (e.conns j).fd → (e.conns j).fd ≠ fd := by
    rintro j hj hlive rfl
    exact hnew (mem_clients.mp (h.clients j hj hlive)).1
  have hbase : fd ∉ base := fun hmem => hnew (h.base_subset hmem)
  refine ⟨fun j hj => ?_, by rw [h.trace], h.running, fun j hj hlive => ?_,
    fun k hreg => ?_, h.base_subset.trans (Finset.subset_insert _ _)⟩
  · by_cases hji : j = i
    · subst hji
      show Matches ⟨Function.update p.pfds (j + 1) _ (j + 1),
        Function.update p.conns (j + 1) _ (j + 1), .accept fd :: p.trace⟩
        ⟨j, Function.update e.conns j _ j, _, .accept fd :: e.trace⟩
      rw [Function.update_self, Function.update_self, Function.update_self, h.trace]
      refine ⟨rfl, rfl, rfl, rfl, ?_, rfl, fun _ => ?_⟩
      · rw [PollServer.pending_of_drained rfl, EpollServer.pending_of_drained rfl]
      · exact ⟨_, Function.update_self _ _ _, .inl ⟨rfl, rfl⟩⟩
    · have hji' : j + 1 ≠ i + 1 := by omega
      show Matches ⟨Function.update p.pfds (i + 1) _ (j + 1),
        Function.update p.conns (i + 1) _ (j + 1), .accept fd :: p.trace⟩
        ⟨j, Function.update e.conns i _ j, _, .accept fd :: e.trace⟩
      rw [Function.update_of_ne hji', Function.update_of_ne hji',
        Function.update_of_ne hji, h.trace]
      exact (h.slots j hj).frame fun hlive => Function.update_of_ne (hother j hj hlive) _ _
  · show (Function.update e.conns i _ j).fd ∈ Transcript.clients base (.accept fd :: e.trace)
    change 0 ≤ (Function.update e.conns i _ j).fd at hlive
    rw [clients_accept hbase]
    by_cases hji : j = i
    · subst hji
      rw [Function.update_self]
      exact Finset.mem_insert_self _ _
    · rw [Function.update_of_ne hji] at hlive ⊢
      exact Finset.mem_insert_of_mem (h.clients j hj hlive)
  · change (Function.update e.interest fd _ k).isSome at hreg
    by_cases hk : k = fd
    · refine .inr ⟨i, hi, ?_, hk ▸ hfd⟩
      show (Function.update e.conns i _ i).fd = k
      rw [Function.update_self, hk]
    · rw [Function.update_of_ne hk] at hreg
      rcases h.registered k hreg with hlisten | ⟨j, hj, hjfd, hpos⟩
      · exact .inl hlisten
      · have hji : j ≠ i := by
          rintro rfl
          omega
        refine .inr ⟨j, hj, ?_, hpos⟩
        show (Function.update e.conns i _ j).fd = k
        rw [Function.update_of_ne hji, hjfd]

theorem Related.accepted (hlisten : listenFd ∈ base)
    (h : Related maxClients base listenFd p e) {fd : Int}
    (hk : KernelCall base (.accept fd) e.trace) :
    Related maxClients base listenFd (PollServer.acceptStep maxClients base p (.ok fd))
      (EpollServer.acceptStep maxClients base e [] (.ok fd) none) := by
  obtain ⟨hfd, hnew⟩ := hk
  have hsetp : setNonblocking (openKeys base (.accept fd :: p.trace)) fd = none :=
    setNonblocking_of_mem (Finset.mem_insert_self fd _)
  have hsete : setNonblocking (openKeys base (.accept fd :: e.trace)) fd = none :=
    setNonblocking_of_mem (Finset.mem_insert_self fd _)
  have hsearch := h.firstFree_eq
  unfold PollServer.acceptStep EpollServer.acceptStep
  simp only [hsetp, hsete, PollServer.addConnection, EpollServer.allocateConnection]
  rcases hfree : firstFree (fun i => decide ((e.conns i).fd < 0)) 0 maxClients with _ | i
  · rw [hfree] at hsearch
    simp only [hsearch, Option.map_none]
    exact h.refused hnew
  · rw [hfree] at hsearch
    simp only [hsearch, Option.map_some]
    obtain ⟨_, hi, hblank⟩ := firstFree_some hfree
    have hnone := h.not_registered hlisten hnew
    have hadd : EpollServer.epollCtlAdd e.interest fd ⟨EpollServer.armedForInput, some i⟩
        none = .ok (Function.update e.interest fd
          (some ⟨EpollServer.armedForInput, some i⟩)) := by
      simp only [EpollServer.epollCtlAdd, hnone, Option.isSome_none, Bool.false_eq_true,
        if_false]
    simp only [hadd]
    exact h.enrolled (by omega) (of_decide_eq_true hblank) hfd hnew

end Tables

/-! ## Runs side by side -/

/-- The servers match each other step for step. -/
theorem bisimulation {maxClients : Nat} {base : Finset Int} {listenFd : Int}
    (hlisten : listenFd ∈ base) :
    System.Bisimulation (pollSteps maxClients base listenFd)
      (epollSteps maxClients base listenFd) (Related maxClients base listenFd) where
  init p e hp he := by
    cases hp
    cases he
    exact initial_related
  forth p e step p' hR hnext := by
    cases step with
    | accepted fd =>
        obtain ⟨hk, rfl⟩ := hnext
        rw [hR.trace] at hk
        exact ⟨_, ⟨hk, rfl⟩, hR.accepted hlisten hk⟩
    | event i flags rd wr =>
        obtain ⟨⟨hi, hfd⟩, rfl⟩ := hnext
        have hfd' : 0 ≤ (e.conns i).fd := (hR.slots i hi).fd ▸ hfd
        exact ⟨_, ⟨⟨hi, hfd'⟩, rfl⟩, hR.event hi hfd' flags rd wr⟩
  back p e step e' hR hnext := by
    cases step with
    | accepted fd =>
        obtain ⟨hk, rfl⟩ := hnext
        have hk' : KernelCall base (.accept fd) p.trace := hR.trace ▸ hk
        exact ⟨_, ⟨hk', rfl⟩, hR.accepted hlisten hk⟩
    | event i flags rd wr =>
        obtain ⟨⟨hi, hfd⟩, rfl⟩ := hnext
        have hfd' : 0 ≤ (p.conns (i + 1)).fd := (hR.slots i hi).fd ▸ hfd
        exact ⟨_, ⟨⟨hi, hfd'⟩, rfl⟩, hR.event hi hfd flags rd wr⟩

theorem epollSteps_unique {maxClients : Nat} {base : Finset Int} {listenFd : Int}
    (e : EpollServer.State) (step : Step) (e' e'' : EpollServer.State)
    (h : (epollSteps maxClients base listenFd).next e step e')
    (h' : (epollSteps maxClients base listenFd).next e step e'') : e' = e'' := by
  cases step with
  | accepted fd => exact h.2.trans h'.2.symm
  | event i flags rd wr => exact h.2.trans h'.2.symm

/-- Two slots agree: descriptor, cursors and pending bytes are the same, and what
`poll` is asked to watch for is what the registered mask contains. -/
structure Agree (p : PollServer.State) (e : EpollServer.State) (i : Nat) : Prop where
  fd : (p.conns (i + 1)).fd = (e.conns i).fd ∧ (p.pfds (i + 1)).fd = (e.conns i).fd
  cursors : (p.conns (i + 1)).used = (e.conns i).used ∧
    (p.conns (i + 1)).sent = (e.conns i).sent
  pending : (p.conns (i + 1)).buffer.window (p.conns (i + 1)).sent (p.conns (i + 1)).used =
    (e.conns i).buffer.window (e.conns i).sent (e.conns i).used
  mask : 0 ≤ (e.conns i).fd → ∃ ev, e.interest (e.conns i).fd = some ev ∧
    ((p.pfds (i + 1)).events = PollServer.POLLIN ↔ ev.events.epollin = true) ∧
    ((p.pfds (i + 1)).events = PollServer.POLLOUT ↔ ev.events.epollout = true)

theorem Armed.iff {events : PollServer.PollFlags} {mask : EpollServer.EpollFlags}
    (h : Armed events mask) :
    (events = PollServer.POLLIN ↔ mask.epollin = true) ∧
      (events = PollServer.POLLOUT ↔ mask.epollout = true) := by
  rcases h with ⟨rfl, rfl⟩ | ⟨rfl, rfl⟩ <;> decide

theorem Matches.agree {p : PollServer.State} {e : EpollServer.State} {i : Nat}
    (h : Matches (p.slot (i + 1)) (e.slot i)) : Agree p e i := by
  refine ⟨⟨h.fd, h.pfd⟩, ⟨h.used, h.sent⟩, h.pending, fun hfd => ?_⟩
  obtain ⟨mask, hreg, harmed⟩ := h.armed hfd
  exact ⟨_, hreg, harmed.iff⟩

/-- The two servers simulate each other.  From related states, the initial ones
among them, each step of one is a step of the other into related states; so the
same sequences of steps are possible, and after any of them the two servers have
made the same calls, and slot `i + 1` of one agrees with slot `i` of the other. -/
theorem servers_simulate (maxClients : Nat) (inherited : Finset Int) (listenFd : Int) :
    System.Bisimulation (pollSteps maxClients (insert listenFd inherited) listenFd)
      (epollSteps maxClients (insert listenFd inherited) listenFd)
      (Related maxClients (insert listenFd inherited) listenFd) ∧
    (∀ p e, Related maxClients (insert listenFd inherited) listenFd p e →
      p.trace = e.trace ∧ ∀ i, i < maxClients → Agree p e i) ∧
    (∀ steps,
      (∃ p, (pollSteps maxClients (insert listenFd inherited) listenFd).Run
        (PollServer.initial listenFd) steps p) ↔
      ∃ e, (epollSteps maxClients (insert listenFd inherited) listenFd).Run
        (EpollServer.initial listenFd) steps e) ∧
    ∀ steps p e,
      (pollSteps maxClients (insert listenFd inherited) listenFd).Run
        (PollServer.initial listenFd) steps p →
      (epollSteps maxClients (insert listenFd inherited) listenFd).Run
        (EpollServer.initial listenFd) steps e →
      p.trace = e.trace ∧ ∀ i, i < maxClients → Agree p e i := by
  have hbisim : System.Bisimulation
      (pollSteps maxClients (insert listenFd inherited) listenFd)
      (epollSteps maxClients (insert listenFd inherited) listenFd)
      (Related maxClients (insert listenFd inherited) listenFd) :=
    bisimulation (Finset.mem_insert_self listenFd inherited)
  have hagree : ∀ p e, Related maxClients (insert listenFd inherited) listenFd p e →
      p.trace = e.trace ∧ ∀ i, i < maxClients → Agree p e i :=
    fun p e hR => ⟨hR.trace, fun i hi => (hR.slots i hi).agree⟩
  have hinit : Related maxClients (insert listenFd inherited) listenFd
      (PollServer.initial listenFd) (EpollServer.initial listenFd) := initial_related
  refine ⟨hbisim, hagree, fun steps => ⟨?_, ?_⟩, fun steps p e hp he => ?_⟩
  · rintro ⟨p, hp⟩
    obtain ⟨e, he, _⟩ := hbisim.run_forth hinit hp
    exact ⟨e, he⟩
  · rintro ⟨e, he⟩
    obtain ⟨p, hp, _⟩ := hbisim.run_back hinit he
    exact ⟨p, hp⟩
  · obtain ⟨e', he', hR⟩ := hbisim.run_forth hinit hp
    cases System.Run.unique epollSteps_unique he he'
    exact hagree p e hR

end SysLab.PartB.PollEpoll
