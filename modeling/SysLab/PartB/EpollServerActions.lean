import SysLab.PartB.Action
import SysLab.PartB.EpollServerTable

/-!
# The `epoll` server, one call at a time

The counterpart of `PollServerActions`: the level of `Action` (`actions`), what
two servers alike do under the same action (`perform_alike`, `actions_follow`),
and the passage from the event loop to actions and back (`run_actions`,
`actions_run`).
-/

namespace SysLab.PartB.EpollServer

open SysLab.Foundation
open SysLab.Foundation.Transcript

/-! ## Actions -/

/-- `EPOLLOUT`. -/
def EPOLLOUT : EpollFlags := { epollout := true }

/-- `EPOLLERR`. -/
def EPOLLERR : EpollFlags := { epollerr := true }

/-- Connection `i` holds a client and is registered. -/
structure State.Holds (maxClients : Nat) (e : State) (i : Nat) : Prop where
  lt : i < maxClients
  fd : 0 ≤ (e.conns i).fd
  registered : (e.interest (e.conns i).fd).isSome

/-- When the server gets to perform an action. -/
def State.Performs (maxClients : Nat) (e : State) : Action (Int × Option Errno) → Prop
  | .accepted _ => True
  | .read i _ => e.Holds maxClients i ∧ (e.conns i).used = (e.conns i).sent
  | .write i _ => e.Holds maxClients i ∧ (e.conns i).sent < (e.conns i).used
  | .broken i => e.Holds maxClients i

/-- Where it leads. -/
def perform (maxClients : Nat) (base : Finset Int) (e : State) :
    Action (Int × Option Errno) → State
  | .accepted (fd, refused) => acceptStep maxClients base e [] (.ok fd) refused
  | .read i rd => e.setSlot (readBranch (e.slot i) EPOLLIN rd).2
  | .write i wr => e.setSlot (writeBranch (e.slot i) EPOLLOUT wr).2
  | .broken i => e.setSlot (closeConnection (e.slot i))

/-- The server, one call at a time, among all kernels that keep their promises. -/
def actions (maxClients : Nat) (base : Finset Int) (listenFd : Int) :
    System State (Action (Int × Option Errno)) where
  init e := e = initial listenFd
  next e a e' :=
    e.Performs maxClients a ∧ e' = perform maxClients base e a ∧ KernelOk base e'.trace

/-- Two connections in the same state, after calls that `R` relates. -/
structure Slot.Alike (R : Trace → Trace → Prop) (x y : Slot) : Prop where
  index : x.index = y.index
  conn : x.conn = y.conn
  interest : x.interest = y.interest
  trace : R x.trace y.trace

/-- Two servers with the same connections and registrations. -/
structure State.Alike (R : Trace → Trace → Prop) (e d : State) : Prop where
  conns : e.conns = d.conns
  interest : e.interest = d.interest
  trace : R e.trace d.trace

section Alike

variable {maxClients : Nat} {base : Finset Int} {listenFd : Int}
  {R : Trace → Trace → Prop} {x y : Slot} {d e : State}

theorem Slot.Alike.close (hR : LooksAlike base R) (h : x.Alike R y) :
    Slot.Alike R (closeConnection x) (closeConnection y) := by
  refine ⟨h.index, ?_, ?_, ?_⟩
  · simp only [closeConnection, h.conn]
  · simp only [closeConnection, h.conn, h.interest]
  · simp only [closeConnection, h.conn]
    split
    · exact hR.cons _ _ _ h.trace
    · exact h.trace

/-- `arm_connection` looks at the registration only. -/
theorem armConnection_alike (h : x.Alike R y) (events : EpollFlags) :
    (∃ x' y', armConnection x events = .ok x' ∧ armConnection y events = .ok y' ∧
      x'.Alike R y') ∨
    ∃ why, armConnection x events = .error why ∧ armConnection y events = .error why := by
  unfold armConnection
  rw [h.index, h.conn, h.interest]
  rcases epollCtlMod y.interest y.conn.fd ⟨events, some y.index⟩ with err | interest
  · exact .inr ⟨_, rfl, rfl⟩
  · exact .inl ⟨_, _, rfl, rfl, ⟨rfl, rfl, rfl, h.trace⟩⟩

/-- The read branch does not look at the calls made before. -/
theorem readBranch_alike (hR : LooksAlike base R) (h : x.Alike R y) {rv rv' : EpollFlags}
    (hin : rv.epollin = rv'.epollin) (rd : Except Errno (List UInt8)) :
    (readBranch x rv rd).1 = (readBranch y rv' rd).1 ∧
      Slot.Alike R (readBranch x rv rd).2 (readBranch y rv' rd).2 := by
  have hcall : Slot.Alike R
      { x with trace := .read x.conn.fd bufferSize rd :: x.trace }
      { y with trace := .read y.conn.fd bufferSize rd :: y.trace } :=
    ⟨h.index, h.conn, h.interest, h.conn ▸ hR.cons _ _ _ h.trace⟩
  unfold readBranch
  rw [hin, h.conn]
  by_cases hguard : rv'.epollin = true ∧ y.conn.used = y.conn.sent
  · rw [if_pos hguard, if_pos hguard]
    rw [h.conn] at hcall
    rcases rd with err | bytes
    · by_cases hblock : err.wouldBlock = true
      · simp only [hblock, if_true]
        exact ⟨trivial, ⟨h.index, rfl, h.interest, hcall.trace⟩⟩
      · simp only [hblock, Bool.false_eq_true, if_false]
        exact ⟨trivial, hcall.close hR⟩
    · cases bytes with
      | nil => exact ⟨rfl, hcall.close hR⟩
      | cons b bs =>
          have hfilled : Slot.Alike R
              { x with
                conn := { y.conn with
                  buffer := y.conn.buffer.store (b :: bs)
                  used := (b :: bs).length
                  sent := 0 }
                trace := .read y.conn.fd bufferSize (.ok (b :: bs)) :: x.trace }
              { y with
                conn := { y.conn with
                  buffer := y.conn.buffer.store (b :: bs)
                  used := (b :: bs).length
                  sent := 0 }
                trace := .read y.conn.fd bufferSize (.ok (b :: bs)) :: y.trace } :=
            ⟨h.index, rfl, h.interest, hcall.trace⟩
          rcases armConnection_alike hfilled armedForOutput with
            ⟨x', y', hx, hy, halike⟩ | ⟨why, hx, hy⟩
          · simp only [hx, hy]
            exact ⟨trivial, halike⟩
          · simp only [hx, hy]
            exact ⟨trivial, hfilled⟩
  · rw [if_neg hguard, if_neg hguard]
    exact ⟨rfl, h⟩

theorem writeBranch_alike (hR : LooksAlike base R) (h : x.Alike R y) {rv rv' : EpollFlags}
    (hout : rv.epollout = rv'.epollout) (wr : Except Errno Nat) :
    Slot.Alike R (writeBranch x rv wr).2 (writeBranch y rv' wr).2 := by
  have hcall : Slot.Alike R
      { x with trace := .write x.conn.fd x.conn.pending wr :: x.trace }
      { y with trace := .write y.conn.fd y.conn.pending wr :: y.trace } :=
    ⟨h.index, h.conn, h.interest, h.conn ▸ hR.cons _ _ _ h.trace⟩
  unfold writeBranch
  rw [hout, h.conn]
  by_cases hguard : rv'.epollout = true ∧ y.conn.sent < y.conn.used
  · rw [if_pos hguard, if_pos hguard]
    rw [h.conn] at hcall
    rcases wr with err | n
    · by_cases hblock : err.wouldBlock = true
      · simp only [hblock, if_true]
        exact ⟨h.index, rfl, h.interest, hcall.trace⟩
      · simp only [hblock, Bool.false_eq_true, if_false]
        exact hcall.close hR
    · cases n with
      | zero => exact hcall.close hR
      | succ n =>
          by_cases hall : y.conn.sent + (n + 1) = y.conn.used
          · have hdrained : Slot.Alike R
                { x with
                  conn := { y.conn with used := 0, sent := 0 }
                  trace := .write y.conn.fd y.conn.pending (.ok (n + 1)) :: x.trace }
                { y with
                  conn := { y.conn with used := 0, sent := 0 }
                  trace := .write y.conn.fd y.conn.pending (.ok (n + 1)) :: y.trace } :=
              ⟨h.index, rfl, h.interest, hcall.trace⟩
            simp only [hall, if_true]
            rcases armConnection_alike hdrained armedForInput with
              ⟨x', y', hx, hy, halike⟩ | ⟨why, hx, hy⟩
            · simp only [hx, hy]
              exact halike
            · simp only [hx, hy]
              exact hdrained
          · simp only [hall, if_false]
            exact ⟨h.index, rfl, h.interest, hcall.trace⟩
  · rw [if_neg hguard, if_neg hguard]
    exact h

theorem State.Alike.slot (h : e.Alike R d) (i : Nat) : (e.slot i).Alike R (d.slot i) :=
  ⟨rfl, congrFun h.conns i, h.interest, h.trace⟩

theorem State.Alike.setSlot (h : e.Alike R d) (hxy : x.Alike R y) :
    (e.setSlot x).Alike R (d.setSlot y) := by
  refine ⟨?_, hxy.interest, hxy.trace⟩
  show Function.update e.conns x.index x.conn = Function.update d.conns y.index y.conn
  rw [h.conns, hxy.conn, hxy.index]

variable (maxClients) in
/-- A client is admitted or refused, whatever came before. -/
theorem State.Alike.accept (hR : LooksAlike base R) (h : e.Alike R d)
    (rest rest' : List Ready) (fd : Int) (refused : Option Errno) :
    (acceptStep maxClients base e rest (.ok fd) refused).Alike R
      (acceptStep maxClients base d rest' (.ok fd) refused) := by
  have hsete : setNonblocking (openKeys base (.accept fd :: e.trace)) fd = none :=
    setNonblocking_of_mem (Finset.mem_insert_self fd _)
  have hsetd : setNonblocking (openKeys base (.accept fd :: d.trace)) fd = none :=
    setNonblocking_of_mem (Finset.mem_insert_self fd _)
  have htrace : R (.accept fd :: e.trace) (.accept fd :: d.trace) := hR.cons _ _ _ h.trace
  unfold acceptStep
  simp only [hsete, hsetd, allocateConnection, h.conns, h.interest]
  rcases firstFree (fun i => decide ((d.conns i).fd < 0)) 0 maxClients with _ | i
  · exact ⟨rfl, rfl, hR.cons _ _ _ htrace⟩
  · simp only
    rcases epollCtlAdd d.interest fd ⟨armedForInput, some i⟩ refused with err | interest
    · have hadmitted : State.Alike R
          { e with
            conns := Function.update d.conns i
              { d.conns i with fd := fd, used := 0, sent := 0 }
            interest := d.interest
            trace := .accept fd :: e.trace }
          { d with
            conns := Function.update d.conns i
              { d.conns i with fd := fd, used := 0, sent := 0 }
            interest := d.interest
            trace := .accept fd :: d.trace } := ⟨rfl, rfl, htrace⟩
      exact hadmitted.setSlot ((hadmitted.slot i).close hR)
    · exact ⟨rfl, rfl, htrace⟩

theorem State.Alike.holds (h : e.Alike R d) {i : Nat} (hi : e.Holds maxClients i) :
    d.Holds maxClients i :=
  ⟨hi.lt, h.conns ▸ hi.fd, by rw [← h.conns, ← h.interest]; exact hi.registered⟩

variable (maxClients) in
/-- The same action on two servers alike leaves them alike. -/
theorem perform_alike (hR : LooksAlike base R) (h : e.Alike R d)
    (a : Action (Int × Option Errno)) :
    (perform maxClients base e a).Alike R (perform maxClients base d a) := by
  cases a with
  | accepted res => exact h.accept maxClients hR [] [] res.1 res.2
  | read i rd =>
      obtain ⟨_, hread⟩ := readBranch_alike hR (h.slot i) (rfl : EPOLLIN.epollin = _) rd
      exact h.setSlot hread
  | write i wr =>
      exact h.setSlot (writeBranch_alike hR (h.slot i) (rfl : EPOLLOUT.epollout = _) wr)
  | broken i => exact h.setSlot ((h.slot i).close hR)

theorem State.Alike.performs (h : e.Alike R d) {a : Action (Int × Option Errno)}
    (ha : e.Performs maxClients a) : d.Performs maxClients a := by
  cases a with
  | accepted res => trivial
  | read i rd => exact ⟨h.holds ha.1, h.conns ▸ ha.2⟩
  | write i wr => exact ⟨h.holds ha.1, h.conns ▸ ha.2⟩
  | broken i => exact h.holds ha

/-- What one server can do, the other can. -/
theorem actions_follow (hR : LooksAlike base R) (h : e.Alike R d)
    {a : Action (Int × Option Errno)} {e' : State}
    (he : (actions maxClients base listenFd).next e a e') :
    ∃ d', (actions maxClients base listenFd).next d a d' ∧ e'.Alike R d' := by
  obtain ⟨ha, rfl, hk⟩ := he
  have halike := perform_alike maxClients hR h a
  exact ⟨_, ⟨h.performs ha, rfl, hR.kernelOk _ _ halike.trace hk⟩, halike⟩

end Alike

/-! ## The event loop as actions -/

section EventLoop

variable {maxClients : Nat} {base : Finset Int} {listenFd : Int} {s t d : State}

theorem State.Alike.symm (h : s.Alike Eq d) : d.Alike Eq s :=
  ⟨h.conns.symm, h.interest.symm, h.trace.symm⟩

theorem State.Alike.trans (h : s.Alike Eq d) (h' : d.Alike Eq t) : s.Alike Eq t :=
  ⟨h.conns.trans h'.conns, h.interest.trans h'.interest, h.trace.trans h'.trace⟩

theorem setSlot_slot (s : State) (i : Nat) : s.setSlot (s.slot i) = s := by
  simp [State.setSlot, State.slot]

/-- A connection stored twice is the connection stored last. -/
theorem setSlot_setSlot {x y : Slot} (h : y.index = x.index) :
    (s.setSlot x).setSlot y = s.setSlot y := by
  simp [State.setSlot, h, Function.update_idem]

theorem slot_setSlot {x : Slot} {i : Nat} (h : x.index = i) :
    (s.setSlot x).slot i = x := by
  subst h
  simp [State.setSlot, State.slot]

variable (base listenFd) in
/-- What the read branch does to a connection is one action or none. -/
theorem readBranch_actions (hsd : s.Alike Eq d) {i : Nat} (hi : s.Holds maxClients i)
    (rv : EpollFlags) (rd : Except Errno (List UInt8))
    (hk : KernelOk base (readBranch (s.slot i) rv rd).2.trace) :
    ∃ as d', (actions maxClients base listenFd).Run d as d' ∧
      (s.setSlot (readBranch (s.slot i) rv rd).2).Alike Eq d' := by
  by_cases hguard : rv.epollin = true ∧ (s.slot i).conn.used = (s.slot i).conn.sent
  · have hempty : (d.conns i).used = (d.conns i).sent := by
      rw [← hsd.conns]
      exact hguard.2
    have hin : rv.epollin = EPOLLIN.epollin := hguard.1
    obtain ⟨_, hread⟩ := readBranch_alike (looksAlike_eq base) (hsd.slot i) hin rd
    rw [hread.trace] at hk
    exact ⟨[.read i rd], _, .cons ⟨⟨hsd.holds hi, hempty⟩, rfl, hk⟩ (.nil _),
      hsd.setSlot hread⟩
  · have hidle : (readBranch (s.slot i) rv rd).2 = s.slot i := by
      rw [readBranch, if_neg hguard]
    rw [hidle, setSlot_slot]
    exact ⟨[], d, .nil d, hsd⟩

variable (base listenFd) in
/-- So is what the write branch does to it. -/
theorem writeBranch_actions (hsd : s.Alike Eq d) {i : Nat} (hi : s.Holds maxClients i)
    (rv : EpollFlags) (wr : Except Errno Nat)
    (hk : KernelOk base (writeBranch (s.slot i) rv wr).2.trace) :
    ∃ as d', (actions maxClients base listenFd).Run d as d' ∧
      (s.setSlot (writeBranch (s.slot i) rv wr).2).Alike Eq d' := by
  by_cases hguard : rv.epollout = true ∧ (s.slot i).conn.sent < (s.slot i).conn.used
  · have hless : (d.conns i).sent < (d.conns i).used := by
      rw [← hsd.conns]
      exact hguard.2
    have hout : rv.epollout = EPOLLOUT.epollout := hguard.1
    have hwrite := writeBranch_alike (looksAlike_eq base) (hsd.slot i) hout wr
    rw [hwrite.trace] at hk
    exact ⟨[.write i wr], _, .cons ⟨⟨hsd.holds hi, hless⟩, rfl, hk⟩ (.nil _),
      hsd.setSlot hwrite⟩
  · have hidle : (writeBranch (s.slot i) rv wr).2 = s.slot i := by
      rw [writeBranch, if_neg hguard]
    rw [hidle, setSlot_slot]
    exact ⟨[], d, .nil d, hsd⟩

/-- A read branch that falls through has kept a registered connection so. -/
theorem readBranch_holds {i : Nat} (hi : s.Holds maxClients i) {rv : EpollFlags}
    {rd : Except Errno (List UInt8)} {y : Slot}
    (hread : readBranch (s.slot i) rv rd = (.fallThrough, y)) :
    y.index = i ∧ (s.setSlot y).Holds maxClients i := by
  obtain ⟨it, hreg⟩ := Option.isSome_iff_exists.mp hi.registered
  have hreg' : (s.slot i).interest (s.slot i).conn.fd = some it := hreg
  have houtcome := readBranch_outcome hreg' rv rd
  rw [hread] at houtcome
  cases houtcome with
  | skipped _ =>
      rw [setSlot_slot]
      exact ⟨rfl, hi⟩
  | filled bytes _ _ _ _ =>
      refine ⟨rfl, hi.lt, ?_, ?_⟩
      · show 0 ≤ (Function.update s.conns i _ i).fd
        rw [Function.update_self]
        exact hi.fd
      · show (Function.update s.interest (s.conns i).fd _
          (Function.update s.conns i _ i).fd).isSome
        rw [Function.update_self]
        show (Function.update s.interest (s.conns i).fd _ (s.conns i).fd).isSome
        rw [Function.update_self]
        rfl

/-- The write branch keeps the pointer. -/
theorem writeBranch_index {x : Slot} {it : EpollEvent}
    (hreg : x.interest x.conn.fd = some it) (rv : EpollFlags) (wr : Except Errno Nat) :
    (writeBranch x rv wr).2.index = x.index := by
  have houtcome := writeBranch_outcome hreg rv wr
  revert houtcome
  generalize writeBranch x rv wr = out
  intro houtcome
  cases houtcome with
  | skipped _ => rfl
  | blocked err _ _ _ _ => rfl
  | closed _ _ _ => rfl
  | drained n _ _ _ _ => rfl
  | advanced n _ _ _ _ => rfl

variable (base listenFd) in
/-- A connection event is a sequence of actions on the connection. -/
theorem handleEvent_actions (hsd : s.Alike Eq d) {i : Nat} (hi : s.Holds maxClients i)
    (rv : EpollFlags) (rd : Except Errno (List UInt8)) (wr : Except Errno Nat)
    (hk : KernelOk base (handleEvent (s.slot i) rv rd wr).2.trace) :
    ∃ as d', (actions maxClients base listenFd).Run d as d' ∧
      (s.setSlot (handleEvent (s.slot i) rv rd wr).2).Alike Eq d' := by
  by_cases hbroken : rv.broken = true
  · rw [handleEvent, if_pos hbroken] at hk ⊢
    have hclose := (hsd.slot i).close (looksAlike_eq base)
    rw [hclose.trace] at hk
    exact ⟨[.broken i], _, .cons ⟨hsd.holds hi, rfl, hk⟩ (.nil _), hsd.setSlot hclose⟩
  rw [handleEvent, if_neg hbroken] at hk ⊢
  rcases hread : readBranch (s.slot i) rv rd with ⟨flow, y⟩
  rw [hread] at hk
  have hfirst := readBranch_actions base listenFd hsd hi rv rd
  rw [hread] at hfirst
  cases flow with
  | continueBatch => exact hfirst hk
  | exits why => exact hfirst hk
  | fallThrough =>
      obtain ⟨hindex, hholds⟩ := readBranch_holds hi hread
      have hslot : (s.setSlot y).slot i = y := slot_setSlot hindex
      obtain ⟨it, hreg⟩ := Option.isSome_iff_exists.mp hholds.registered
      have hregy : y.interest y.conn.fd = some it := by
        rw [← hslot]
        exact hreg
      obtain ⟨as, d₁, hrun₁, hd₁⟩ := hfirst (hk.of_suffix (writeBranch_suffix hregy rv wr))
      have hsecond := writeBranch_actions base listenFd hd₁ hholds rv wr
      rw [hslot] at hsecond
      obtain ⟨as', d₂, hrun₂, hd₂⟩ := hsecond hk
      rw [setSlot_setSlot (writeBranch_index hregy rv wr)] at hd₂
      exact ⟨as ++ as', d₂, hrun₁.trans hrun₂, hd₂⟩

/-- A slot an event points to is open and registered. -/
theorem Inv.holds (h : Inv maxClients base listenFd s) {i : Nat} {ev : Ready}
    {rest : List Ready} (hpc : s.pc = .event i ev rest) : s.Holds maxClients i := by
  obtain ⟨hi, hfd, hpos⟩ := h.event_pointsRight hpc
  have hlive : 0 ≤ (s.conns i).fd := hfd ▸ hpos
  obtain ⟨events, hreg⟩ := (h.core.slots i hi).registered hlive
  exact ⟨hi, hlive, Option.isSome_iff_exists.mpr ⟨_, hreg⟩⟩

/-- One step of the event loop is a sequence of actions. -/
theorem step_actions (h : Inv maxClients base listenFd s) (hsd : s.Alike Eq d) {e : Event}
    (hstep : step maxClients base s e = some t) (hk : KernelOk base t.trace) :
    ∃ as d', (actions maxClients base listenFd).Run d as d' ∧ t.Alike Eq d' := by
  cases e with
  | wait res =>
      obtain ⟨_, rfl⟩ := step_wait hstep
      refine ⟨[], d, .nil d, ?_⟩
      rcases res with err | batch
      · simp only [waitStep]
        split
        · exact hsd
        · exact ⟨hsd.conns, hsd.interest, hsd.trace⟩
      · exact ⟨hsd.conns, hsd.interest, hsd.trace⟩
  | accept res refused =>
      obtain ⟨rest, _, rfl⟩ := step_accept hstep
      rcases res with err | fd
      · refine ⟨[], d, .nil d, ?_⟩
        simp only [acceptStep]
        split
        · exact ⟨hsd.conns, hsd.interest, hsd.trace⟩
        · split
          · exact hsd
          · exact ⟨hsd.conns, hsd.interest, hsd.trace⟩
      · have haccept := hsd.accept maxClients (looksAlike_eq base) rest [] fd refused
        rw [haccept.trace] at hk
        exact ⟨[.accepted (fd, refused)], _, .cons ⟨trivial, rfl, hk⟩ (.nil _), haccept⟩
  | conn rd wr =>
      obtain ⟨i, ev, rest, hpc, rfl⟩ := step_conn hstep
      obtain ⟨_, _, hout⟩ := eventStep_cases h hpc rd wr hk
      rw [hout] at hk ⊢
      obtain ⟨as, d', hrun, hd'⟩ :=
        handleEvent_actions base listenFd hsd (h.holds hpc) ev.events rd wr hk
      exact ⟨as, d', hrun, hd'.conns, hd'.interest, hd'.trace⟩

section Runs

variable {inherited : Finset Int} {epfd : Int}

theorem run_actions_from {es : List Event} (hsd : s.Alike Eq d)
    (hs : (system maxClients inherited listenFd epfd).Reachable s)
    (hrun : (system maxClients inherited listenFd epfd).Run s es t) :
    ∃ as d', (actions maxClients (startFds inherited listenFd epfd) listenFd).Run d as d' ∧
      t.Alike Eq d' := by
  induction hrun generalizing d with
  | nil s => exact ⟨[], d, .nil d, hsd⟩
  | cons hnext _ ih =>
      obtain ⟨as, d₁, hrun₁, hd₁⟩ :=
        step_actions (reachable_inv hs) hsd hnext.1 hnext.2.1
      obtain ⟨as', d₂, hrun₂, hd₂⟩ := ih hd₁ (hs.step hnext)
      exact ⟨as ++ as', d₂, hrun₁.trans hrun₂, hd₂⟩

/-- A run of the event loop does to the connections what some actions do. -/
theorem run_actions {es : List Event}
    (hrun : (system maxClients inherited listenFd epfd).Run (initial listenFd) es s) :
    ∃ as d, (actions maxClients (startFds inherited listenFd epfd) listenFd).Run
      (initial listenFd) as d ∧ s.Alike Eq d :=
  run_actions_from ⟨rfl, rfl, rfl⟩ (.start rfl) hrun

/-! ## Actions as rounds of the event loop -/

/-- The kernel has kept its promises in every reachable state. -/
theorem reachable_kernelOk (hs : (system maxClients inherited listenFd epfd).Reachable s) :
    KernelOk (startFds inherited listenFd epfd) s.trace := by
  cases hs with
  | start h₀ =>
      cases h₀
      exact trivial
  | step _ hnext => exact hnext.2.1

/-- Whatever way a connection event ends, its calls have been made. -/
theorem eventStep_trace (s : State) (i : Nat) (ev : Ready) (rest : List Ready)
    (rd : Except Errno (List UInt8)) (wr : Except Errno Nat) :
    (eventStep s i ev rest rd wr).trace = (handleEvent (s.slot i) ev.events rd wr).2.trace := by
  unfold eventStep
  rcases handleEvent (s.slot i) ev.events rd wr with ⟨flow, x⟩
  cases flow with
  | fallThrough => rfl
  | continueBatch => rfl
  | exits why => rfl

/-- `epoll_wait` returns one event, on a registered connection, which is served. -/
theorem wait_only (hs : (system maxClients inherited listenFd epfd).Reachable s)
    (hpc : s.pc = .wait) {i : Nat} (hi : s.Holds maxClients i) (flags : EpollFlags)
    (rd : Except Errno (List UInt8)) (wr : Except Errno Nat)
    (hk : KernelOk (startFds inherited listenFd epfd)
      (handleEvent (s.slot i) flags rd wr).2.trace) :
    ∃ es t, (system maxClients inherited listenFd epfd).Run s es t ∧ t.pc = .wait ∧
      t.Alike Eq (s.setSlot (handleEvent (s.slot i) flags rd wr).2) := by
  have hinv := reachable_inv hs
  have hks : KernelOk (startFds inherited listenFd epfd) s.trace := reachable_kernelOk hs
  obtain ⟨events, hreg⟩ := (hinv.core.slots i hi.lt).registered hi.fd
  have hbatch : BatchOk s [⟨(s.conns i).fd, flags, some i⟩] := by
    refine ⟨List.nodup_singleton _, fun ev hev => ?_⟩
    cases List.mem_singleton.mp hev
    exact congrArg (Option.map EpollEvent.ptr) hreg
  have hwait : (system maxClients inherited listenFd epfd).next s
      (.wait (.ok [⟨(s.conns i).fd, flags, some i⟩]))
      { s with pc := .event i ⟨(s.conns i).fd, flags, some i⟩ [] } := by
    refine ⟨?_, hks, hbatch⟩
    rw [step, if_pos hpc]
    rfl
  have hu := reachable_inv (hs.step hwait)
  have hserved := eventStep_trace { s with pc := .event i ⟨(s.conns i).fd, flags, some i⟩ [] }
    i ⟨(s.conns i).fd, flags, some i⟩ [] rd wr
  have hk' : KernelOk (startFds inherited listenFd epfd)
      (eventStep { s with pc := .event i ⟨(s.conns i).fd, flags, some i⟩ [] } i
        ⟨(s.conns i).fd, flags, some i⟩ [] rd wr).trace := by
    rw [hserved]
    exact hk
  obtain ⟨_, _, hout⟩ := eventStep_cases hu rfl rd wr hk'
  have hconn : (system maxClients inherited listenFd epfd).next
      { s with pc := .event i ⟨(s.conns i).fd, flags, some i⟩ [] } (.conn rd wr)
      (eventStep { s with pc := .event i ⟨(s.conns i).fd, flags, some i⟩ [] } i
        ⟨(s.conns i).fd, flags, some i⟩ [] rd wr) := ⟨rfl, hk', trivial⟩
  refine ⟨_, _, .cons hwait (.cons hconn (.nil _)), ?_, ?_⟩
  · rw [hout]
    rfl
  · rw [hout]
    exact ⟨rfl, rfl, rfl⟩

/-- Accepting a client keeps the loop where it is. -/
theorem acceptStep_pc (maxClients : Nat) (base : Finset Int) (s : State)
    (rest : List Ready) (fd : Int) (refused : Option Errno) :
    (acceptStep maxClients base s rest (.ok fd) refused).pc = s.pc := by
  have hset : setNonblocking (openKeys base (.accept fd :: s.trace)) fd = none :=
    setNonblocking_of_mem (Finset.mem_insert_self fd _)
  unfold acceptStep
  simp only [hset]
  rcases allocateConnection s.conns maxClients fd with _ | ⟨i, conns⟩
  · rfl
  · simp only
    rcases epollCtlAdd s.interest fd ⟨armedForInput, some i⟩ refused with err | interest
    · rfl
    · rfl

/-- A client is accepted in a round of its own. -/
theorem accept_run (hs : (system maxClients inherited listenFd epfd).Reachable s)
    (hpc : s.pc = .wait) (fd : Int) (refused : Option Errno)
    (hk : KernelOk (startFds inherited listenFd epfd)
      (acceptStep maxClients (startFds inherited listenFd epfd) s [] (.ok fd) refused).trace) :
    ∃ es t, (system maxClients inherited listenFd epfd).Run s es t ∧ t.pc = .wait ∧
      t.Alike Eq
        (acceptStep maxClients (startFds inherited listenFd epfd) s [] (.ok fd) refused) := by
  have hinv := reachable_inv hs
  have hks : KernelOk (startFds inherited listenFd epfd) s.trace := reachable_kernelOk hs
  have hbatch : BatchOk s [⟨listenFd, EPOLLIN, none⟩] := by
    refine ⟨List.nodup_singleton _, fun ev hev => ?_⟩
    cases List.mem_singleton.mp hev
    rw [hinv.core.listener]
    rfl
  have hwait : (system maxClients inherited listenFd epfd).next s
      (.wait (.ok [⟨listenFd, EPOLLIN, none⟩])) { s with pc := .accept [] } := by
    refine ⟨?_, hks, hbatch⟩
    rw [step, if_pos hpc]
    rfl
  have hsame : State.Alike Eq { s with pc := .accept [] } s := ⟨rfl, rfl, rfl⟩
  have haccept := hsame.accept maxClients (looksAlike_eq (startFds inherited listenFd epfd))
    [] [] fd refused
  have hpcu := acceptStep_pc maxClients (startFds inherited listenFd epfd)
    { s with pc := .accept [] } [] fd refused
  rw [← haccept.trace] at hk
  have hacceptNext : (system maxClients inherited listenFd epfd).next
      { s with pc := .accept [] } (.accept (.ok fd) refused)
      (acceptStep maxClients (startFds inherited listenFd epfd) { s with pc := .accept [] }
        [] (.ok fd) refused) := ⟨rfl, hk, trivial⟩
  generalize acceptStep maxClients (startFds inherited listenFd epfd)
    { s with pc := .accept [] } [] (.ok fd) refused = u at haccept hpcu hk hacceptNext
  have hblock : (system maxClients inherited listenFd epfd).next u
      (.accept (.error .EAGAIN) none) { u with pc := .wait } := by
    refine ⟨?_, hk, trivial⟩
    simp only [step, hpcu]
    rfl
  exact ⟨_, _, .cons hwait (.cons hacceptNext (.cons hblock (.nil _))), rfl,
    haccept.conns, haccept.interest, haccept.trace⟩

/-- One action is a round of the event loop. -/
theorem action_run (hs : (system maxClients inherited listenFd epfd).Reachable s)
    (hpc : s.pc = .wait) (hsd : s.Alike Eq d) {a : Action (Int × Option Errno)} {d' : State}
    (hnext : (actions maxClients (startFds inherited listenFd epfd) listenFd).next d a d') :
    ∃ es t, (system maxClients inherited listenFd epfd).Run s es t ∧ t.pc = .wait ∧
      t.Alike Eq d' := by
  obtain ⟨ha, rfl, hk⟩ := hnext
  have hsame := perform_alike maxClients (looksAlike_eq (startFds inherited listenFd epfd))
    hsd a
  have hperforms := hsd.symm.performs ha
  rw [← hsame.trace] at hk
  cases a with
  | accepted res =>
      obtain ⟨es, t, hrun, hwait, ht⟩ := accept_run hs hpc res.1 res.2 hk
      exact ⟨es, t, hrun, hwait, ht.trans hsame⟩
  | read i rd =>
      obtain ⟨hi, _⟩ := hperforms
      have hserve : (handleEvent (s.slot i) EPOLLIN rd (.error .EAGAIN)).2 =
          (readBranch (s.slot i) EPOLLIN rd).2 := by
        rw [handleEvent, if_neg (show ¬ EPOLLIN.broken = true by decide)]
        rcases readBranch (s.slot i) EPOLLIN rd with ⟨flow, y⟩
        cases flow with
        | continueBatch => rfl
        | exits why => rfl
        | fallThrough =>
            have hout : ¬ (EPOLLIN.epollout = true ∧ y.conn.sent < y.conn.used) := by
              rintro ⟨hout, _⟩
              cases hout
            show (writeBranch y EPOLLIN (.error .EAGAIN)).2 = y
            rw [writeBranch, if_neg hout]
      obtain ⟨es, t, hrun, hwait, ht⟩ :=
        wait_only hs hpc hi EPOLLIN rd (.error .EAGAIN) (hserve ▸ hk)
      rw [hserve] at ht
      exact ⟨es, t, hrun, hwait, ht.trans hsame⟩
  | write i wr =>
      obtain ⟨hi, _⟩ := hperforms
      have hserve : (handleEvent (s.slot i) EPOLLOUT (.error .EAGAIN) wr).2 =
          (writeBranch (s.slot i) EPOLLOUT wr).2 := by
        have hin : ¬ (EPOLLOUT.epollin = true ∧
            (s.slot i).conn.used = (s.slot i).conn.sent) := by
          rintro ⟨hin, _⟩
          cases hin
        rw [handleEvent, if_neg (show ¬ EPOLLOUT.broken = true by decide), readBranch,
          if_neg hin]
      obtain ⟨es, t, hrun, hwait, ht⟩ :=
        wait_only hs hpc hi EPOLLOUT (.error .EAGAIN) wr (hserve ▸ hk)
      rw [hserve] at ht
      exact ⟨es, t, hrun, hwait, ht.trans hsame⟩
  | broken i =>
      have hi : s.Holds maxClients i := hperforms
      have hserve : (handleEvent (s.slot i) EPOLLERR (.error .EAGAIN) (.error .EAGAIN)).2 =
          closeConnection (s.slot i) := by
        rw [handleEvent, if_pos (show EPOLLERR.broken = true by decide)]
      obtain ⟨es, t, hrun, hwait, ht⟩ :=
        wait_only hs hpc hi EPOLLERR (.error .EAGAIN) (.error .EAGAIN) (hserve ▸ hk)
      rw [hserve] at ht
      exact ⟨es, t, hrun, hwait, ht.trans hsame⟩

theorem actions_run_from {as : List (Action (Int × Option Errno))}
    (hs : (system maxClients inherited listenFd epfd).Reachable s) (hpc : s.pc = .wait)
    (hsd : s.Alike Eq d)
    (hrun : (actions maxClients (startFds inherited listenFd epfd) listenFd).Run d as t) :
    ∃ es u, (system maxClients inherited listenFd epfd).Run s es u ∧ u.Alike Eq t := by
  induction hrun generalizing s with
  | nil d => exact ⟨[], s, .nil s, hsd⟩
  | cons hnext _ ih =>
      obtain ⟨es, u, hrun₁, hwait, hu⟩ := action_run hs hpc hsd hnext
      obtain ⟨es', v, hrun₂, hv⟩ := ih (hrun₁.reachable hs) hwait hu
      exact ⟨es ++ es', v, hrun₁.trans hrun₂, hv⟩

/-- What actions do to the connections, some run of the event loop does. -/
theorem actions_run {as : List (Action (Int × Option Errno))}
    (hrun : (actions maxClients (startFds inherited listenFd epfd) listenFd).Run
      (initial listenFd) as d) :
    ∃ es s, (system maxClients inherited listenFd epfd).Run (initial listenFd) es s ∧
      s.Alike Eq d :=
  actions_run_from (.start rfl) rfl ⟨rfl, rfl, rfl⟩ hrun

end Runs

end EventLoop

end SysLab.PartB.EpollServer
