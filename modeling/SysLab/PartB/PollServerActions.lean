import SysLab.PartB.Action
import SysLab.PartB.PollServerTable

/-!
# The `poll` server, one call at a time

`actions` is the server at the level of `Action`.  Two servers alike, but for
what `R` overlooks in their traces, do the same under the same action
(`perform_alike`, `actions_follow`).  Every run of the event loop is a sequence
of actions (`run_actions`), and every sequence of actions is a run of the event
loop (`actions_run`).
-/

namespace SysLab.PartB.PollServer

open SysLab.Foundation
open SysLab.Foundation.Transcript

/-! ## Actions -/

/-- Slot `i` holds a client. -/
structure State.Holds (maxClients : Nat) (p : State) (i : Nat) : Prop where
  pos : 1 ≤ i
  le : i ≤ maxClients
  fd : 0 ≤ (p.conns i).fd

/-- Slot `i` with `flags` reported on it. -/
def State.ready (p : State) (i : Nat) (flags : PollFlags) : Slot :=
  { p.slot i with pfd := { p.pfds i with revents := flags } }

/-- When the server gets to perform an action. -/
def State.Performs (maxClients : Nat) (p : State) : Action Int → Prop
  | .accepted _ => True
  | .read i _ => p.Holds maxClients i ∧ (p.conns i).used = (p.conns i).sent
  | .write i _ => p.Holds maxClients i ∧ (p.conns i).sent < (p.conns i).used
  | .broken i => p.Holds maxClients i

/-- Where it leads. -/
def perform (maxClients : Nat) (base : Finset Int) (p : State) : Action Int → State
  | .accepted fd => acceptStep maxClients base p (.ok fd)
  | .read i rd => p.setSlot i (readBranch (p.ready i POLLIN) rd).2
  | .write i wr => p.setSlot i (writeBranch (p.ready i POLLOUT) wr)
  | .broken i => p.setSlot i (closeConnection (p.slot i))

/-- The server, one call at a time, among all kernels that keep their promises. -/
def actions (maxClients : Nat) (base : Finset Int) (listenFd : Int) :
    System State (Action Int) where
  init p := p = initial listenFd
  next p a p' :=
    p.Performs maxClients a ∧ p' = perform maxClients base p a ∧ KernelOk base p'.trace

/-- Two slots in the same state, after calls that `R` relates. -/
structure Slot.Alike (R : Trace → Trace → Prop) (x y : Slot) : Prop where
  conn : x.conn = y.conn
  trace : R x.trace y.trace

/-- Two servers with the same connections. -/
structure State.Alike (R : Trace → Trace → Prop) (p q : State) : Prop where
  conns : p.conns = q.conns
  trace : R p.trace q.trace

section Alike

variable {maxClients : Nat} {base : Finset Int} {listenFd : Int}
  {R : Trace → Trace → Prop} {x y : Slot} {p q : State}

theorem Slot.Alike.call (hR : LooksAlike base R) (h : x.Alike R y) {c d : Syscall}
    (hcall : c = d) :
    Slot.Alike R { x with trace := c :: x.trace } { y with trace := d :: y.trace } :=
  ⟨h.conn, hcall ▸ hR.cons _ _ _ h.trace⟩

theorem Slot.Alike.close (hR : LooksAlike base R) (h : x.Alike R y) :
    Slot.Alike R (closeConnection x) (closeConnection y) := by
  refine ⟨?_, ?_⟩
  · simp only [closeConnection, h.conn]
  · simp only [closeConnection, h.conn]
    split
    · exact hR.cons _ _ _ h.trace
    · exact h.trace

/-- The read branch does not look at the calls made before. -/
theorem readBranch_alike (hR : LooksAlike base R) (h : x.Alike R y)
    (hin : x.pfd.revents.pollin = y.pfd.revents.pollin) (rd : Except Errno (List UInt8)) :
    (readBranch x rd).1 = (readBranch y rd).1 ∧
      Slot.Alike R (readBranch x rd).2 (readBranch y rd).2 := by
  have hcall : Slot.Alike R
      { x with trace := .read x.conn.fd bufferSize rd :: x.trace }
      { y with trace := .read y.conn.fd bufferSize rd :: y.trace } :=
    h.call hR (by rw [h.conn])
  unfold readBranch
  rw [hin, h.conn]
  by_cases hguard : y.pfd.revents.pollin = true ∧ y.conn.used = y.conn.sent
  · rw [if_pos hguard, if_pos hguard]
    rw [h.conn] at hcall
    rcases rd with e | bytes
    · by_cases hblock : e.wouldBlock = true
      · simp only [hblock, if_true]
        exact ⟨trivial, ⟨rfl, hcall.trace⟩⟩
      · simp only [hblock, Bool.false_eq_true, if_false]
        exact ⟨trivial, hcall.close hR⟩
    · cases bytes with
      | nil => exact ⟨rfl, hcall.close hR⟩
      | cons b bs => exact ⟨rfl, ⟨rfl, hcall.trace⟩⟩
  · rw [if_neg hguard, if_neg hguard]
    exact ⟨rfl, h⟩

theorem writeBranch_alike (hR : LooksAlike base R) (h : x.Alike R y)
    (hout : x.pfd.revents.pollout = y.pfd.revents.pollout) (wr : Except Errno Nat) :
    Slot.Alike R (writeBranch x wr) (writeBranch y wr) := by
  have hcall : Slot.Alike R
      { x with trace := .write x.conn.fd x.conn.pending wr :: x.trace }
      { y with trace := .write y.conn.fd y.conn.pending wr :: y.trace } :=
    h.call hR (by rw [h.conn])
  unfold writeBranch
  rw [hout, h.conn]
  by_cases hguard : y.pfd.revents.pollout = true ∧ y.conn.sent < y.conn.used
  · rw [if_pos hguard, if_pos hguard]
    rw [h.conn] at hcall
    rcases wr with e | n
    · by_cases hblock : e.wouldBlock = true
      · simp only [hblock, if_true]
        exact ⟨rfl, hcall.trace⟩
      · simp only [hblock, Bool.false_eq_true, if_false]
        exact hcall.close hR
    · cases n with
      | zero => exact hcall.close hR
      | succ n =>
          by_cases hall : y.conn.sent + (n + 1) = y.conn.used
          · simp only [hall, if_true]
            exact ⟨rfl, hcall.trace⟩
          · simp only [hall, if_false]
            exact ⟨rfl, hcall.trace⟩
  · rw [if_neg hguard, if_neg hguard]
    exact h

theorem State.Alike.slot (h : p.Alike R q) (i : Nat) : (p.slot i).Alike R (q.slot i) :=
  ⟨congrFun h.conns i, h.trace⟩

theorem State.Alike.ready (h : p.Alike R q) (i : Nat) (flags : PollFlags) :
    (p.ready i flags).Alike R (q.ready i flags) :=
  ⟨congrFun h.conns i, h.trace⟩

theorem State.Alike.setSlot (h : p.Alike R q) (i : Nat) (hxy : x.Alike R y) :
    (p.setSlot i x).Alike R (q.setSlot i y) := by
  refine ⟨?_, hxy.trace⟩
  show Function.update p.conns i x.conn = Function.update q.conns i y.conn
  rw [h.conns, hxy.conn]

variable (maxClients) in
/-- A client is admitted or refused, whatever came before. -/
theorem State.Alike.accept (hR : LooksAlike base R) (h : p.Alike R q) (fd : Int) :
    (acceptStep maxClients base p (.ok fd)).Alike R
      (acceptStep maxClients base q (.ok fd)) := by
  have hsetp : setNonblocking (openKeys base (.accept fd :: p.trace)) fd = none :=
    setNonblocking_of_mem (Finset.mem_insert_self fd _)
  have hsetq : setNonblocking (openKeys base (.accept fd :: q.trace)) fd = none :=
    setNonblocking_of_mem (Finset.mem_insert_self fd _)
  have htrace : R (.accept fd :: p.trace) (.accept fd :: q.trace) := hR.cons _ _ _ h.trace
  unfold acceptStep
  simp only [hsetp, hsetq, addConnection, h.conns]
  rcases firstFree (fun i => decide ((q.conns i).fd < 0)) 1 maxClients with _ | i
  · exact ⟨rfl, hR.cons _ _ _ htrace⟩
  · exact ⟨rfl, htrace⟩

theorem State.Alike.holds (h : p.Alike R q) {i : Nat} (hi : p.Holds maxClients i) :
    q.Holds maxClients i :=
  ⟨hi.pos, hi.le, h.conns ▸ hi.fd⟩

variable (maxClients) in
/-- The same action on two servers alike leaves them alike. -/
theorem perform_alike (hR : LooksAlike base R) (h : p.Alike R q) (a : Action Int) :
    (perform maxClients base p a).Alike R (perform maxClients base q a) := by
  cases a with
  | accepted fd => exact h.accept maxClients hR fd
  | read i rd => exact h.setSlot i (readBranch_alike hR (h.ready i POLLIN) rfl rd).2
  | write i wr => exact h.setSlot i (writeBranch_alike hR (h.ready i POLLOUT) rfl wr)
  | broken i => exact h.setSlot i ((h.slot i).close hR)

theorem State.Alike.performs (h : p.Alike R q) {a : Action Int}
    (ha : p.Performs maxClients a) : q.Performs maxClients a := by
  cases a with
  | accepted fd => trivial
  | read i rd => exact ⟨h.holds ha.1, h.conns ▸ ha.2⟩
  | write i wr => exact ⟨h.holds ha.1, h.conns ▸ ha.2⟩
  | broken i => exact h.holds ha

/-- What one server can do, the other can. -/
theorem actions_follow (hR : LooksAlike base R) (h : p.Alike R q) {a : Action Int}
    {p' : State} (hp : (actions maxClients base listenFd).next p a p') :
    ∃ q', (actions maxClients base listenFd).next q a q' ∧ p'.Alike R q' := by
  obtain ⟨ha, rfl, hk⟩ := hp
  have halike := perform_alike maxClients hR h a
  exact ⟨_, ⟨h.performs ha, rfl, hR.kernelOk _ _ halike.trace hk⟩, halike⟩

end Alike

/-! ## The event loop as actions -/

section EventLoop

variable {maxClients : Nat} {base : Finset Int} {listenFd : Int} {s t q : State}

/-- A read branch that falls through has kept the descriptor and `revents`. -/
theorem readBranch_fallThrough {x : Slot} {rd : Except Errno (List UInt8)}
    (h : (readBranch x rd).1 = .fallThrough) :
    (readBranch x rd).2.conn.fd = x.conn.fd ∧
      (readBranch x rd).2.pfd.revents = x.pfd.revents := by
  by_cases hguard : x.pfd.revents.pollin = true ∧ x.conn.used = x.conn.sent
  · unfold readBranch at h ⊢
    rw [if_pos hguard] at h ⊢
    rcases rd with e | bytes
    · by_cases hblock : e.wouldBlock = true
      · simp only [hblock, if_true, reduceCtorEq] at h
      · simp only [hblock, Bool.false_eq_true, if_false, reduceCtorEq] at h
    · cases bytes with
      | nil => cases h
      | cons b bs => exact ⟨rfl, rfl⟩
  · rw [readBranch, if_neg hguard]
    exact ⟨rfl, rfl⟩

theorem setSlot_slot (s : State) (i : Nat) : s.setSlot i (s.slot i) = s := by
  simp [State.setSlot, State.slot]

/-- Storing what slot `i` holds already changes nothing. -/
theorem alike_unchanged {x : Slot} {i : Nat} (hx : x.Alike Eq (q.slot i)) :
    q.Alike Eq (q.setSlot i x) := by
  refine ⟨?_, hx.trace.symm⟩
  have hconn : x.conn = q.conns i := hx.conn
  show q.conns = Function.update q.conns i x.conn
  rw [hconn, Function.update_eq_self]

theorem alike_replaced {x y : Slot} (i : Nat) (hxy : x.Alike Eq y) :
    (q.setSlot i y).Alike Eq (q.setSlot i x) := by
  refine ⟨?_, hxy.trace.symm⟩
  show Function.update q.conns i y.conn = Function.update q.conns i x.conn
  rw [hxy.conn]

theorem State.Alike.trans {p : State} (h : p.Alike Eq q) (h' : q.Alike Eq t) :
    p.Alike Eq t :=
  ⟨h.conns.trans h'.conns, h.trace.trans h'.trace⟩

variable (base listenFd) in
/-- What the read branch does to slot `i` is one action or none. -/
theorem readBranch_actions {x : Slot} {i : Nat} (hx : x.Alike Eq (q.slot i))
    (hi : q.Holds maxClients i) (rd : Except Errno (List UInt8))
    (hk : KernelOk base (readBranch x rd).2.trace) :
    ∃ as q', (actions maxClients base listenFd).Run q as q' ∧
      q'.Alike Eq (q.setSlot i (readBranch x rd).2) := by
  have hconn : x.conn = q.conns i := hx.conn
  by_cases hguard : x.pfd.revents.pollin = true ∧ x.conn.used = x.conn.sent
  · have hempty : (q.conns i).used = (q.conns i).sent := hconn ▸ hguard.2
    have hready : x.Alike Eq (q.ready i POLLIN) := ⟨hx.conn, hx.trace⟩
    obtain ⟨_, hread⟩ := readBranch_alike (looksAlike_eq base) hready hguard.1 rd
    rw [hread.trace] at hk
    exact ⟨[.read i rd], _, .cons ⟨⟨hi, hempty⟩, rfl, hk⟩ (.nil _), alike_replaced i hread⟩
  · rw [readBranch, if_neg hguard]
    exact ⟨[], q, .nil q, alike_unchanged hx⟩

variable (base listenFd) in
/-- So is what the write branch does to it. -/
theorem writeBranch_actions {x : Slot} {i : Nat} (hx : x.Alike Eq (q.slot i))
    (hi : q.Holds maxClients i) (wr : Except Errno Nat)
    (hk : KernelOk base (writeBranch x wr).trace) :
    ∃ as q', (actions maxClients base listenFd).Run q as q' ∧
      q'.Alike Eq (q.setSlot i (writeBranch x wr)) := by
  have hconn : x.conn = q.conns i := hx.conn
  by_cases hguard : x.pfd.revents.pollout = true ∧ x.conn.sent < x.conn.used
  · have hless : (q.conns i).sent < (q.conns i).used := hconn ▸ hguard.2
    have hready : x.Alike Eq (q.ready i POLLOUT) := ⟨hx.conn, hx.trace⟩
    have hwrite := writeBranch_alike (looksAlike_eq base) hready hguard.1 wr
    rw [hwrite.trace] at hk
    exact ⟨[.write i wr], _, .cons ⟨⟨hi, hless⟩, rfl, hk⟩ (.nil _), alike_replaced i hwrite⟩
  · rw [writeBranch, if_neg hguard]
    exact ⟨[], q, .nil q, alike_unchanged hx⟩

variable (base listenFd) in
/-- One slot of the scan is a sequence of actions on it. -/
theorem serveSlot_actions (hsq : s.Alike Eq q) {i : Nat} (hi : 1 ≤ i)
    (him : i ≤ maxClients) (rd : Except Errno (List UInt8)) (wr : Except Errno Nat)
    (hk : KernelOk base (serveSlot (s.slot i) rd wr).trace) :
    ∃ as q', (actions maxClients base listenFd).Run q as q' ∧
      (s.setSlot i (serveSlot (s.slot i) rd wr)).Alike Eq q' := by
  have hslot : (s.slot i).Alike Eq (q.slot i) := hsq.slot i
  by_cases hskip : (s.slot i).conn.fd < 0 ∨ (s.slot i).pfd.revents = noFlags
  · rw [serveSlot, if_pos hskip]
    rw [setSlot_slot]
    exact ⟨[], q, .nil q, hsq⟩
  have hopen : 0 ≤ (s.conns i).fd := by
    have hfd : ¬ (s.conns i).fd < 0 := fun hneg => hskip (.inl hneg)
    omega
  have hholds : q.Holds maxClients i := hsq.holds ⟨hi, him, hopen⟩
  by_cases hbroken : (s.slot i).pfd.revents.broken = true
  · rw [serveSlot, if_neg hskip, if_pos hbroken] at hk ⊢
    have hclose := hslot.close (looksAlike_eq base)
    rw [hclose.trace] at hk
    exact ⟨[.broken i], _, .cons ⟨hholds, rfl, hk⟩ (.nil _), hsq.setSlot i hclose⟩
  rw [serveSlot, if_neg hskip, if_neg hbroken] at hk ⊢
  have hkread : KernelOk base (readBranch (s.slot i) rd).2.trace := by
    revert hk
    rcases readBranch (s.slot i) rd with ⟨flow, y⟩
    cases flow with
    | continueScan => exact id
    | fallThrough => exact fun hk => hk.of_suffix (writeBranch_suffix y wr)
  obtain ⟨as, q₁, hrun, hq₁⟩ :=
    readBranch_actions base listenFd hslot hholds rd hkread
  rcases hread : readBranch (s.slot i) rd with ⟨flow, y⟩
  rw [hread] at hk hq₁
  have hy : (s.setSlot i y).Alike Eq q₁ := by
    have hset : (s.setSlot i y).Alike Eq (q.setSlot i y) :=
      hsq.setSlot i ⟨rfl, rfl⟩
    exact hset.trans ⟨hq₁.conns.symm, hq₁.trace.symm⟩
  cases flow with
  | continueScan => exact ⟨as, q₁, hrun, hy⟩
  | fallThrough =>
      have hkept := readBranch_fallThrough (congrArg Prod.fst hread)
      rw [hread] at hkept
      have hyslot : y.Alike Eq (q₁.slot i) := by
        have hat := hy.slot i
        rw [show (s.setSlot i y).slot i = y by simp [State.setSlot, State.slot]] at hat
        exact hat
      have hholds₁ : q₁.Holds maxClients i := by
        refine ⟨hi, him, ?_⟩
        have hconn : y.conn = q₁.conns i := hyslot.conn
        rw [← hconn, hkept.1]
        exact hopen
      obtain ⟨as', q₂, hrun', hq₂⟩ :=
        writeBranch_actions base listenFd hyslot hholds₁ wr hk
      refine ⟨as ++ as', q₂, hrun.trans hrun', ?_⟩
      have hover : (s.setSlot i (writeBranch y wr)).conns =
          ((s.setSlot i y).setSlot i (writeBranch y wr)).conns := by
        show Function.update s.conns i _ = Function.update (Function.update s.conns i _) i _
        rw [Function.update_idem]
      have hset : ((s.setSlot i y).setSlot i (writeBranch y wr)).Alike Eq
          (q₁.setSlot i (writeBranch y wr)) := hy.setSlot i ⟨rfl, rfl⟩
      exact ⟨hover.trans (hset.conns.trans hq₂.conns.symm),
        hset.trace.trans hq₂.trace.symm⟩

/-- One step of the event loop is a sequence of actions. -/
theorem step_actions (h : Inv maxClients base s) (hsq : s.Alike Eq q) {e : Event}
    (hnext : (system maxClients base listenFd).next s e t) :
    ∃ as q', (actions maxClients base listenFd).Run q as q' ∧ t.Alike Eq q' := by
  obtain ⟨hstep, hk⟩ := hnext
  cases e with
  | poll res =>
      obtain ⟨_, rfl⟩ := step_poll hstep
      refine ⟨[], q, .nil q, ?_⟩
      rcases res with e | revents
      · simp only [pollStep]
        split
        · exact hsq
        · exact ⟨hsq.conns, hsq.trace⟩
      · exact ⟨hsq.conns, hsq.trace⟩
  | accept res =>
      obtain ⟨_, rfl⟩ := step_accept hstep
      rcases res with e | fd
      · refine ⟨[], q, .nil q, ?_⟩
        simp only [acceptStep]
        split
        · exact ⟨hsq.conns, hsq.trace⟩
        · split
          · exact hsq
          · exact ⟨hsq.conns, hsq.trace⟩
      · have haccept := hsq.accept maxClients (looksAlike_eq base) fd
        rw [haccept.trace] at hk
        exact ⟨[.accepted fd], _, .cons ⟨trivial, rfl, hk⟩ (.nil _), haccept⟩
  | slot rd wr =>
      obtain ⟨i, hpc, rfl⟩ := step_slot hstep
      obtain ⟨hi, him⟩ := h.scanning i hpc
      obtain ⟨as, q', hrun, hq'⟩ := serveSlot_actions base listenFd hsq hi him rd wr hk
      exact ⟨as, q', hrun, hq'.conns, hq'.trace⟩

theorem run_actions_from {es : List Event} (hsq : s.Alike Eq q)
    (hs : (system maxClients base listenFd).Reachable s)
    (hrun : (system maxClients base listenFd).Run s es t) :
    ∃ as q', (actions maxClients base listenFd).Run q as q' ∧ t.Alike Eq q' := by
  induction hrun generalizing q with
  | nil s => exact ⟨[], q, .nil q, hsq⟩
  | cons hnext _ ih =>
      obtain ⟨as, q₁, hrun₁, hq₁⟩ := step_actions (reachable_inv hs) hsq hnext
      obtain ⟨as', q₂, hrun₂, hq₂⟩ := ih hq₁ (hs.step hnext)
      exact ⟨as ++ as', q₂, hrun₁.trans hrun₂, hq₂⟩

/-- A run of the event loop does to the connections what some actions do. -/
theorem run_actions {es : List Event}
    (hrun : (system maxClients base listenFd).Run (initial listenFd) es s) :
    ∃ as q, (actions maxClients base listenFd).Run (initial listenFd) as q ∧
      s.Alike Eq q :=
  run_actions_from ⟨rfl, rfl⟩ (.start rfl) hrun

/-! ## Actions as rounds of the event loop -/

/-- `POLLERR`. -/
def POLLERR : PollFlags := { pollerr := true }

/-- `poll` reports `flags` on index `i` and nothing else. -/
def only (i : Nat) (flags : PollFlags) (j : Nat) : PollFlags :=
  if j = i then flags else noFlags

/-- A slot with nothing reported on it is passed over. -/
theorem scanStep_idle {i : Nat} (h : (s.pfds i).revents = noFlags)
    (rd : Except Errno (List UInt8)) (wr : Except Errno Nat) :
    scanStep maxClients s i rd wr = { s with pc := scanFrom maxClients (i + 1) } := by
  have hidle : serveSlot (s.slot i) rd wr = s.slot i := by
    rw [serveSlot, if_pos (.inr h)]
  rw [scanStep, hidle, setSlot_slot]

variable (base listenFd) in
/-- So are all slots from `j` to `k`. -/
theorem scan_idle (hk : KernelOk base s.trace) {j k : Nat} (hjk : j ≤ k)
    (hkm : k ≤ maxClients + 1) (hpc : s.pc = scanFrom maxClients j)
    (hidle : ∀ i, j ≤ i → i < k → (s.pfds i).revents = noFlags) :
    ∃ es, (system maxClients base listenFd).Run s es
      { s with pc := scanFrom maxClients k } := by
  induction k, hjk using Nat.le_induction with
  | base =>
      refine ⟨[], ?_⟩
      rw [← hpc]
      exact .nil s
  | succ k hjk ih =>
      obtain ⟨es, hrun⟩ := ih (by omega) fun i hji hik => hidle i hji (by omega)
      have hscan : scanFrom maxClients k = .scan k := by
        rw [scanFrom, if_pos (by omega)]
      refine ⟨es ++ [.slot (.error .EAGAIN) (.error .EAGAIN)], hrun.snoc ⟨?_, hk⟩⟩
      have hrevents : ({ s with pc := scanFrom maxClients k }.pfds k).revents = noFlags :=
        hidle k hjk (by omega)
      simp only [step, hscan]
      rw [hscan] at hrevents
      rw [scanStep_idle hrevents]

variable (listenFd) in
/-- `poll` reports `flags` on slot `i` alone; the scan then serves that slot. -/
theorem scan_only (hk : KernelOk base s.trace) (hpc : s.pc = .poll) {i : Nat} (hi : 1 ≤ i)
    (him : i ≤ maxClients) (flags : PollFlags) (rd : Except Errno (List UInt8))
    (wr : Except Errno Nat)
    (hserved : KernelOk base (serveSlot (s.ready i flags) rd wr).trace) :
    ∃ es t, (system maxClients base listenFd).Run s es t ∧ t.pc = .poll ∧
      t.Alike Eq (s.setSlot i (serveSlot (s.ready i flags) rd wr)) := by
  have hi0 : (0 : Nat) ≠ i := by omega
  have hpolled : (system maxClients base listenFd).next s (.poll (.ok (only i flags)))
      (pollStep maxClients s (.ok (only i flags))) :=
    ⟨by rw [step, if_pos hpc], hk⟩
  have hfirst : (pollStep maxClients s (.ok (only i flags))).pc = scanFrom maxClients 1 := by
    simp [pollStep, only, hi0, noFlags]
  obtain ⟨es, hbefore⟩ := scan_idle base listenFd
    (s := pollStep maxClients s (.ok (only i flags))) hk hi (by omega) hfirst
    fun j _ hj => if_neg (by omega)
  have hscan : scanFrom maxClients i = .scan i := by rw [scanFrom, if_pos him]
  rw [hscan] at hbefore
  have hready : State.slot { pollStep maxClients s (.ok (only i flags)) with pc := .scan i } i =
      s.ready i flags := by
    simp [State.slot, State.ready, pollStep, only]
  have hnow : (system maxClients base listenFd).next
      { pollStep maxClients s (.ok (only i flags)) with pc := .scan i } (.slot rd wr)
      (scanStep maxClients
        { pollStep maxClients s (.ok (only i flags)) with pc := .scan i } i rd wr) := by
    refine ⟨rfl, ?_⟩
    show KernelOk base (serveSlot (State.slot _ i) rd wr).trace
    rw [hready]
    exact hserved
  obtain ⟨es', hafter⟩ := scan_idle base listenFd
    (s := scanStep maxClients
      { pollStep maxClients s (.ok (only i flags)) with pc := .scan i } i rd wr) hnow.2
    (Nat.succ_le_succ him) (Nat.le_refl _) rfl fun j hj _ => by
      have hji : j ≠ i := by omega
      show (Function.update (pollStep maxClients s (.ok (only i flags))).pfds i _ j).revents =
        noFlags
      rw [Function.update_of_ne hji]
      exact if_neg hji
  refine ⟨_, _, .cons hpolled (hbefore.trans (.cons hnow hafter)), ?_, ?_, ?_⟩
  · show scanFrom maxClients (maxClients + 1) = .poll
    rw [scanFrom, if_neg (by omega)]
  · show Function.update s.conns i (serveSlot (State.slot _ i) rd wr).conn = _
    rw [hready]
    rfl
  · show (serveSlot (State.slot _ i) rd wr).trace = _
    rw [hready]
    rfl

/-- A flagged slot that is open is served by the two branches. -/
theorem serveSlot_ready {x : Slot} (hfd : 0 ≤ x.conn.fd) (hflags : x.pfd.revents ≠ noFlags)
    (hsound : x.pfd.revents.broken = false) (rd : Except Errno (List UInt8))
    (wr : Except Errno Nat) :
    serveSlot x rd wr =
      match readBranch x rd with
      | (.continueScan, y) => y
      | (.fallThrough, y) => writeBranch y wr := by
  have hserve : ¬ (x.conn.fd < 0 ∨ x.pfd.revents = noFlags) := by
    rintro (hneg | hnone)
    · omega
    · exact hflags hnone
  rw [serveSlot, if_neg hserve, hsound]
  rfl

variable (maxClients base) in
/-- Accepting a client keeps the loop where it is and reports nothing. -/
theorem acceptStep_quiet (s : State) (fd : Int) :
    (acceptStep maxClients base s (.ok fd)).pc = s.pc ∧
      ∀ j, (s.pfds j).revents = noFlags →
        ((acceptStep maxClients base s (.ok fd)).pfds j).revents = noFlags := by
  have hset : setNonblocking (openKeys base (.accept fd :: s.trace)) fd = none :=
    setNonblocking_of_mem (Finset.mem_insert_self fd _)
  unfold acceptStep
  simp only [hset, addConnection]
  rcases firstFree (fun i => decide ((s.conns i).fd < 0)) 1 maxClients with _ | i
  · exact ⟨rfl, fun _ h => h⟩
  · refine ⟨rfl, fun j h => ?_⟩
    by_cases hj : j = i
    · subst hj
      simp
    · simp [Function.update_of_ne hj, h]

variable (base listenFd) in
/-- A client is accepted in a round of its own. -/
theorem accept_run (hk : KernelOk base s.trace) (hpc : s.pc = .poll) (hsq : s.Alike Eq q)
    (fd : Int) (hk' : KernelOk base (acceptStep maxClients base q (.ok fd)).trace) :
    ∃ es t, (system maxClients base listenFd).Run s es t ∧ t.pc = .poll ∧
      t.Alike Eq (acceptStep maxClients base q (.ok fd)) := by
  have hpolled : (system maxClients base listenFd).next s (.poll (.ok (only 0 POLLIN)))
      (pollStep maxClients s (.ok (only 0 POLLIN))) :=
    ⟨by rw [step, if_pos hpc], hk⟩
  have hpolledAlike : (pollStep maxClients s (.ok (only 0 POLLIN))).Alike Eq q :=
    ⟨hsq.conns, hsq.trace⟩
  have haccepted := hpolledAlike.accept maxClients (looksAlike_eq base) fd
  obtain ⟨hpcAccept, hquiet⟩ := acceptStep_quiet maxClients base
    (pollStep maxClients s (.ok (only 0 POLLIN))) fd
  generalize hu : acceptStep maxClients base
    (pollStep maxClients s (.ok (only 0 POLLIN))) (.ok fd) = u at haccepted hpcAccept hquiet
  have hku : KernelOk base u.trace := by
    rw [haccepted.trace]
    exact hk'
  have hacceptNext : (system maxClients base listenFd).next
      (pollStep maxClients s (.ok (only 0 POLLIN))) (.accept (.ok fd)) u := by
    refine ⟨?_, hku⟩
    rw [← hu]
    rfl
  have hblock : (system maxClients base listenFd).next u (.accept (.error .EAGAIN))
      { u with pc := scanFrom maxClients 1 } := by
    refine ⟨?_, hku⟩
    have hat : u.pc = .accept := hpcAccept
    rw [step, if_pos hat]
    rfl
  obtain ⟨es, hscan⟩ := scan_idle base listenFd
    (s := { u with pc := scanFrom maxClients 1 }) hku (show 1 ≤ maxClients + 1 by omega)
    (Nat.le_refl _) rfl fun j hj _ => hquiet j (if_neg (by omega))
  refine ⟨_, _, .cons hpolled (.cons hacceptNext (.cons hblock hscan)), ?_, haccepted.conns,
    haccepted.trace⟩
  show scanFrom maxClients (maxClients + 1) = .poll
  rw [scanFrom, if_neg (by omega)]

/-- One action is a round of the event loop. -/
theorem action_run (hk : KernelOk base s.trace) (hpc : s.pc = .poll) (hsq : s.Alike Eq q)
    {a : Action Int} {q' : State} (hnext : (actions maxClients base listenFd).next q a q') :
    ∃ es t, (system maxClients base listenFd).Run s es t ∧ t.pc = .poll ∧
      t.Alike Eq q' := by
  have hqs : q.Alike Eq s := ⟨hsq.conns.symm, hsq.trace.symm⟩
  obtain ⟨ha, rfl, hk'⟩ := hnext
  cases a with
  | accepted fd =>
      exact accept_run base listenFd hk hpc hsq fd hk'
  | read i rd =>
      obtain ⟨hi, hempty⟩ := ha
      have hserve : serveSlot (s.ready i POLLIN) rd (.error .EAGAIN) =
          (readBranch (s.ready i POLLIN) rd).2 := by
        rw [serveSlot_ready (hqs.holds hi).fd (show POLLIN ≠ noFlags by decide) rfl]
        rcases hread : readBranch (s.ready i POLLIN) rd with ⟨flow, y⟩
        cases flow with
        | continueScan => rfl
        | fallThrough =>
            have hkept := readBranch_fallThrough (congrArg Prod.fst hread)
            rw [hread] at hkept
            have hout : ¬ (y.pfd.revents.pollout = true ∧ y.conn.sent < y.conn.used) := by
              rw [hkept.2]
              rintro ⟨hout, _⟩
              cases hout
            show writeBranch y (.error .EAGAIN) = y
            rw [writeBranch, if_neg hout]
      obtain ⟨_, hread⟩ :=
        readBranch_alike (looksAlike_eq base) (hqs.ready i POLLIN) rfl rd
      have hserved : KernelOk base (serveSlot (s.ready i POLLIN) rd (.error .EAGAIN)).trace := by
        rw [hserve, ← hread.trace]
        exact hk'
      obtain ⟨es, t, hrun, hpoll, ht⟩ := scan_only listenFd hk hpc hi.pos hi.le POLLIN rd _ hserved
      rw [hserve] at ht
      exact ⟨es, t, hrun, hpoll, ht.trans (hsq.setSlot i ⟨hread.conn.symm, hread.trace.symm⟩)⟩
  | write i wr =>
      obtain ⟨hi, hless⟩ := ha
      have hserve : serveSlot (s.ready i POLLOUT) (.error .EAGAIN) wr =
          writeBranch (s.ready i POLLOUT) wr := by
        rw [serveSlot_ready (hqs.holds hi).fd (show POLLOUT ≠ noFlags by decide) rfl]
        have hin : ¬ ((s.ready i POLLOUT).pfd.revents.pollin = true ∧
            (s.ready i POLLOUT).conn.used = (s.ready i POLLOUT).conn.sent) := by
          rintro ⟨hin, _⟩
          cases hin
        rw [readBranch, if_neg hin]
      have hwrite := writeBranch_alike (looksAlike_eq base) (hqs.ready i POLLOUT) rfl wr
      have hserved : KernelOk base (serveSlot (s.ready i POLLOUT) (.error .EAGAIN) wr).trace := by
        rw [hserve, ← hwrite.trace]
        exact hk'
      obtain ⟨es, t, hrun, hpoll, ht⟩ :=
        scan_only listenFd hk hpc hi.pos hi.le POLLOUT _ wr hserved
      rw [hserve] at ht
      exact ⟨es, t, hrun, hpoll, ht.trans (hsq.setSlot i ⟨hwrite.conn.symm, hwrite.trace.symm⟩)⟩
  | broken i =>
      have hi : q.Holds maxClients i := ha
      have hready : (s.ready i POLLERR).Alike Eq (q.slot i) :=
        ⟨(hsq.slot i).conn, (hsq.slot i).trace⟩
      have hclose := hready.close (looksAlike_eq base)
      have hserve : serveSlot (s.ready i POLLERR) (.error .EAGAIN) (.error .EAGAIN) =
          closeConnection (s.ready i POLLERR) := by
        have hfd : 0 ≤ (s.conns i).fd := (hqs.holds hi).fd
        have hskip : ¬ ((s.ready i POLLERR).conn.fd < 0 ∨
            (s.ready i POLLERR).pfd.revents = noFlags) := by
          rintro (hneg | hnone)
          · change (s.conns i).fd < 0 at hneg
            omega
          · cases hnone
        have hbroken : (s.ready i POLLERR).pfd.revents.broken = true := rfl
        rw [serveSlot, if_neg hskip, if_pos hbroken]
      have hserved : KernelOk base
          (serveSlot (s.ready i POLLERR) (.error .EAGAIN) (.error .EAGAIN)).trace := by
        rw [hserve, hclose.trace]
        exact hk'
      obtain ⟨es, t, hrun, hpoll, ht⟩ :=
        scan_only listenFd hk hpc hi.pos hi.le POLLERR _ _ hserved
      rw [hserve] at ht
      exact ⟨es, t, hrun, hpoll, ht.trans (hsq.setSlot i hclose)⟩

theorem actions_run_from {as : List (Action Int)} (hk : KernelOk base s.trace)
    (hpc : s.pc = .poll) (hsq : s.Alike Eq q)
    (hrun : (actions maxClients base listenFd).Run q as t) :
    ∃ es u, (system maxClients base listenFd).Run s es u ∧ u.Alike Eq t := by
  induction hrun generalizing s with
  | nil q => exact ⟨[], s, .nil s, hsq⟩
  | cons hnext _ ih =>
      obtain ⟨es, u, hrun₁, hpoll, hu⟩ := action_run hk hpc hsq hnext
      have hku : KernelOk base u.trace := by
        rw [hu.trace]
        exact hnext.2.2
      obtain ⟨es', v, hrun₂, hv⟩ := ih hku hpoll hu
      exact ⟨es ++ es', v, hrun₁.trans hrun₂, hv⟩

/-- What actions do to the connections, some run of the event loop does. -/
theorem actions_run {as : List (Action Int)}
    (hrun : (actions maxClients base listenFd).Run (initial listenFd) as q) :
    ∃ es s, (system maxClients base listenFd).Run (initial listenFd) es s ∧
      s.Alike Eq q :=
  actions_run_from trivial rfl ⟨rfl, rfl⟩ hrun

end EventLoop

end SysLab.PartB.PollServer
