import Mathlib.Algebra.Order.BigOperators.Group.Finset
import SysLab.PartB.PollLoadPaced

/-!
# How many slots the client threads need

A client thread may have two connections with the server at a time: it closes one and
makes the next before the server has noticed.  It never has three.  The scan that reads
from the new connection for the first time also closes the old one, because `poll` has
reported both, and only a later scan writes to the new one (`Near`).  So two slots for
each thread are enough, or one where it makes a single connection (`admits_of_slots`).
-/

namespace SysLab.PartB.PollLoad

open SysLab.Foundation
open SysLab.PartB.LoadClient (Config Thread ThreadPc Worker)
open SysLab.PartB.PollServer (PollFlags noFlags POLLIN POLLOUT Slot Connection)
open SysLab.PartB.ThreadpoolLoad (Setup Conn Sound worker_conn worker_of_some)

section Model

variable {threads toServer toClient maxClients : Nat} {setup : Setup threads}
  {s t : State threads toServer toClient}

/-! ## A thread's connections -/

/-- The client thread waits for the first answer on the connection. -/
structure Fresh (s : State threads toServer toClient) (k : Conn threads) : Prop where
  current : k.2 = (s.clients k.1).connIndex
  unanswered : ∃ w, (s.clients k.1).pc = .connected w ∧ w.req = 0 ∧
    ((∃ done, w.pc = .writeFull done) ∨ w.pc = .readFull 0)
  empty : (s.network.outbound k).length = 0

/-- Slot `j` serves the connection. -/
structure Serves (maxClients : Nat) (s : State threads toServer toClient) (j : Nat)
    (k : Conn threads) : Prop where
  pos : 1 ≤ j
  le : j ≤ maxClients
  live : 0 ≤ (s.server.conns j).fd
  peer : s.network.peer (s.server.conns j).fd = some k

/-- Slot `a` is closed before slot `b` is written to. -/
structure Before (server : PollServer.State) (a b : Nat) : Prop where
  unwritten : Remaining server.pc b → (server.pfds b).revents.pollout = false
  closed : ((server.conns b).used ≠ (server.conns b).sent ∨
      Remaining server.pc b ∧ (server.pfds b).revents ≠ noFlags) →
    Remaining server.pc a ∧ (server.pfds a).revents.pollin = true

/-- A connection that waits has just been made.  One that was accepted is the thread's
last, or the one before while nothing is answered on the last; its slot is closed before
that of the last is written to. -/
structure Near (maxClients : Nat) (s : State threads toServer toClient) : Prop where
  waiting : ∀ k ∈ s.network.backlog, Fresh s k
  accepted : ∀ fd k, s.network.peer fd = some k → k.2 = (s.clients k.1).connIndex ∨
    k.2 + 1 = (s.clients k.1).connIndex ∧
      ∀ w, (s.clients k.1).pc = .connected w → Fresh s (k.1, k.2 + 1)
  before : ∀ a b k, Serves maxClients s a k → Serves maxClients s b (k.1, k.2 + 1) →
    Before s.server a b

theorem Fresh.congr {k : Conn threads} (h : Fresh s k) (hclient : t.clients k.1 = s.clients k.1)
    (hout : (t.network.outbound k).length = (s.network.outbound k).length) : Fresh t k where
  current := by
    rw [hclient]
    exact h.current
  unanswered := by
    rw [hclient]
    exact h.unanswered
  empty := hout.trans h.empty

theorem Fresh.not_closed {k : Conn threads} (h : Fresh s k) {w : Worker}
    (hpc : (s.clients k.1).pc = .connected w) : w.pc ≠ .closed := by
  obtain ⟨w', hpc', _, hw⟩ := h.unanswered
  rw [hpc] at hpc'
  cases hpc'
  rcases hw with ⟨done, hw⟩ | hw
  · rw [hw]
    simp
  · rw [hw]
    simp

section Server

variable {pool : ThreadpoolServer.State maxClients}

/-- An accepted connection has been made. -/
theorem Serves.made {j : Nat} {k : Conn threads} (h : Serves maxClients s j k)
    (hsound : Sound setup (s.beside pool)) : k.2 ≤ (s.clients k.1).connIndex := by
  rcases hsound.accepted _ k h.peer with hlt | ⟨heq, _⟩
  · exact Nat.le_of_lt hlt
  · exact Nat.le_of_eq heq

/-- The older of two connections has been closed by its client. -/
theorem older_gone (hnear : Near maxClients s) (hsound : Sound setup (s.beside pool))
    {a b : Nat} {k : Conn threads} (ha : Serves maxClients s a k)
    (hb : Serves maxClients s b (k.1, k.2 + 1)) : k.2 + 1 = (s.clients k.1).connIndex := by
  have hlater : k.2 + 1 ≤ (s.clients k.1).connIndex := hb.made hsound
  rcases hnear.accepted _ k ha.peer with heq | ⟨heq, _⟩
  · omega
  · exact heq

theorem not_open_of_older {k : Conn threads} (h : k.2 + 1 = (s.clients k.1).connIndex) :
    s.clientSide.isOpen k = false := by
  refine Bool.eq_false_iff.mpr fun hopen => ?_
  obtain ⟨_, _, hconn, _⟩ := worker_of_isOpen hopen
  have hindex : k.2 = (s.clients k.1).connIndex := congrArg Prod.snd hconn
  omega

/-- Nothing is left on it. -/
theorem older_empty (hsound : Sound setup (s.beside pool)) {k : Conn threads}
    (h : k.2 + 1 = (s.clients k.1).connIndex) :
    (s.network.inbound k).length + ((s.beside pool).view k).held +
      (s.network.outbound k).length = 0 := by
  refine (hsound.balanced k).finished ?_
  have hworker : (s.beside pool).worker k = none := by
    cases hw : (s.beside pool).worker k with
    | none => rfl
    | some w =>
        have hindex : k.2 = (s.clients k.1).connIndex :=
          congrArg Prod.snd (worker_of_some hw).2
        omega
  rw [ThreadpoolLoad.State.view, hworker]
  rfl

/-- A slot with something to write holds bytes of its connection. -/
theorem held_of_full (hmirrors : Mirrors s.server pool) {j : Nat} {k : Conn threads}
    (hserves : Serves maxClients s j k)
    (hmore : (s.server.conns j).sent < (s.server.conns j).used) :
    0 < ((s.beside pool).view k).held := by
  obtain ⟨w, rfl⟩ : ∃ w : Fin maxClients, j = w + 1 :=
    ⟨⟨j - 1, by have := hserves.pos; have := hserves.le; omega⟩,
      (Nat.sub_add_cancel hserves.pos).symm⟩
  have hwriting : ThreadpoolLoad.transfers pool w = some ((s.server.conns (w + 1)).fd,
      (s.server.conns (w + 1)).used, (s.server.conns (w + 1)).sent) := by
    rw [ThreadpoolLoad.transfers, hmirrors.workers w, workerOf_full hserves.live hmore]
    rfl
  have hle := ThreadpoolLoad.heldFor_le s.network.peer k (ThreadpoolLoad.transfers pool) w
  rw [hwriting, ThreadpoolLoad.heldFor, if_pos hserves.peer] at hle
  show 0 < ThreadpoolLoad.held s.network.peer k (ThreadpoolLoad.transfers pool)
  omega

/-! ### The server's steps -/

/-- `poll` reports the end of the older connection. -/
theorem Near.poll (h : Near maxClients s)
    (hinv : PollServer.Inv maxClients setup.base s.server) (hmirrors : Mirrors s.server pool)
    (hsound : Sound setup (s.beside pool)) (hpc : s.server.pc = .poll) :
    Near maxClients { s with
      server := PollServer.pollStep maxClients s.server (.ok s.polled) } where
  waiting k hk := (h.waiting k hk).congr rfl rfl
  accepted fd k hk := (h.accepted fd k hk).imp_right fun hold =>
    ⟨hold.1, fun w hw => (hold.2 w hw).congr rfl rfl⟩
  before a b k ha hb := by
    have has : Serves maxClients s a k := ⟨ha.pos, ha.le, ha.live, ha.peer⟩
    have hbs : Serves maxClients s b (k.1, k.2 + 1) := ⟨hb.pos, hb.le, hb.live, hb.peer⟩
    have hgone := older_gone h hsound has hbs
    have hempty := older_empty hsound hgone
    -- nothing has been read from the newer connection
    have hdrained : (s.server.conns b).used = (s.server.conns b).sent := by
      by_contra hne
      have hremaining := ((h.before a b k has hbs).closed (.inl hne)).1
      rw [hpc] at hremaining
      exact hremaining
    have hevents : (s.server.pfds b).events = POLLIN := by
      rcases (hinv.slots b hb.pos hb.le).busy hb.live with ⟨hevents, _⟩ | ⟨_, hmore, _⟩
      · exact hevents
      · exact absurd hdrained (Nat.ne_of_gt hmore)
    have hevents' : (s.server.pfds a).events = POLLIN := by
      rcases (hinv.slots a ha.pos ha.le).busy ha.live with ⟨hevents, _⟩ | ⟨_, hmore, _⟩
      · exact hevents
      · have hheld := held_of_full hmirrors has hmore
        omega
    have hpolled := polled_eq (Nat.ne_of_gt hb.pos)
      (hinv.slots b hb.pos hb.le).fd_eq hbs.live hbs.peer
    have hpolled' := polled_eq (Nat.ne_of_gt ha.pos)
      (hinv.slots a ha.pos ha.le).fd_eq has.live has.peer
    refine ⟨fun _ => ?_, fun _ => ⟨?_, ?_⟩⟩
    · show (s.polled b).pollout = false
      rw [hpolled, hevents]
      rfl
    · show Remaining (if (s.polled 0).pollin = true then .accept
        else PollServer.scanFrom maxClients 1) a
      split
      · trivial
      · rw [PollServer.scanFrom, if_pos (Nat.le_trans ha.pos ha.le)]
        exact ha.pos
    · show (s.polled a).pollin = true
      rw [hpolled', hevents', not_open_of_older hgone]
      simp [POLLIN]

section Admit

variable {fd : Int} {k k' : Conn threads} {rest : List (Conn threads)} {i j : Nat}

/-- The other slots serve whom they served. -/
theorem Serves.of_seat (hinv : PollServer.Inv maxClients setup.base s.server)
    (hkernel : KernelOk setup.base (.accept fd :: s.server.trace)) (hji : j ≠ i)
    (h : Serves maxClients (s.seat i fd k rest) j k') : Serves maxClients s j k' := by
  obtain ⟨hpos, hle, hlive, hpeer⟩ := h
  have hconn : (filled s.server i fd).conns j = s.server.conns j := Function.update_of_ne hji _ _
  change 0 ≤ ((filled s.server i fd).conns j).fd at hlive
  change Function.update s.network.peer fd (some k) ((filled s.server i fd).conns j).fd =
    some k' at hpeer
  rw [hconn] at hlive hpeer
  have hne : (s.server.conns j).fd ≠ fd := by
    rintro rfl
    exact not_mem_of_accept hkernel (hinv.mem_clients hpos hle hlive)
  rw [Function.update_of_ne hne] at hpeer
  exact ⟨hpos, hle, hlive, hpeer⟩

theorem Serves.eq_of_seat (h : Serves maxClients (s.seat i fd k rest) i k') : k' = k := by
  have hpeer := h.peer
  have hfd : ((s.seat i fd k rest).server.conns i).fd = fd := by
    simp only [State.seat, filled, Function.update_self]
  rw [hfd] at hpeer
  change Function.update s.network.peer fd (some k) fd = some k' at hpeer
  rw [Function.update_self] at hpeer
  exact (Option.some.inj hpeer).symm

/-- The slot that is filled has nothing to do yet. -/
theorem before_seat (a : Nat) : Before (s.seat i fd k rest).server a i := by
  have hpfd : (s.seat i fd k rest).server.pfds i = ⟨fd, POLLIN, noFlags⟩ :=
    Function.update_self _ _ _
  have hconn : ((s.seat i fd k rest).server.conns i).used =
      ((s.seat i fd k rest).server.conns i).sent := by
    simp only [State.seat, filled, Function.update_self]
  refine ⟨fun _ => by rw [hpfd]; rfl, ?_⟩
  rintro (hne | ⟨_, hflagged⟩)
  · exact absurd hconn hne
  · rw [hpfd] at hflagged
    exact absurd rfl hflagged

/-- Two slots neither of which is filled. -/
theorem Before.seat_other {a b : Nat} (h : Before s.server a b) (hai : a ≠ i) (hbi : b ≠ i) :
    Before (s.seat i fd k rest).server a b := by
  have hpa : (s.seat i fd k rest).server.pfds a = s.server.pfds a :=
    Function.update_of_ne hai _ _
  have hpb : (s.seat i fd k rest).server.pfds b = s.server.pfds b :=
    Function.update_of_ne hbi _ _
  have hcb : (s.seat i fd k rest).server.conns b = s.server.conns b :=
    Function.update_of_ne hbi _ _
  exact ⟨by rw [hpb]; exact h.unwritten, by rw [hpa, hpb, hcb]; exact h.closed⟩

/-- A client that is accepted has just connected. -/
theorem Near.accept (h : Near maxClients s)
    (hinv : PollServer.Inv maxClients setup.base s.server)
    (hsound : Sound setup (s.beside pool)) (hbacklog : s.network.backlog = k :: rest)
    (hkernel : KernelOk setup.base (.accept fd :: s.server.trace)) :
    Near maxClients (s.seat i fd k rest) := by
  have hfresh : Fresh s k := h.waiting k (by
    rw [hbacklog]
    exact List.mem_cons_self)
  refine ⟨fun k' hk' => ?_, fun fd' k' hk' => ?_, fun a b k' ha hb => ?_⟩
  · exact (h.waiting k' (by
      rw [hbacklog]
      exact List.mem_cons_of_mem k hk')).congr rfl rfl
  · change Function.update s.network.peer fd (some k) fd' = some k' at hk'
    by_cases hfd : fd' = fd
    · subst hfd
      rw [Function.update_self] at hk'
      cases hk'
      exact .inl hfresh.current
    · rw [Function.update_of_ne hfd] at hk'
      exact (h.accepted fd' k' hk').imp_right fun hold =>
        ⟨hold.1, fun w hw => (hold.2 w hw).congr rfl rfl⟩
  · by_cases hai : a = i
    · -- no connection is newer than the one just made
      exfalso
      subst hai
      obtain rfl := ha.eq_of_seat
      have hba : b ≠ a := by
        rintro rfl
        have heq := congrArg Prod.snd hb.eq_of_seat
        dsimp only at heq
        omega
      have hmade := (hb.of_seat hinv hkernel hba).made hsound
      have hcurrent := hfresh.current
      dsimp only at hmade
      omega
    · by_cases hbi : b = i
      · subst hbi
        exact before_seat a
      · have hbefore := h.before a b k' (ha.of_seat hinv hkernel hai)
          (hb.of_seat hinv hkernel hbi)
        exact hbefore.seat_other hai hbi

end Admit

/-- The accept loop ends. -/
theorem Near.drained (h : Near maxClients s) (hpc : s.server.pc = .accept) :
    Near maxClients { s with
      server := { s.server with pc := PollServer.scanFrom maxClients 1 } } where
  waiting k hk := (h.waiting k hk).congr rfl rfl
  accepted fd k hk := (h.accepted fd k hk).imp_right fun hold =>
    ⟨hold.1, fun w hw => (hold.2 w hw).congr rfl rfl⟩
  before a b k ha hb := by
    have hbefore := h.before a b k ⟨ha.pos, ha.le, ha.live, ha.peer⟩
      ⟨hb.pos, hb.le, hb.live, hb.peer⟩
    have hall : ∀ j, Remaining s.server.pc j := by
      rw [hpc]
      exact fun _ => trivial
    refine ⟨fun _ => hbefore.unwritten (hall b), fun hclosed => ⟨?_, ?_⟩⟩
    · show Remaining (PollServer.scanFrom maxClients 1) a
      rw [PollServer.scanFrom, if_pos (Nat.le_trans ha.pos ha.le)]
      exact ha.pos
    · exact (hbefore.closed (hclosed.imp_right fun hflagged => ⟨hall b, hflagged.2⟩)).2

section Pass

variable {i j : Nat} {k k' : Conn threads} {rd : Except Errno (List UInt8)} {y : Slot}
  {network : Network (Conn threads) toServer toClient}

/-- Passing a slot gives no descriptor away. -/
theorem Passed.peer_some (h : Passed s i rd y network) {fd : Int}
    (hpeer : network.peer fd = some k) : s.network.peer fd = some k := by
  cases h with
  | idle _ _ hnetwork => rwa [hnetwork] at hpeer
  | read _ _ _ _ _ _ _ _ _ _ _ _ _ hnetwork => rwa [hnetwork] at hpeer
  | eof fd' _ _ _ _ _ _ _ _ _ _ hnetwork =>
      rw [hnetwork] at hpeer
      change Function.update s.network.peer fd' none fd = some k at hpeer
      by_cases hfd : fd = fd'
      · rw [hfd, Function.update_self] at hpeer
        cases hpeer
      · rwa [Function.update_of_ne hfd] at hpeer
  | write _ _ _ _ _ _ _ _ _ _ _ _ _ hnetwork => rwa [hnetwork] at hpeer

/-- The slots serve whom they served, but for one that is closed. -/
theorem Serves.of_pass (hpassed : Passed s i rd y network)
    (h : Serves maxClients (s.pass maxClients i y network) j k) : Serves maxClients s j k := by
  obtain ⟨hpos, hle, hlive, hpeer⟩ := h
  change 0 ≤ (Function.update s.server.conns i y.conn j).fd at hlive
  change network.peer (Function.update s.server.conns i y.conn j).fd = some k at hpeer
  by_cases hji : j = i
  · subst hji
    rw [Function.update_self] at hlive hpeer
    cases hpassed with
    | idle _ hy hnetwork =>
        subst hy hnetwork
        exact ⟨hpos, hle, hlive, hpeer⟩
    | read fd k' bytes inbound _ hfd _ _ _ _ _ _ hy hnetwork =>
        subst hy hnetwork
        exact ⟨hpos, hle, hlive, hpeer⟩
    | eof fd k' _ hfd _ _ _ _ _ _ hy hnetwork =>
        subst hy
        exact absurd (show (0 : Int) ≤ -1 from hlive) (by decide)
    | write fd k' n outbound hfd _ _ _ _ _ _ _ hy hnetwork =>
        subst hy hnetwork
        have hconn : (if (s.server.conns j).sent + n = (s.server.conns j).used then
            { s.server.conns j with used := 0, sent := 0 }
          else { s.server.conns j with sent := (s.server.conns j).sent + n }).fd =
            (s.server.conns j).fd := by
          split
          · rfl
          · rfl
        dsimp only at hlive hpeer
        rw [hconn] at hlive hpeer
        exact ⟨hpos, hle, hlive, hpeer⟩
  · rw [Function.update_of_ne hji] at hlive hpeer
    exact ⟨hpos, hle, hlive, hpassed.peer_some hpeer⟩

/-- Whoever has a descriptor has a slot. -/
theorem exists_serves (hinv : PollServer.Inv maxClients setup.base s.server)
    (hmirrors : Mirrors s.server pool) (hsound : Sound setup (s.beside pool)) {fd : Int}
    (hpeer : s.network.peer fd = some k) :
    ∃ j, Serves maxClients s j k ∧ (s.server.conns j).fd = fd := by
  have hclient : fd ∈ Transcript.clients setup.base s.server.trace := by
    have hmem := (hsound.peers fd).mpr ⟨k, hpeer⟩
    change fd ∈ Transcript.clients setup.base pool.trace at hmem
    rwa [hmirrors.trace] at hmem
  obtain ⟨j, ⟨hj, hjm⟩, hlive, hfd⟩ := hinv.table.exists_slot (Finset.mem_coe.mpr hclient)
  exact ⟨j, ⟨hj, hjm, hlive, by rw [hfd]; exact hpeer⟩, hfd⟩

/-- The slot that is written is not that of a thread's second connection. -/
theorem Near.not_second (h : Near maxClients s)
    (hinv : PollServer.Inv maxClients setup.base s.server) (hmirrors : Mirrors s.server pool)
    (hsound : Sound setup (s.beside pool)) (hpc : s.server.pc = .scan i)
    (hserves : Serves maxClients s i k') (hflags : (s.server.pfds i).revents = POLLOUT)
    {fd : Int} (hpeer : s.network.peer fd = some k) : k' ≠ (k.1, k.2 + 1) := by
  rintro rfl
  obtain ⟨a, ha, _⟩ := exists_serves hinv hmirrors hsound hpeer
  have hunwritten := (h.before a i k ha hserves).unwritten (by
    rw [hpc]
    exact le_refl i)
  rw [hflags] at hunwritten
  cases hunwritten

theorem remaining_pass {a : Nat} (hpc : s.server.pc = .scan i) (ham : a ≤ maxClients)
    (hai : a ≠ i) (h : Remaining s.server.pc a) :
    Remaining (s.pass maxClients i y network).server.pc a := by
  rw [hpc] at h
  have hlt : i + 1 ≤ a := Nat.lt_of_le_of_ne h (Ne.symm hai)
  show Remaining (PollServer.scanFrom maxClients (i + 1)) a
  rw [PollServer.scanFrom, if_pos (Nat.le_trans hlt ham)]
  exact hlt

theorem remaining_of_pass {b : Nat} (hpc : s.server.pc = .scan i)
    (h : Remaining (s.pass maxClients i y network).server.pc b) :
    i + 1 ≤ b ∧ Remaining s.server.pc b := by
  have hlt : i + 1 ≤ b := remaining_scanFrom h
  rw [hpc]
  exact ⟨hlt, Nat.le_of_succ_le hlt⟩

/-- Two slots neither of which is passed. -/
theorem Before.pass_other {a b : Nat} (h : Before s.server a b) (hpc : s.server.pc = .scan i)
    (ham : a ≤ maxClients) (hai : a ≠ i) (hbi : b ≠ i) :
    Before (s.pass maxClients i y network).server a b := by
  have hpa : (s.pass maxClients i y network).server.pfds a = s.server.pfds a :=
    Function.update_of_ne hai _ _
  have hpb : (s.pass maxClients i y network).server.pfds b = s.server.pfds b :=
    Function.update_of_ne hbi _ _
  have hcb : (s.pass maxClients i y network).server.conns b = s.server.conns b :=
    Function.update_of_ne hbi _ _
  refine ⟨fun hremaining => ?_, fun hclosed => ?_⟩
  · rw [hpb]
    exact h.unwritten (remaining_of_pass hpc hremaining).2
  · rw [hpb, hcb] at hclosed
    obtain ⟨hremaining, hpollin⟩ := h.closed (hclosed.imp_right fun hflagged =>
      ⟨(remaining_of_pass hpc hflagged.1).2, hflagged.2⟩)
    rw [hpa]
    exact ⟨remaining_pass hpc ham hai hremaining, hpollin⟩

/-- The older slot is passed: it is closed, or neither has anything to do. -/
theorem Before.pass_older {b : Nat} (h : Before s.server i b) (hpc : s.server.pc = .scan i)
    (hpassed : Passed s i rd y network) (hbi : b ≠ i)
    (hserves : Serves maxClients (s.pass maxClients i y network) i k)
    (hinbound : (s.network.inbound k).length = 0)
    (hdrained : (s.server.conns i).used = (s.server.conns i).sent) :
    Before (s.pass maxClients i y network).server i b := by
  have hserved := hserves.of_pass hpassed
  have hpb : (s.pass maxClients i y network).server.pfds b = s.server.pfds b :=
    Function.update_of_ne hbi _ _
  have hcb : (s.pass maxClients i y network).server.conns b = s.server.conns b :=
    Function.update_of_ne hbi _ _
  cases hpassed with
  | idle hskip hy hnetwork =>
      refine ⟨fun hremaining => ?_, fun hclosed => ?_⟩
      · rw [hpb]
        exact h.unwritten (remaining_of_pass hpc hremaining).2
      · rw [hpb, hcb] at hclosed
        obtain ⟨_, hpollin⟩ := h.closed (hclosed.imp_right fun hflagged =>
          ⟨(remaining_of_pass hpc hflagged.1).2, hflagged.2⟩)
        rcases hskip with hneg | hnone
        · have hlive := hserved.live
          omega
        · rw [hnone] at hpollin
          cases hpollin
  | read fd k' bytes inbound _ hfd _ hpeer _ _ hbytes hpop _ _ =>
      -- there is nothing to read
      exfalso
      have hsame := hserved.peer
      rw [hfd, hpeer] at hsame
      cases hsame
      have hlength := Channel.length_pop hpop
      omega
  | eof fd k' _ _ _ _ _ _ _ _ hy _ =>
      exfalso
      have hlive := hserves.live
      change 0 ≤ (Function.update s.server.conns i y.conn i).fd at hlive
      rw [Function.update_self, hy] at hlive
      exact absurd (show (0 : Int) ≤ -1 from hlive) (by decide)
  | write fd k' n outbound _ _ _ hmore _ _ _ _ _ _ =>
      exact absurd hdrained (Nat.ne_of_gt hmore)

/-- The newer slot is passed: if it is read, the older is still to be closed. -/
theorem Before.pass_newer {a : Nat} (h : Before s.server a i) (hpc : s.server.pc = .scan i)
    (ham : a ≤ maxClients) (hpassed : Passed s i rd y network) (hai : a ≠ i)
    (hserves : Serves maxClients (s.pass maxClients i y network) i k) :
    Before (s.pass maxClients i y network).server a i := by
  have hself : Remaining s.server.pc i := by
    rw [hpc]
    exact le_refl i
  have hpassedBy : ¬ Remaining (s.pass maxClients i y network).server.pc i := fun hremaining =>
    absurd (remaining_of_pass hpc hremaining).1 (Nat.not_succ_le_self i)
  have hpa : (s.pass maxClients i y network).server.pfds a = s.server.pfds a :=
    Function.update_of_ne hai _ _
  -- it is enough that the older slot was to be closed before
  have hkeep : (Remaining s.server.pc a ∧ (s.server.pfds a).revents.pollin = true) →
      Remaining (s.pass maxClients i y network).server.pc a ∧
        ((s.pass maxClients i y network).server.pfds a).revents.pollin = true := by
    rintro ⟨hremaining, hpollin⟩
    rw [hpa]
    exact ⟨remaining_pass hpc ham hai hremaining, hpollin⟩
  refine ⟨fun hremaining => absurd hremaining hpassedBy, fun hclosed => hkeep ?_⟩
  cases hpassed with
  | idle _ hy _ =>
      rcases hclosed with hne | ⟨hremaining, _⟩
      · change (Function.update s.server.conns i y.conn i).used ≠
          (Function.update s.server.conns i y.conn i).sent at hne
        rw [Function.update_self, hy] at hne
        exact h.closed (.inl hne)
      · exact absurd hremaining hpassedBy
  | read fd k' bytes inbound _ _ _ _ _ hflags _ _ _ _ =>
      refine h.closed (.inr ⟨hself, ?_⟩)
      rw [hflags]
      decide
  | eof fd k' _ _ _ _ _ _ _ _ hy _ =>
      exfalso
      have hlive := hserves.live
      change 0 ≤ (Function.update s.server.conns i y.conn i).fd at hlive
      rw [Function.update_self, hy] at hlive
      exact absurd (show (0 : Int) ≤ -1 from hlive) (by decide)
  | write fd k' n outbound _ _ _ _ hflags _ _ _ _ _ =>
      have hunwritten := h.unwritten hself
      rw [hflags] at hunwritten
      cases hunwritten

theorem Passed.backlog (h : Passed s i rd y network) : network.backlog = s.network.backlog := by
  cases h with
  | idle _ _ hnetwork => rw [hnetwork]
  | read _ _ _ _ _ _ _ _ _ _ _ _ _ hnetwork => rw [hnetwork]
  | eof _ _ _ _ _ _ _ _ _ _ _ hnetwork => rw [hnetwork]
  | write _ _ _ _ _ _ _ _ _ _ _ _ _ hnetwork => rw [hnetwork]

/-- Only a `write` puts something into the buffer to a client. -/
theorem Passed.outbound (h : Passed s i rd y network) (hi : 1 ≤ i) (him : i ≤ maxClients)
    (hk : ∀ k', Serves maxClients s i k' → (s.server.pfds i).revents = POLLOUT → k ≠ k') :
    (network.outbound k).length = (s.network.outbound k).length := by
  cases h with
  | idle _ _ hnetwork => rw [hnetwork]
  | read _ _ _ _ _ _ _ _ _ _ _ _ _ hnetwork => rw [hnetwork]
  | eof _ _ _ _ _ _ _ _ _ _ _ hnetwork => rw [hnetwork]
  | write fd k' n outbound hfd hlive hpeer _ hflags _ _ _ _ hnetwork =>
      subst hfd hnetwork
      have hne := hk k' ⟨hi, him, hlive, hpeer⟩ hflags
      show (Function.update s.network.outbound k' outbound k).length = _
      rw [Function.update_of_ne hne]

/-- A slot is passed. -/
theorem Near.pass (h : Near maxClients s)
    (hinv : PollServer.Inv maxClients setup.base s.server) (hmirrors : Mirrors s.server pool)
    (hsound : Sound setup (s.beside pool))
    (hsingle : ThreadpoolLoad.Single (s.beside pool)) (hpc : s.server.pc = .scan i)
    (hpassed : Passed s i rd y network) :
    Near maxClients (s.pass maxClients i y network) := by
  obtain ⟨hi, him⟩ := hinv.scanning i hpc
  refine ⟨fun k hk => ?_, fun fd k hk => ?_, fun a b k ha hb => ?_⟩
  · change k ∈ network.backlog at hk
    rw [hpassed.backlog] at hk
    refine (h.waiting k hk).congr rfl (hpassed.outbound hi him fun k' hserves _ => ?_)
    rintro rfl
    exact hsingle.apart _ k hk hserves.peer
  · have hpeer := hpassed.peer_some hk
    refine (h.accepted fd k hpeer).imp_right fun hold => ⟨hold.1, fun w hw => ?_⟩
    refine (hold.2 w hw).congr rfl (hpassed.outbound hi him fun k' hserves hflags => ?_)
    exact (h.not_second hinv hmirrors hsound hpc hserves hflags hpeer).symm
  · have has := ha.of_pass hpassed
    have hbs := hb.of_pass hpassed
    have hbefore := h.before a b k has hbs
    have hgone := older_gone h hsound has hbs
    have hempty := older_empty hsound hgone
    have hab : a ≠ b := by
      rintro rfl
      have heq := congrArg Prod.snd (Option.some.inj (has.peer.symm.trans hbs.peer))
      dsimp only at heq
      omega
    by_cases hai : a = i
    · subst hai
      have hdrained : (s.server.conns a).used = (s.server.conns a).sent := by
        rcases (hinv.slots a has.pos has.le).busy has.live with ⟨_, hused, hsent⟩ | ⟨_, hmore, _⟩
        · exact hused.trans hsent.symm
        · have hheld := held_of_full hmirrors has hmore
          omega
      exact hbefore.pass_older hpc hpassed (Ne.symm hab) ha (by omega) hdrained
    · by_cases hbi : b = i
      · subst hbi
        exact hbefore.pass_newer hpc ha.le hpassed hai hb
      · exact hbefore.pass_other hpc ha.le hai hbi

end Pass

/-! ### The clients' steps -/

/-- A client does not change which slot serves whom. -/
theorem Near.of_client (h : Near maxClients s) (hserver : t.server = s.server)
    (hpeer : t.network.peer = s.network.peer) (hwaiting : ∀ k ∈ t.network.backlog, Fresh t k)
    (haccepted : ∀ fd k, s.network.peer fd = some k → k.2 = (t.clients k.1).connIndex ∨
      k.2 + 1 = (t.clients k.1).connIndex ∧
        ∀ w, (t.clients k.1).pc = .connected w → Fresh t (k.1, k.2 + 1)) :
    Near maxClients t where
  waiting := hwaiting
  accepted fd k hk := by
    rw [hpeer] at hk
    exact haccepted fd k hk
  before a b k ha hb := by
    have hserves : ∀ j k, Serves maxClients t j k → Serves maxClients s j k := by
      rintro j k ⟨hpos, hle, hlive, hserved⟩
      rw [hserver] at hlive hserved
      rw [hpeer] at hserved
      exact ⟨hpos, hle, hlive, hserved⟩
    rw [hserver]
    exact h.before a b k (hserves a k ha) (hserves b _ hb)

/-- A client thread goes on with its connection. -/
theorem Near.of_moves (h : Near maxClients s) (hserver : t.server = s.server)
    (hpeer : t.network.peer = s.network.peer) (hbacklog : t.network.backlog = s.network.backlog)
    {i : Fin threads} {w w' : Worker} (hpc : (s.clients i).pc = .connected w)
    (hself : t.clients i = { s.clients i with pc := .connected w' })
    (hothers : ∀ j, j ≠ i → t.clients j = s.clients j)
    (hfresh : ∀ k, Fresh s k → Fresh t k) : Near maxClients t := by
  refine h.of_client hserver hpeer (fun k hk => ?_) fun fd k hk => ?_
  · rw [hbacklog] at hk
    exact hfresh k (h.waiting k hk)
  · by_cases hki : k.1 = i
    · subst hki
      rw [hself]
      exact (h.accepted fd k hk).imp_right fun hold =>
        ⟨hold.1, fun _ _ => hfresh _ (hold.2 w hpc)⟩
    · rw [hothers _ hki]
      exact (h.accepted fd k hk).imp_right fun hold =>
        ⟨hold.1, fun w hw => hfresh _ (hold.2 w hw)⟩

section Client

variable {i : Fin threads} {w : Worker}

/-- Nothing has been answered on a connection before it is made. -/
theorem nothing_answered (hsound : Sound setup (s.beside pool)) {bytes : Nat}
    (hpc : (s.clients i).pc = .connecting bytes) :
    (s.network.outbound ((s.beside pool).conn i)).length = 0 := by
  have hworker : (s.beside pool).worker ((s.beside pool).conn i) = none := by
    have hbefore : ((s.beside pool).clients i).pc = .connecting bytes := hpc
    rw [ThreadpoolLoad.State.worker, ThreadpoolLoad.State.conn, hbefore]
  have hnone := (hsound.balanced ((s.beside pool).conn i)).finished (by
    rw [ThreadpoolLoad.State.view, hworker]
    rfl)
  have hsum : _ + _ + (s.network.outbound ((s.beside pool).conn i)).length = 0 := hnone
  omega

/-- A connection is made. -/
theorem Near.connect (h : Near maxClients s) (hrequests : 0 < setup.client.requestsPerConnection)
    (hsound : Sound setup (s.beside pool)) {bytes : Nat}
    (hpc : (s.clients i).pc = .connecting bytes)
    (hstep : ThreadpoolLoad.connectStep setup (s.beside pool) i bytes = some (t.beside pool))
    (hserver : t.server = s.server) : Near maxClients t := by
  obtain ⟨_, heq⟩ := ThreadpoolLoad.connectStep_some hstep
  have hnetwork := congrArg ThreadpoolLoad.State.network heq
  have hclients := congrArg ThreadpoolLoad.State.clients heq
  change t.network = { s.network with
    backlog := s.network.backlog ++ [(s.beside pool).conn i] } at hnetwork
  change t.clients = ((s.beside pool).setPc i _).clients at hclients
  have hself : t.clients i = { s.clients i with
      pc := .connected (.start setup.client bytes) } := by
    rw [hclients]
    exact ThreadpoolLoad.clients_setPc_self _
  have hothers : ∀ j, j ≠ i → t.clients j = s.clients j := by
    intro j hj
    rw [hclients]
    exact ThreadpoolLoad.clients_setPc_of_ne _ hj
  have hother : ∀ k : Conn threads, k.1 ≠ i → Fresh s k → Fresh t k := fun k hk hfresh =>
    hfresh.congr (hothers _ hk) (by rw [hnetwork])
  have hnew : Fresh t ((s.beside pool).conn i) := by
    refine ⟨?_, ⟨_, congrArg Thread.pc hself, rfl, .inl ⟨0, if_pos hrequests⟩⟩, ?_⟩
    · show (s.clients i).connIndex = (t.clients i).connIndex
      rw [hself]
    · rw [hnetwork]
      exact nothing_answered hsound hpc
  refine h.of_client hserver (by rw [hnetwork]) (fun k hk => ?_) fun fd k hk => ?_
  · rw [hnetwork] at hk
    rcases List.mem_append.mp hk with hk | hk
    · have hfresh := h.waiting k hk
      refine hother k ?_ hfresh
      rintro rfl
      obtain ⟨w, hw, _⟩ := hfresh.unanswered
      rw [hpc] at hw
      cases hw
    · rw [List.mem_singleton.mp hk]
      exact hnew
  · by_cases hki : k.1 = i
    · subst hki
      rw [hself]
      refine (h.accepted fd k hk).imp_right fun hold => ⟨hold.1, fun _ _ => ?_⟩
      have hconn : (k.1, k.2 + 1) = (s.beside pool).conn k.1 := Prod.ext rfl hold.1
      rw [hconn]
      exact hnew
    · rw [hothers _ hki]
      exact (h.accepted fd k hk).imp_right fun hold =>
        ⟨hold.1, fun w hw => hother _ hki (hold.2 w hw)⟩

/-- More of a request is written. -/
theorem Near.write (h : Near maxClients s) {n done : Nat} (hpc : (s.clients i).pc = .connected w)
    (hstep : ThreadpoolLoad.writeStep setup (s.beside pool) i w done n = some (t.beside pool))
    (hserver : t.server = s.server) : Near maxClients t := by
  obtain ⟨hn, hdone, inbound, _, heq⟩ := ThreadpoolLoad.writeStep_some hstep
  have hnetwork : t.network = { s.network with
      inbound := Function.update s.network.inbound ((s.beside pool).conn i) inbound } :=
    congrArg ThreadpoolLoad.State.network heq
  have hclients : t.clients = ((s.beside pool).setPc i _).clients :=
    congrArg ThreadpoolLoad.State.clients heq
  have hself : t.clients i = { s.clients i with
      pc := .connected (w.wrote setup.client done (.ok n)) } := by
    rw [hclients]
    exact ThreadpoolLoad.clients_setPc_self _
  have hothers : ∀ j, j ≠ i → t.clients j = s.clients j := by
    intro j hj
    rw [hclients]
    exact ThreadpoolLoad.clients_setPc_of_ne _ hj
  refine h.of_moves hserver (by rw [hnetwork]) (by rw [hnetwork]) hpc hself hothers
    fun k hfresh => ?_
  by_cases hki : k.1 = i
  · subst hki
    obtain ⟨w', hw', hreq, _⟩ := hfresh.unanswered
    rw [hpc] at hw'
    cases hw'
    have hcurrent := hfresh.current
    refine ⟨by rw [hself]; exact hcurrent, ⟨_, congrArg Thread.pc hself, ?_⟩, ?_⟩
    · rw [LoadClient.wrote_ok hn hdone]
      split
      · exact ⟨hreq, .inl ⟨done + n, rfl⟩⟩
      · exact ⟨hreq, .inr rfl⟩
    · rw [hnetwork]
      exact hfresh.empty
  · exact hfresh.congr (hothers _ hki) (by rw [hnetwork])

/-- Part of an answer is read. -/
theorem Near.read (h : Near maxClients s) {n done : Nat} (hpc : (s.clients i).pc = .connected w)
    (hstep : ThreadpoolLoad.readStep setup (s.beside pool) i w done n = some (t.beside pool))
    (hserver : t.server = s.server) : Near maxClients t := by
  obtain ⟨bytes, outbound, _, hn, _, hlength, heq⟩ := ThreadpoolLoad.readStep_some hstep
  have hnetwork : t.network = { s.network with
      outbound := Function.update s.network.outbound ((s.beside pool).conn i) outbound } :=
    congrArg ThreadpoolLoad.State.network heq
  have hclients : t.clients = ((s.beside pool).setPc i _).clients :=
    congrArg ThreadpoolLoad.State.clients heq
  have hself : t.clients i = { s.clients i with
      pc := .connected (w.received setup.client done (.ok bytes)) } := by
    rw [hclients]
    exact ThreadpoolLoad.clients_setPc_self _
  have hothers : ∀ j, j ≠ i → t.clients j = s.clients j := by
    intro j hj
    rw [hclients]
    exact ThreadpoolLoad.clients_setPc_of_ne _ hj
  refine h.of_moves hserver (by rw [hnetwork]) (by rw [hnetwork]) hpc hself hothers
    fun k hfresh => ?_
  -- the thread whose answer it is does not wait for the first
  have hki : k ≠ (s.beside pool).conn i := by
    rintro rfl
    have hempty : (s.network.outbound ((s.beside pool).conn i)).length = 0 := hfresh.empty
    change (s.network.outbound ((s.beside pool).conn i)).length = _ at hlength
    omega
  have hother : k.1 ≠ i := by
    rintro rfl
    exact hki (Prod.ext rfl hfresh.current)
  refine hfresh.congr (hothers _ hother) ?_
  rw [hnetwork]
  show (Function.update s.network.outbound _ outbound k).length = _
  rw [Function.update_of_ne hki]

/-- A thread that has closed its connection had no older one left. -/
theorem Near.next (h : Near maxClients s) (hpc : (s.clients i).pc = .connected w)
    (hclosed : w.pc = .closed)
    (heq : t.beside pool = ThreadpoolLoad.nextStep setup (s.beside pool) i w)
    (hserver : t.server = s.server) : Near maxClients t := by
  have hnetwork : t.network = s.network := congrArg ThreadpoolLoad.State.network heq
  have hclients : t.clients = (ThreadpoolLoad.nextStep setup (s.beside pool) i w).clients :=
    congrArg ThreadpoolLoad.State.clients heq
  have hself : t.clients i = .loopTest (setup.connections i)
      ((s.clients i).connIndex + 1) w.bytesCompleted := by
    rw [hclients]
    exact ThreadpoolLoad.clients_nextStep _ _ _ _
  have hothers : ∀ j, j ≠ i → t.clients j = s.clients j := by
    intro j hj
    rw [hclients]
    exact ThreadpoolLoad.clients_nextStep_of_ne hj
  have hother : ∀ k : Conn threads, Fresh s k → k.1 ≠ i ∧ Fresh t k := by
    intro k hfresh
    have hki : k.1 ≠ i := by
      rintro rfl
      exact hfresh.not_closed hpc hclosed
    exact ⟨hki, hfresh.congr (hothers _ hki) (by rw [hnetwork])⟩
  refine h.of_client hserver (by rw [hnetwork]) (fun k hk => ?_) fun fd k hk => ?_
  · rw [hnetwork] at hk
    exact (hother k (h.waiting k hk)).2
  · by_cases hki : k.1 = i
    · subst hki
      rw [hself]
      rcases h.accepted fd k hk with hindex | ⟨_, hfresh⟩
      · refine .inr ⟨congrArg (· + 1) hindex, fun w' hw' => ?_⟩
        exact absurd hw' (LoadClient.loopTest_not_connected _ _ _ w')
      · exact absurd rfl (hother _ (hfresh w hpc)).1
    · rw [hothers _ hki]
      exact (h.accepted fd k hk).imp_right fun hold =>
        ⟨hold.1, fun w hw => (hother _ (hold.2 w hw)).2⟩

end Client

/-- Any step while whoever is accepted finds a slot. -/
theorem Near.step (h : Near maxClients s) (hrequests : 0 < setup.client.requestsPerConnection)
    (hknown : Known setup maxClients s pool) {e : Event threads}
    (hstep : PollLoad.step setup maxClients s e = some t) (hadmits : Admits maxClients s e) :
    Near maxClients t := by
  obtain ⟨_, hready, hinv, _, hmirrors, _, hsound, hsingle⟩ := hknown
  obtain ⟨_, hmove⟩ := step_some hstep
  cases e with
  | server e =>
      cases serverStep_served hready hinv hmove with
      | poll hpc _ heq =>
          subst heq
          exact h.poll hinv hmirrors hsound hpc
      | accept k rest i hpc hbacklog hkernel _ _ _ heq =>
          subst heq
          exact h.accept hinv hsound hbacklog hkernel
      | refuse k rest hpc hbacklog hfull heq =>
          obtain ⟨i, hi, him, hfree⟩ := hadmits
          exact absurd (hfull i hi him) (Int.not_le.mpr hfree)
      | drained hpc _ heq =>
          subst heq
          exact h.drained hpc
      | slot i y network hpc hpassed _ heq =>
          subst heq
          exact h.pass hinv hmirrors hsound hsingle hpc hpassed
  | client e =>
      have hserver := clientStep_server hmove
      have hbeside := clientStep_some pool hmove
      cases e with
      | connect i =>
          cases hsound.stepped (e := .connect i) hbeside with
          | connect hpc hconnect => exact h.connect hrequests hsound hpc hconnect hserver
      | write i n =>
          cases hsound.stepped (e := .write i n) hbeside with
          | write hpc _ hsent => exact h.write hpc hsent hserver
      | read i n =>
          cases hsound.stepped (e := .read i n) hbeside with
          | read hpc _ hreceived => exact h.read hpc hreceived hserver
      | eof i => cases hsound.stepped (e := .eof i) hbeside
      | next i =>
          cases hsound.stepped (e := .next i) hbeside with
          | next hpc hclosed heq => exact h.next hpc hclosed heq hserver
  | reset i =>
      change resetStep setup s i = some t at hmove
      rw [no_reset hsound] at hmove
      cases hmove

end Server

theorem reachable_near (hrequests : 0 < setup.client.requestsPerConnection)
    (hpayload : 0 < setup.client.payloadSize) {listenFd : Int}
    (hs : (accepting setup maxClients listenFd toServer toClient).Reachable s) :
    Near maxClients s := by
  refine hs.induct ?_ ?_
  · rintro s rfl
    refine ⟨fun k hk => ?_, fun fd k hk => ?_, fun a b k ha _ => ?_⟩
    · cases hk
    · cases hk
    · cases ha.peer
  · intro s e t hs h hnext
    obtain ⟨pool, hknown⟩ := reachable_known hpayload hs
    exact h.step hrequests hknown hnext.1 hnext.2

/-! ## Enough slots -/

/-- The slots that the client threads need: two each, but one for a thread that makes a
single connection. -/
def slotsNeeded (setup : Setup threads) : Nat := ∑ i, min 2 (setup.connections i)

/-- A thread's last connection and the one before. -/
theorem card_own_le {own : Finset (Conn threads)} {i : Fin threads} (hown : ∀ k ∈ own, k.1 = i)
    {connections : Nat} (hconnections : ∀ k ∈ own, k.2 < connections) (last : Nat)
    (hlast : ∀ k ∈ own, k.2 ≤ last ∧ last ≤ k.2 + 1) : own.card ≤ min 2 connections := by
  have hinj : Set.InjOn Prod.snd (own : Set (Conn threads)) := fun k hk k' hk' hnumber =>
    Prod.ext ((hown k hk).trans (hown k' hk').symm) hnumber
  refine le_min ?_ ?_
  · have hle := Finset.card_le_card_of_injOn (t := Finset.Icc (last - 1) last) Prod.snd
      (fun k hk => ?_) hinj
    · rw [Nat.card_Icc] at hle
      omega
    · obtain ⟨hle, hge⟩ := hlast k hk
      exact Finset.mem_coe.mpr (Finset.mem_Icc.mpr ⟨by omega, hle⟩)
  · have hle := Finset.card_le_card_of_injOn (t := Finset.range connections) Prod.snd
      (fun k hk => Finset.mem_coe.mpr (Finset.mem_range.mpr (hconnections k hk))) hinj
    rwa [Finset.card_range] at hle

/-- Such connections of all the threads are no more than the slots needed. -/
theorem card_le_slotsNeeded {conns : Finset (Conn threads)}
    (hconnections : ∀ k ∈ conns, k.2 < setup.connections k.1)
    (last : Fin threads → Nat) (hlast : ∀ k ∈ conns, k.2 ≤ last k.1 ∧ last k.1 ≤ k.2 + 1) :
    conns.card ≤ slotsNeeded setup := by
  have hfibers := Finset.card_eq_sum_card_fiberwise (s := conns) (t := Finset.univ)
    (f := Prod.fst) fun k _ => Finset.mem_coe.mpr (Finset.mem_univ k.1)
  rw [hfibers, slotsNeeded]
  refine Finset.sum_le_sum fun i _ => card_own_le
    (fun k hk => (Finset.mem_filter.mp hk).2) (fun k hk => ?_) (last i) fun k hk => ?_
  · obtain ⟨hmem, rfl⟩ := Finset.mem_filter.mp hk
    exact hconnections k hmem
  · obtain ⟨hmem, rfl⟩ := Finset.mem_filter.mp hk
    exact hlast k hmem

theorem connIndex_le {i : Fin threads}
    (h : LoadClient.ThreadOk setup.client (setup.connections i) (s.clients i)) :
    (s.clients i).connIndex ≤ setup.connections i := by
  cases hpc : (s.clients i).pc with
  | connecting bytes => exact Nat.le_of_lt (h.connecting hpc).1
  | connected w => exact Nat.le_of_lt (h.connected hpc).1
  | returned bytes => exact Nat.le_of_eq (h.returned hpc).1

section Admits

variable {pool : ThreadpoolServer.State maxClients}

/-- A connection that a thread has made is one of its connections. -/
theorem made_lt (hthreads : ∀ i,
      LoadClient.ThreadOk setup.client (setup.connections i) (s.clients i))
    {k : Conn threads} (hmade : (s.beside pool).Made k) : k.2 < setup.connections k.1 := by
  rcases hmade with hlt | ⟨heq, w, hpc⟩
  · exact Nat.lt_of_lt_of_le hlt (connIndex_le (hthreads k.1))
  · rw [heq]
    exact ((hthreads k.1).connected hpc).1

/-- Where every slot is taken, there is a connection for each. -/
theorem exists_conns (hknown : Known setup maxClients s pool)
    (hlive : ∀ j, 1 ≤ j → j ≤ maxClients → 0 ≤ (s.server.conns j).fd) :
    ∃ conns : Finset (Conn threads), conns.card = maxClients ∧
      ∀ k ∈ conns, ∃ j, Serves maxClients s j k := by
  have hserves : ∀ j : Finset.Icc 1 maxClients, ∃ k, Serves maxClients s j k := by
    rintro ⟨j, hj⟩
    obtain ⟨hone, hjm⟩ := Finset.mem_Icc.mp hj
    obtain ⟨k, hk⟩ := exists_conn hknown.inv hknown.mirrors hknown.sound hone hjm
      (hlive j hone hjm)
    exact ⟨k, hone, hjm, hlive j hone hjm, hk⟩
  choose conn hconn using hserves
  have hinj : Function.Injective conn := by
    intro i j heq
    have hi := hconn i
    have hj := hconn j
    by_contra hne
    have hslots : (j : Nat) ≠ i := fun h => hne (Subtype.ext h.symm)
    exact conn_ne_of_slot_ne hknown.inv hknown.single hi.pos hi.le hi.live hj.pos hj.le
      hj.live hslots hi.peer hj.peer heq.symm
  refine ⟨Finset.univ.image conn, ?_, fun k hk => ?_⟩
  · rw [Finset.card_image_of_injective _ hinj, Finset.card_univ, Fintype.card_coe, Nat.card_Icc]
    omega
  · obtain ⟨j, _, rfl⟩ := Finset.mem_image.mp hk
    exact ⟨j, hconn j⟩

/-- With as many slots as the threads need, one of them is free. -/
theorem admits_of_slots (hknown : Known setup maxClients s pool) (hnear : Near maxClients s)
    (hthreads : ∀ i, LoadClient.ThreadOk setup.client (setup.connections i) (s.clients i))
    (hslots : slotsNeeded setup ≤ maxClients) {k : Conn threads} {rest : List (Conn threads)}
    (hbacklog : s.network.backlog = k :: rest) :
    ∃ i, 1 ≤ i ∧ i ≤ maxClients ∧ (s.server.conns i).fd < 0 := by
  by_contra hnone
  have hmem : k ∈ s.network.backlog := by
    rw [hbacklog]
    exact List.mem_cons_self
  have hlive : ∀ j, 1 ≤ j → j ≤ maxClients → 0 ≤ (s.server.conns j).fd := by
    intro j hj hjm
    by_contra hneg
    exact hnone ⟨j, hj, hjm, Int.not_le.mp hneg⟩
  -- a connection for each slot, and the one that waits
  obtain ⟨conns, hslotted, hserved⟩ := exists_conns hknown hlive
  have hnew : k ∉ conns := by
    intro hk
    obtain ⟨j, hserves⟩ := hserved k hk
    exact hknown.single.apart _ _ hmem hserves.peer
  have hcard : (insert k conns).card = maxClients + 1 := by
    rw [Finset.card_insert_of_notMem hnew, hslotted]
  have hle : (insert k conns).card ≤ slotsNeeded setup := by
    refine card_le_slotsNeeded ?_ (fun i => (s.clients i).connIndex) ?_
    · intro k' hk'
      rcases Finset.mem_insert.mp hk' with rfl | hk'
      · exact made_lt hthreads (hknown.sound.waiting k' hmem)
      · obtain ⟨j, hserves⟩ := hserved k' hk'
        exact made_lt hthreads (hknown.sound.accepted _ _ hserves.peer)
    · intro k' hk'
      rcases Finset.mem_insert.mp hk' with rfl | hk'
      · have hcurrent := (hnear.waiting k' hmem).current
        omega
      · obtain ⟨j, hserves⟩ := hserved k' hk'
        rcases hnear.accepted _ _ hserves.peer with heq | ⟨heq, _⟩
        · omega
        · omega
  omega

end Admits

section Runs

variable (hrequests : 0 < setup.client.requestsPerConnection)
  (hpayload : 0 < setup.client.payloadSize) (hslots : slotsNeeded setup ≤ maxClients)
include hrequests hpayload hslots

/-- With enough slots nobody is turned away. -/
theorem step_admits {listenFd : Int}
    (hs : (accepting setup maxClients listenFd toServer toClient).Reachable s)
    {e : Event threads} (hstep : step setup maxClients s e = some t) :
    Admits maxClients s e := by
  obtain ⟨pool, hknown⟩ := reachable_known hpayload hs
  cases e with
  | server e =>
      cases e with
      | poll => trivial
      | accept fd =>
          cases accept_served (step_some hstep).2 with
          | accept k rest i _ _ _ hi him hfree _ => exact ⟨i, hi, him, hfree⟩
          | refuse k rest _ hbacklog _ _ =>
              exact admits_of_slots hknown (reachable_near hrequests hpayload hs)
                (ThreadpoolLoad.reachable_threads hpayload hknown.reachable) hslots hbacklog
      | drained => trivial
      | slot rd wr => trivial
  | client e => trivial
  | reset i => trivial

theorem alwaysAdmits (listenFd : Int) :
    AlwaysAdmits setup maxClients listenFd toServer toClient :=
  fun _ _ _ hs hstep => step_admits hrequests hpayload hslots hs hstep

end Runs

end Model

end SysLab.PartB.PollLoad
