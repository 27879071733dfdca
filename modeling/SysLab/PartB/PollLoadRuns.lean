import SysLab.PartB.PollLoadSlots

/-!
# Where the runs of the `poll` server and the load client stop

The accept loop and the scan go on by themselves; only `poll` waits.  When it does and no
client thread can move, the thread pool beside the server has come to its end, so all
requests are completed (`completed_of_stuck`).
-/

namespace SysLab.PartB.PollLoad

open SysLab.Foundation
open SysLab.PartB.LoadClient (Config Thread ThreadPc Worker bytesFor)
open SysLab.PartB.PollServer (PollFlags noFlags POLLIN POLLOUT Slot Connection)
open SysLab.PartB.ThreadpoolLoad (Setup Conn Sound newCalls newCalls_append)
open Transcript (clients mem_clients)

section Model

variable {threads toServer toClient maxClients : Nat} {setup : Setup threads}
  {s t : State threads toServer toClient} {pool : ThreadpoolServer.State maxClients}

/-! ## The server goes on -/

theorem answered_eq {e : PollServer.Event} {server : PollServer.State} (calls : Trace)
    (hstep : PollServer.step maxClients setup.base s.server e = some server)
    (hcalls : server.trace = calls ++ s.server.trace) (hkernel : KernelOk setup.base server.trace)
    (hanswers : ∃ network, s.network.answersNow s.clientSide.isOpen calls = some network) :
    ∃ t, answered setup maxClients s e = some t := by
  obtain ⟨network, hanswers⟩ := hanswers
  have hnew : newCalls s.server.trace server.trace = calls := by
    rw [hcalls, newCalls_append]
  refine ⟨{ s with server := server, network := network }, ?_⟩
  rw [answered, hstep, Option.bind_some, if_pos hkernel, hnew, hanswers]
  rfl

/-- `poll` returns when something is ready. -/
theorem exists_poll (hknown : Known setup maxClients s pool) (hpc : s.server.pc = .poll)
    (hany : ∃ j ≤ maxClients, s.polled j ≠ noFlags) :
    ∃ t, serverStep setup maxClients s .poll = some t := by
  obtain ⟨j, hj, hflags⟩ := hany
  have hready : (List.range (maxClients + 1)).any (fun j => s.polled j ≠ noFlags) = true :=
    List.any_eq_true.mpr ⟨j, List.mem_range.mpr (Nat.lt_succ_of_le hj),
      decide_eq_true hflags⟩
  have hstep : PollServer.step maxClients setup.base s.server (.poll (.ok s.polled)) =
      some (PollServer.pollStep maxClients s.server (.ok s.polled)) := if_pos hpc
  rw [serverStep, if_pos hready]
  exact answered_eq [] hstep rfl hknown.kernel ⟨_, rfl⟩

/-- The accept loop goes on, or ends. -/
theorem exists_accept (hknown : Known setup maxClients s pool) (hpc : s.server.pc = .accept) :
    ∃ e t, serverStep setup maxClients s e = some t := by
  cases hbacklog : s.network.backlog with
  | nil =>
      have hstep : PollServer.step maxClients setup.base s.server (.accept (.error .EAGAIN)) =
          some { s.server with pc := PollServer.scanFrom maxClients 1 } := if_pos hpc
      refine ⟨.drained, ?_⟩
      rw [serverStep, if_pos hbacklog]
      exact answered_eq [] hstep rfl hknown.kernel ⟨_, rfl⟩
  | cons k rest =>
      obtain ⟨fd, hfd⟩ := exists_fd (Transcript.openKeys setup.base s.server.trace)
      have hkernel : KernelOk setup.base (.accept (fd : Int) :: s.server.trace) :=
        ⟨⟨Int.natCast_nonneg fd, hfd⟩, hknown.kernel⟩
      have hset : setNonblocking
          (Transcript.openKeys setup.base (.accept (fd : Int) :: s.server.trace)) fd = none :=
        setNonblocking_of_mem (Finset.mem_insert_self (fd : Int) _)
      have hanswer : s.network.answersNow s.clientSide.isOpen [.accept (fd : Int)] =
          some { s.network with
            backlog := rest
            peer := Function.update s.network.peer fd (some k) } := by
        show s.network.answer s.clientSide.isOpen (.accept (fd : Int)) = _
        simp only [Network.answer, hbacklog]
      refine ⟨.accept fd, ?_⟩
      cases hadd : PollServer.addConnection s.server.pfds s.server.conns maxClients fd with
      | some tables =>
          have hstep : PollServer.step maxClients setup.base s.server (.accept (.ok fd)) =
              some { s.server with
                pfds := tables.1, conns := tables.2, trace := .accept fd :: s.server.trace } := by
            simp only [PollServer.step, if_pos hpc, PollServer.acceptStep, hset, hadd]
          exact answered_eq [.accept (fd : Int)] hstep rfl hkernel ⟨_, hanswer⟩
      | none =>
          have hstep : PollServer.step maxClients setup.base s.server (.accept (.ok fd)) =
              some { s.server with
                trace := .close fd :: .accept fd :: s.server.trace } := by
            simp only [PollServer.step, if_pos hpc, PollServer.acceptStep, hset, hadd]
          refine answered_eq [.close (fd : Int), .accept (fd : Int)] hstep rfl
            ⟨trivial, hkernel⟩ ?_
          rw [Network.answersNow, hanswer, Option.bind_some]
          show ∃ network, (Function.update s.network.peer fd (some k) (fd : Int)).map _ =
            some network
          rw [Function.update_self]
          exact ⟨_, rfl⟩

/-- The scan goes on with a slot whose calls are answered. -/
theorem exists_scanStep {i : Nat} (hpc : s.server.pc = .scan i)
    (rd : Except Errno (List UInt8)) (wr : Except Errno Nat) (calls : Trace)
    (hcalls : (PollServer.serveSlot (s.server.slot i) rd wr).trace = calls ++ s.server.trace)
    (hkernel : KernelOk setup.base (calls ++ s.server.trace))
    (hanswers : ∃ network, s.network.answersNow s.clientSide.isOpen calls = some network) :
    ∃ t, serverStep setup maxClients s (.slot rd wr) = some t := by
  have hstep : PollServer.step maxClients setup.base s.server (.slot rd wr) =
      some (PollServer.scanStep maxClients s.server i rd wr) := by
    simp only [PollServer.step, hpc]
  exact answered_eq calls hstep hcalls (by rw [← hcalls] at hkernel; exact hkernel) hanswers

/-- A byte is read from a slot where there is one. -/
theorem exists_read_byte {i : Nat} (hpc : s.server.pc = .scan i)
    (hkernel : KernelOk setup.base s.server.trace) (hlive : 0 ≤ (s.server.conns i).fd)
    (hdrained : (s.server.conns i).used = (s.server.conns i).sent)
    (hflags : (s.server.pfds i).revents = POLLIN) {k : Conn threads}
    (hpeer : s.network.peer (s.server.conns i).fd = some k)
    (hin : 0 < (s.network.inbound k).length) :
    ∃ b t, serverStep setup maxClients s (.slot (.ok [b]) (.ok 0)) = some t := by
  obtain ⟨bytes, inbound, hpop⟩ := Channel.exists_pop (n := 1) hin
  obtain ⟨b, rfl⟩ := List.length_eq_one_iff.mp (Channel.pop_some hpop).1
  have hserve := serveSlot_read (x := s.server.slot i) hlive hflags hdrained (.ok [b]) (.ok 0)
  refine ⟨b, exists_scanStep hpc (.ok [b]) (.ok 0)
    [.read (s.server.conns i).fd bufferSize (.ok [b])] (congrArg Slot.trace hserve)
    ⟨show 1 ≤ 4096 by decide, hkernel⟩ ?_⟩
  show ∃ network, (s.network.peer (s.server.conns i).fd).bind
    (fun k => s.network.answerRead s.clientSide.isOpen k [b]) = some network
  rw [hpeer, Option.bind_some, Network.answerRead, if_neg (List.cons_ne_nil b []),
    List.length_singleton, hpop]
  exact ⟨_, if_pos rfl⟩

/-- A slot whose client has gone is closed. -/
theorem exists_read_end {i : Nat} (hpc : s.server.pc = .scan i)
    (hkernel : KernelOk setup.base s.server.trace) (hlive : 0 ≤ (s.server.conns i).fd)
    (hdrained : (s.server.conns i).used = (s.server.conns i).sent)
    (hflags : (s.server.pfds i).revents = POLLIN) {k : Conn threads}
    (hpeer : s.network.peer (s.server.conns i).fd = some k)
    (hgone : s.clientSide.isOpen k = false) (hempty : (s.network.inbound k).length = 0) :
    ∃ t, serverStep setup maxClients s (.slot (.ok []) (.ok 0)) = some t := by
  have hserve := serveSlot_read (x := s.server.slot i) hlive hflags hdrained (.ok []) (.ok 0)
  have htrace : (PollServer.serveSlot (s.server.slot i) (.ok []) (.ok 0)).trace =
      [.close (s.server.conns i).fd, .read (s.server.conns i).fd bufferSize (.ok [])] ++
        s.server.trace := by
    rw [hserve]
    exact if_pos hlive
  have hread : s.network.answersNow s.clientSide.isOpen
      [.read (s.server.conns i).fd bufferSize (.ok [])] = some s.network := by
    show (s.network.peer (s.server.conns i).fd).bind
      (fun k => s.network.answerRead s.clientSide.isOpen k []) = _
    rw [hpeer, Option.bind_some, Network.answerRead, if_pos rfl, if_pos ⟨hgone, hempty⟩]
  refine exists_scanStep hpc (.ok []) (.ok 0) _ htrace ⟨trivial, Nat.zero_le 4096, hkernel⟩ ?_
  rw [Network.answersNow, hread, Option.bind_some]
  show ∃ network, (s.network.peer (s.server.conns i).fd).map _ = some network
  rw [hpeer]
  exact ⟨_, rfl⟩

/-- A byte is written to a slot where there is room. -/
theorem exists_write_byte {i : Nat} (hpc : s.server.pc = .scan i)
    (hkernel : KernelOk setup.base s.server.trace) (hlive : 0 ≤ (s.server.conns i).fd)
    (hmore : (s.server.conns i).sent < (s.server.conns i).used)
    (hcap : (s.server.conns i).used ≤ bufferSize)
    (hflags : (s.server.pfds i).revents = POLLOUT) {k : Conn threads}
    (hpeer : s.network.peer (s.server.conns i).fd = some k)
    (hroom : (s.network.outbound k).length < toClient) :
    ∃ t, serverStep setup maxClients s (.slot (.ok []) (.ok 1)) = some t := by
  have hserve := serveSlot_write (x := s.server.slot i) hlive hflags hmore (.ok []) (.ok 1)
  have hlength : (s.server.conns i).pending.length =
      (s.server.conns i).used - (s.server.conns i).sent := Buffer.length_window _ hcap
  have hchunk : 0 < 1 ∧ 1 ≤ (s.server.conns i).pending.length := by omega
  have htake : ((s.server.conns i).pending.take 1).length = 1 :=
    List.length_take_of_le hchunk.2
  obtain ⟨outbound, hpush⟩ := Channel.exists_push (c := s.network.outbound k)
    (show _ + ((s.server.conns i).pending.take 1).length ≤ toClient by omega)
  refine exists_scanStep hpc (.ok []) (.ok 1)
    [.write (s.server.conns i).fd (s.server.conns i).pending (.ok 1)]
    (congrArg Slot.trace hserve) ⟨hchunk.2, hkernel⟩ ?_
  show ∃ network, (s.network.peer (s.server.conns i).fd).bind
    (fun k => s.network.answerWrite k _ 1) = some network
  rw [hpeer, Option.bind_some, Network.answerWrite, if_pos hchunk, hpush]
  exact ⟨_, rfl⟩

/-- A reported slot is read, a byte or the end, or written, a byte. -/
theorem exists_slot (hknown : Known setup maxClients s pool) {i : Nat}
    (hpc : s.server.pc = .scan i) : ∃ rd wr t, (∀ bytes, rd = .ok bytes → bytes.length ≤ 1) ∧
      serverStep setup maxClients s (.slot rd wr) = some t := by
  have hkernel := hknown.kernel
  have hnothing : ∀ bytes, (.ok [] : Except Errno (List UInt8)) = .ok bytes →
      bytes.length ≤ 1 := by
    rintro bytes ⟨⟩
    exact Nat.zero_le 1
  by_cases hskip : (s.server.conns i).fd < 0 ∨ (s.server.pfds i).revents = noFlags
  · obtain ⟨t, ht⟩ := exists_scanStep hpc (.ok []) (.ok 0) []
      (congrArg Slot.trace (if_pos hskip)) hkernel ⟨_, rfl⟩
    exact ⟨.ok [], .ok 0, t, hnothing, ht⟩
  · obtain ⟨hnonneg, hflagged⟩ := not_or.mp hskip
    have hlive : 0 ≤ (s.server.conns i).fd := Int.not_lt.mp hnonneg
    obtain ⟨hi, him⟩ := hknown.inv.scanning i hpc
    have hremaining : Remaining s.server.pc i := by
      rw [hpc]
      exact le_refl i
    obtain ⟨k, hpeer, ⟨hdrained, hflags, hready⟩ | ⟨hmore, hcap, hflags, hroom⟩⟩ :=
      hknown.ready.flagged hknown.inv hi him hremaining hlive hflagged
    · by_cases hin : 0 < (s.network.inbound k).length
      · obtain ⟨b, t, ht⟩ := exists_read_byte hpc hkernel hlive hdrained hflags hpeer hin
        refine ⟨.ok [b], .ok 0, t, ?_, ht⟩
        rintro bytes ⟨⟩
        exact le_refl 1
      · obtain ⟨t, ht⟩ := exists_read_end hpc hkernel hlive hdrained hflags hpeer
          (hready.resolve_left hin) (Nat.eq_zero_of_not_pos hin)
        exact ⟨.ok [], .ok 0, t, hnothing, ht⟩
    · obtain ⟨t, ht⟩ := exists_write_byte hpc hkernel hlive hmore hcap hflags hpeer hroom
      exact ⟨.ok [], .ok 1, t, hnothing, ht⟩

/-! ## When it waits -/

/-- Nobody can go on. -/
theorem not_enabled (hknown : Known setup maxClients s pool) {listenFd : Int}
    (hstuck : ¬ (system setup maxClients listenFd toServer toClient).Enabled s) (e : Event threads)
    (t : State threads toServer toClient) : move setup maxClients s e ≠ some t := by
  intro h
  rw [← step_eq hknown.alive] at h
  exact hstuck ⟨e, t, h⟩

/-- A server that cannot go on waits for `poll` to return. -/
theorem polling_of_stuck (hknown : Known setup maxClients s pool)
    (hstuck : ∀ e t, serverStep setup maxClients s e ≠ some t) : s.server.pc = .poll := by
  cases hpc : s.server.pc with
  | poll => rfl
  | accept =>
      obtain ⟨e, t, ht⟩ := exists_accept hknown hpc
      exact absurd ht (hstuck e t)
  | scan i =>
      obtain ⟨rd, wr, t, _, ht⟩ := exists_slot hknown hpc
      exact absurd ht (hstuck (.slot rd wr) t)
  | exited why => exact absurd hpc (hknown.ready.running why)

/-- It does not return when nothing is ready. -/
theorem nothing_polled (hknown : Known setup maxClients s pool)
    (hstuck : ∀ e t, serverStep setup maxClients s e ≠ some t) {j : Nat} (hj : j ≤ maxClients) :
    s.polled j = noFlags := by
  by_contra hflags
  obtain ⟨t, ht⟩ := exists_poll hknown (polling_of_stuck hknown hstuck) ⟨j, hj, hflags⟩
  exact hstuck .poll t ht

/-- Nobody has connected. -/
theorem backlog_of_polled (hready : Ready maxClients s) (h : s.polled 0 = noFlags) :
    s.network.backlog = [] := by
  rw [State.polled, if_pos rfl, hready.listener] at h
  cases hbacklog : s.network.backlog with
  | nil => rfl
  | cons k rest =>
      rw [hbacklog] at h
      cases h

/-- What a worker does is what its slot says. -/
theorem workerOf_cases (conn : Connection) :
    (workerOf conn).pc = .waiting ∧ conn.fd < 0 ∨
      (workerOf conn).pc = .reading conn.fd ∧ 0 ≤ conn.fd ∧ conn.used = conn.sent ∨
      (workerOf conn).pc = .writing conn.fd conn.used conn.sent ∧ 0 ≤ conn.fd ∧
        conn.used ≠ conn.sent := by
  by_cases hneg : conn.fd < 0
  · exact .inl ⟨workerOf_free hneg, hneg⟩
  · by_cases hdrained : conn.used = conn.sent
    · exact .inr (.inl ⟨workerOf_drained (Int.not_lt.mp hneg) hdrained, Int.not_lt.mp hneg,
        hdrained⟩)
    · refine .inr (.inr ⟨?_, Int.not_lt.mp hneg, hdrained⟩)
      rw [workerOf, if_neg hneg, if_neg hdrained]

section Worker

variable {w : Fin maxClients} {fd : Int} {k : Conn threads}

/-- The worker that reads has nothing to read. -/
theorem nothing_to_read (hknown : Known setup maxClients s pool)
    (hpolled : s.polled (w + 1) = noFlags) (hpc : (pool.workers w).pc = .reading fd)
    (hpeer : s.network.peer fd = some k) :
    (s.network.inbound k).length = 0 ∧ s.clientSide.isOpen k = true := by
  have hslot := hknown.inv.slots (w + 1) (Nat.succ_pos w) w.isLt
  rw [hknown.mirrors.workers w] at hpc
  rcases workerOf_cases (s.server.conns (w + 1)) with
    ⟨hwaiting, _⟩ | ⟨hreading, hlive, hdrained⟩ | ⟨hwriting, _⟩
  · rw [hpc] at hwaiting
    cases hwaiting
  · rw [hpc] at hreading
    cases hreading
    have hfd : (s.server.pfds (w + 1)).fd = (s.server.conns (w + 1)).fd := hslot.fd_eq
    rw [polled_eq (Nat.succ_ne_zero w) hfd hlive hpeer] at hpolled
    have hevents : (s.server.pfds (w + 1)).events = POLLIN := by
      rcases hslot.busy hlive with ⟨hevents, _⟩ | ⟨_, hmore, _⟩
      · exact hevents
      · exact absurd hdrained (Nat.ne_of_gt hmore)
    have hpollin := congrArg PollFlags.pollin hpolled
    rw [hevents] at hpollin
    simpa [POLLIN, noFlags] using hpollin
  · rw [hpc] at hwriting
    cases hwriting

/-- And one that writes has no room. -/
theorem no_room (hknown : Known setup maxClients s pool) {n done : Nat}
    (hpolled : s.polled (w + 1) = noFlags) (hpc : (pool.workers w).pc = .writing fd n done)
    (hpeer : s.network.peer fd = some k) : toClient ≤ (s.network.outbound k).length := by
  have hslot := hknown.inv.slots (w + 1) (Nat.succ_pos w) w.isLt
  rw [hknown.mirrors.workers w] at hpc
  rcases workerOf_cases (s.server.conns (w + 1)) with
    ⟨hwaiting, _⟩ | ⟨hreading, _⟩ | ⟨hwriting, hlive, hmore⟩
  · rw [hpc] at hwaiting
    cases hwaiting
  · rw [hpc] at hreading
    cases hreading
  · rw [hpc] at hwriting
    cases hwriting
    have hfd : (s.server.pfds (w + 1)).fd = (s.server.conns (w + 1)).fd := hslot.fd_eq
    rw [polled_eq (Nat.succ_ne_zero w) hfd hlive hpeer] at hpolled
    have hevents : (s.server.pfds (w + 1)).events = POLLOUT := by
      rcases hslot.busy hlive with ⟨_, hused, hsent⟩ | ⟨hevents, _⟩
      · exact absurd (hused.trans hsent.symm) hmore
      · exact hevents
    have hpollout := congrArg PollFlags.pollout hpolled
    rw [hevents] at hpollout
    simpa [POLLOUT, noFlags] using hpollout

/-- A worker that stands for a slot waits, reads or writes. -/
theorem Mirrors.pc_cases (h : Mirrors s.server pool) (w : Fin maxClients) :
    (pool.workers w).pc = .waiting ∨ (∃ fd, (pool.workers w).pc = .reading fd) ∨
      ∃ fd n done, (pool.workers w).pc = .writing fd n done := by
  rw [h.workers w]
  rcases workerOf_cases (s.server.conns (w + 1)) with ⟨hpc, _⟩ | ⟨hpc, _⟩ | ⟨hpc, _⟩
  · exact .inl hpc
  · exact .inr (.inl ⟨_, hpc⟩)
  · exact .inr (.inr ⟨_, _, _, hpc⟩)

end Worker

/-- Without a call the pool only wakes a worker for nothing. -/
theorem Mirrors.quiet (h : Mirrors s.server pool) {e : ThreadpoolServer.Event maxClients}
    {pool' : ThreadpoolServer.State maxClients} (hquiet : e.Quiet)
    (hstep : ThreadpoolServer.step pool e = some pool') : ∃ w, e = .spurious w := by
  cases e with
  | accept res => cases hquiet
  | malloc node => simp [ThreadpoolServer.step, h.acceptor] at hstep
  | push wake => simp [ThreadpoolServer.step, h.acceptor] at hstep
  | pop w =>
      rcases h.pc_cases w with hpc | ⟨fd, hpc⟩ | ⟨fd, n, done, hpc⟩
      all_goals simp [ThreadpoolServer.step, hpc] at hstep
  | spurious w => exact ⟨w, rfl⟩
  | take w =>
      rcases h.pc_cases w with hpc | ⟨fd, hpc⟩ | ⟨fd, n, done, hpc⟩
      all_goals simp [ThreadpoolServer.step, hpc] at hstep
  | read w res => cases hquiet
  | write w res => cases hquiet

/-- The first call of a worker's `read`. -/
theorem readStep_trace (server : ThreadpoolServer.State maxClients) (w : Fin maxClients)
    (fd : Int) (res : Except Errno (List UInt8)) :
    ∃ closing, (ThreadpoolServer.readStep server w fd res).trace =
      closing ++ [.read fd 4096 res] ++ server.trace := by
  rcases res with e | bytes
  · rw [ThreadpoolServer.readStep]
    split
    · exact ⟨[], rfl⟩
    · exact ⟨[.close fd], rfl⟩
  · cases bytes with
    | nil => exact ⟨[.close fd], rfl⟩
    | cons b bs => exact ⟨[], rfl⟩

section Waiting

variable (hknown : Known setup maxClients s pool)
  (hstuck : ∀ e t, serverStep setup maxClients s e ≠ some t)
include hknown hstuck

/-- While the server waits, nobody can be accepted. -/
theorem not_accepts {fd : Int} {network : Network (Conn threads) toServer toClient} :
    s.network.answer s.clientSide.isOpen (.accept fd) ≠ some network := by
  intro haccept
  have hbacklog := backlog_of_polled hknown.ready (nothing_polled hknown hstuck (Nat.zero_le _))
  simp only [Network.answer, hbacklog] at haccept
  cases haccept

/-- A worker that reads gets nothing. -/
theorem not_reads {w : Fin maxClients} {fd : Int} (hpc : (pool.workers w).pc = .reading fd)
    {res : Except Errno (List UInt8)} {network : Network (Conn threads) toServer toClient} :
    s.network.answer s.clientSide.isOpen (.read fd bufferSize res) ≠ some network := by
  intro hread
  rcases res with e | bytes
  · cases hread
  · obtain ⟨k, hpeer, _⟩ := Option.bind_eq_some_iff.mp
      (show (s.network.peer fd).bind (fun k => s.network.answerRead _ k bytes) = some network
        from hread)
    obtain ⟨hempty, hopen⟩ :=
      nothing_to_read hknown (nothing_polled hknown hstuck w.isLt) hpc hpeer
    cases bytes with
    | nil =>
        have hgone : s.clientSide.isOpen k = false := (answerNow_read_nil hpeer hread).1
        rw [hopen] at hgone
        cases hgone
    | cons b bs =>
        obtain ⟨inbound, hpop, _⟩ := answerNow_read_cons hpeer
          (show s.network.answerNow s.clientSide.isOpen _ = _ from hread)
        have hlength := Channel.length_pop hpop
        rw [List.length_cons] at hlength
        omega

/-- And one that writes gets rid of nothing. -/
theorem not_writes {w : Fin maxClients} {fd : Int} {n done : Nat}
    (hpc : (pool.workers w).pc = .writing fd n done) {chunk : List UInt8}
    {res : Except Errno Nat} {network : Network (Conn threads) toServer toClient} :
    s.network.answer s.clientSide.isOpen (.write fd chunk res) ≠ some network := by
  intro hwrite
  rcases res with e | m
  · cases hwrite
  · obtain ⟨k, hpeer, _⟩ := Option.bind_eq_some_iff.mp
      (show (s.network.peer fd).bind (fun k => s.network.answerWrite k chunk m) = some network
        from hwrite)
    have hfull := no_room hknown (nothing_polled hknown hstuck w.isLt) hpc hpeer
    obtain ⟨hm, hle, outbound, hpush, _⟩ := answerNow_write s.clientSide.isOpen hpeer hwrite
    have hlength := Channel.length_push hpush
    rw [List.length_take_of_le hle] at hlength
    have hbound : outbound.length ≤ toClient := outbound.bounded
    omega

/-- So the pool beside it could only wake a worker for nothing. -/
theorem pool_waits {e : ThreadpoolServer.Event maxClients}
    {u : ThreadpoolLoad.State maxClients threads toServer toClient}
    (hstep : ThreadpoolLoad.serverStep setup (s.beside pool) e = some u) :
    ∃ w, e = .spurious w := by
  obtain ⟨hfaultless, server, network, hnext, _, hanswers, rfl⟩ :=
    ThreadpoolLoad.serverStep_some hstep
  by_cases hquiet : e.Quiet
  · exact hknown.mirrors.quiet hquiet hnext
  exfalso
  rcases ThreadpoolServer.Event.not_quiet hquiet with
    ⟨res, rfl⟩ | rfl | ⟨w, res, rfl⟩ | ⟨w, res, rfl⟩
  · rcases res with e | fd
    · cases hfaultless
    · have hserver : ThreadpoolServer.acceptStep pool (.ok fd) = server := by
        simpa [ThreadpoolServer.step, State.beside, hknown.mirrors.acceptor] using hnext
      subst hserver
      exact not_accepts hknown hstuck (ThreadpoolLoad.answers_calls [.accept fd] rfl hanswers)
  · cases hfaultless
  · rcases hknown.mirrors.pc_cases w with hpc | ⟨fd, hpc⟩ | ⟨fd, n, done, hpc⟩
    · simp [ThreadpoolServer.step, State.beside, hpc] at hnext
    · have hserver : ThreadpoolServer.readStep pool w fd res = server := by
        simpa [ThreadpoolServer.step, State.beside, hpc] using hnext
      subst hserver
      obtain ⟨closing, htrace⟩ := readStep_trace pool w fd res
      obtain ⟨net, hread⟩ := Network.answers_append
        (ThreadpoolLoad.answers_calls _ htrace hanswers)
      exact not_reads hknown hstuck hpc hread
    · simp [ThreadpoolServer.step, State.beside, hpc] at hnext
  · rcases hknown.mirrors.pc_cases w with hpc | ⟨fd, hpc⟩ | ⟨fd, n, done, hpc⟩
    · simp [ThreadpoolServer.step, State.beside, hpc] at hnext
    · simp [ThreadpoolServer.step, State.beside, hpc] at hnext
    · have hserver : ThreadpoolServer.writeStep pool w fd n done res = server := by
        simpa [ThreadpoolServer.step, State.beside, hpc] using hnext
      subst hserver
      obtain ⟨closing, htrace⟩ := ThreadpoolLoad.writeStep_trace pool w fd n done res
      obtain ⟨net, hwrite⟩ := Network.answers_append
        (ThreadpoolLoad.answers_calls _ htrace hanswers)
      exact not_writes hknown hstuck hpc hwrite

end Waiting

/-! ## Where the runs stop -/

/-- Every client thread has returned with all its requests completed and counted, the
server waits at `poll` with every slot free and every connection closed, and no byte is
left anywhere. -/
structure Completed (setup : Setup threads) (maxClients : Nat)
    (s : State threads toServer toClient) : Prop where
  threads : ∀ i, s.clients i = ⟨setup.connections i, .returned (bytesFor setup.client
    (setup.connections i * setup.client.requestsPerConnection))⟩
  polling : s.server.pc = .poll
  slots : ∀ j, 1 ≤ j → j ≤ maxClients → (s.server.conns j).fd < 0
  closed : clients setup.base s.server.trace = ∅
  backlog : s.network.backlog = []
  empty : ∀ k, (s.network.inbound k).length = 0 ∧ (s.network.outbound k).length = 0

section Stuck

variable {listenFd : Int}

/-- Where nobody can go on, the thread pool has come to its end. -/
theorem ended_of_stuck (hknown : Known setup maxClients s pool)
    (hstuck : ¬ (system setup maxClients listenFd toServer toClient).Enabled s) :
    ThreadpoolLoad.Ended setup (s.beside pool) := by
  have hclient : ∀ e : ClientEvent threads, ∀ u,
      ThreadpoolLoad.step setup (s.beside pool) e.beside ≠ some u := by
    intro e u hu
    obtain ⟨t, ht, _⟩ := exists_clientStep hu
    exact not_enabled hknown hstuck (.client e) t ht
  intro e u hu
  cases e with
  | server e =>
      obtain ⟨w, rfl⟩ := pool_waits hknown (fun e t => not_enabled hknown hstuck (.server e) t) hu
      exact ⟨w, rfl⟩
  | connect i => exact absurd hu (hclient (.connect i) u)
  | write i n => exact absurd hu (hclient (.write i n) u)
  | read i n => exact absurd hu (hclient (.read i n) u)
  | eof i => exact absurd hu (hclient (.eof i) u)
  | next i => exact absurd hu (hclient (.next i) u)

/-- A payload that fits is completed by then. -/
theorem completed_of_stuck (hslots : 1 ≤ maxClients) (hpayload : 0 < setup.client.payloadSize)
    (hserver : 0 < toServer) (hclient : 0 < toClient) (hbacklog : 0 < setup.backlog)
    (hfits : setup.client.payloadSize ≤ toServer + toClient + 1)
    (hknown : Known setup maxClients s pool)
    (hstuck : ¬ (system setup maxClients listenFd toServer toClient).Enabled s) :
    Completed setup maxClients s := by
  have hcompleted := ThreadpoolLoad.completed_of_ended hslots hpayload hserver hclient hbacklog
    hfits hknown.reachable (ended_of_stuck hknown hstuck)
  have hclosed : clients setup.base s.server.trace = ∅ := by
    rw [← hknown.mirrors.trace]
    exact hcompleted.closed
  have hwaits : ∀ e t, serverStep setup maxClients s e ≠ some t := fun e t =>
    not_enabled hknown hstuck (.server e) t
  refine ⟨hcompleted.threads, polling_of_stuck hknown hwaits, fun j hj hjm => ?_, hclosed,
    hcompleted.backlog, hcompleted.empty⟩
  by_contra hlive
  have hmem := hknown.inv.mem_clients hj hjm (Int.not_lt.mp hlive)
  rw [hclosed] at hmem
  exact Finset.notMem_empty _ hmem

end Stuck

/-! ## How long they are -/

theorem grant_answers {e : Event threads} {e' : ThreadpoolLoad.Event maxClients threads}
    (h : Answers e e') : e'.grant = 0 := by
  cases h with
  | client e => cases e <;> rfl
  | read rd wr w => rfl
  | other e e' hspurious _ =>
      unfold ThreadpoolLoad.Event.grant
      split
      · next w heq =>
          cases heq
          exact absurd rfl (hspurious w)
      · rfl

/-- The runs of the pool that answer those of the server. -/
theorem pool_length_le (hpayload : 0 < setup.client.payloadSize)
    {u v : ThreadpoolLoad.State maxClients threads toServer toClient}
    (hu : (ThreadpoolLoad.system setup maxClients toServer toClient).Reachable u)
    {es : List (ThreadpoolLoad.Event maxClients threads)}
    (hrun : (ThreadpoolLoad.system setup maxClients toServer toClient).Run u es v)
    (hgrants : ∀ e ∈ es, e.grant = 0) : es.length + v.rank setup ≤ u.rank setup := by
  have hlength := hrun.length_le_grants
    (fun s e t hs hstep => ThreadpoolLoad.step_rank hpayload hs hstep) hu
  rwa [System.spent_eq_zero hgrants] at hlength

theorem unvisited_rank (hpayload : 0 < setup.client.payloadSize) :
    ∃ u : ThreadpoolLoad.State maxClients threads toServer toClient,
      u = ThreadpoolLoad.unvisited setup maxClients ∧
      (ThreadpoolLoad.system setup maxClients toServer toClient).Reachable u ∧
      u.rank setup ≤ (∑ i, setup.connections i) *
        ThreadpoolLoad.connectionSteps setup maxClients + maxClients := by
  obtain ⟨es, hrun, hpops⟩ := ThreadpoolLoad.asleep_run toServer toClient setup
    (le_refl maxClients)
  have hlength := pool_length_le hpayload (.start rfl) hrun fun e he => by
    obtain ⟨w, rfl⟩ := hpops e he
    rfl
  have hinitial : (ThreadpoolLoad.initial setup :
      ThreadpoolLoad.State maxClients threads toServer toClient).rank setup ≤ _ :=
    ThreadpoolLoad.initial_rank setup
  exact ⟨_, rfl, hrun.reachable (.start rfl), by omega⟩

section Length

variable {listenFd : Int}

theorem run_length_le (hpayload : 0 < setup.client.payloadSize)
    {u : ThreadpoolLoad.State maxClients threads toServer toClient}
    (hs : (accepting setup maxClients listenFd toServer toClient).Reachable s)
    (hu : (ThreadpoolLoad.system setup maxClients toServer toClient).Reachable u)
    (hbeside : Beside maxClients s u) {es : List (Event threads)}
    (hrun : (accepting setup maxClients listenFd toServer toClient).Run s es t) :
    es.length + t.pos maxClients ≤
      s.pos maxClients + (2 * maxClients + 4) * u.rank setup := by
  refine (paced hpayload listenFd).length_le hs hu hbeside (fun es' v hrun' hanswers => ?_) hrun
  refine Nat.le_trans (Nat.le_add_right _ _) (pool_length_le hpayload hu hrun' fun e' he' => ?_)
  obtain ⟨e, he⟩ := hanswers e' he'
  exact grant_answers he

/-- From the start, a run is no longer than what the connections cost. -/
theorem initial_length_le (hpayload : 0 < setup.client.payloadSize) {es : List (Event threads)}
    (hrun : (accepting setup maxClients listenFd toServer toClient).Run
      (initial setup listenFd) es t) :
    es.length ≤ (2 * maxClients + 4) * ((∑ i, setup.connections i) *
      ThreadpoolLoad.connectionSteps setup maxClients + maxClients + 1) := by
  obtain ⟨u, rfl, hu, hrank⟩ := unvisited_rank hpayload
  have hlength := run_length_le hpayload (.start rfl) hu (initial_beside setup listenFd) hrun
  have hpos := pos_le maxClients (initial setup listenFd : State threads toServer toClient)
  have hmul := Nat.mul_le_mul_left (2 * maxClients + 4) hrank
  rw [Nat.mul_succ]
  omega

end Length

end Model

end SysLab.PartB.PollLoad
