import SysLab.Foundation.EchoService
import SysLab.PartB.EpollServerEcho
import SysLab.PartB.EpollServerTable
import SysLab.PartB.PollServerEcho
import SysLab.PartB.PollServerIsolation
import SysLab.PartB.ThreadpoolEcho

/-!
# The servers as echo services

`poll_server.c` and `epoll_server.c` refine the echo service of
`Foundation.EchoService`: their calls are a run of it, and its state is in their
connection tables, a live slot standing for a connection that is owed
`buffer[sent .. used)`.  Of the descriptors that were open before the loop, the
listener among them, they read, write and close none.  `servers_echo` says so of
them and of the thread-pool server.
-/

namespace SysLab.PartB

open SysLab.Foundation
open Transcript

/-! ## The `poll` server -/

namespace PollServer

variable {maxClients : Nat} {base : Finset Int} {listenFd : Int} {s t : State}

/-- A slot holds `fd`, with `pending` still to be written. -/
def State.Owes (maxClients : Nat) (s : State) (fd : Int) (pending : List UInt8) : Prop :=
  ∃ i, 1 ≤ i ∧ i ≤ maxClients ∧ 0 ≤ fd ∧ (s.conns i).fd = fd ∧ (s.conns i).pending = pending

/-- One step of the accept loop. -/
theorem acceptStep_own (h : Inv maxClients base s) (hown : ∀ c ∈ s.trace, c.key ∉ base)
    {res : Except Errno Int} (hk : KernelOk base (acceptStep maxClients base s res).trace) :
    ∀ c ∈ (acceptStep maxClients base s res).trace, c.key ∉ base := by
  rcases res with e | fd
  · have htrace : (acceptStep maxClients base s (.error e)).trace = s.trace := by
      unfold acceptStep
      dsimp only
      split
      · rfl
      · split
        · rfl
        · rfl
    rw [htrace]
    exact hown
  · have hset : setNonblocking (openKeys base (.accept fd :: s.trace)) fd = none :=
      setNonblocking_of_mem (Finset.mem_insert_self fd _)
    unfold acceptStep at hk ⊢
    simp only [hset] at hk ⊢
    split at hk
    · exact EchoService.own_accept h.lawful hown hk.1.2
    · have hnew : fd ∉ openKeys base s.trace := hk.2.1.2
      exact List.forall_mem_cons.mpr
        ⟨fun hbase => hnew (h.lawful.base_subset hbase),
          EchoService.own_accept h.lawful hown hnew⟩

/-- The server makes no call on a descriptor it has not accepted. -/
theorem reachable_own (hs : (system maxClients base listenFd).Reachable s) :
    ∀ c ∈ s.trace, c.key ∉ base := by
  refine hs.induct (I := fun s => ∀ c ∈ s.trace, c.key ∉ base) ?_ ?_
  · rintro s rfl c hc
    exact absurd hc List.not_mem_nil
  · rintro s e t hs hown ⟨hstep, hk⟩
    have hinv := reachable_inv hs
    cases e with
    | poll res =>
        obtain ⟨_, rfl⟩ := step_poll hstep
        have htrace : (pollStep maxClients s res).trace = s.trace := by
          unfold pollStep
          split
          · split
            · rfl
            · rfl
          · rfl
        rw [htrace]
        exact hown
    | accept res =>
        obtain ⟨_, rfl⟩ := step_accept hstep
        exact acceptStep_own hinv hown hk
    | slot rd wr =>
        obtain ⟨i, hpc, rfl⟩ := step_slot hstep
        obtain ⟨hi, him⟩ := hinv.scanning i hpc
        obtain ⟨past, htrace, hkeys⟩ := scanStep_calls hinv hi him rd wr hk
        rw [htrace]
        intro c hc
        rcases List.mem_append.mp hc with hnew | hold
        · obtain ⟨hlive, hkey⟩ := hkeys c hnew
          rw [hkey]
          exact (Transcript.mem_clients.mp (hinv.mem_clients hi him hlive)).2
        · exact hown c hold

/-- The `poll` server is an echo service, and its table is the service's state. -/
theorem echo_service (hs : (system maxClients base listenFd).Reachable s) :
    EchoService.Refines base s.trace (s.Owes maxClients) := by
  have hinv := reachable_inv hs
  have horderly : EchoService.Orderly base s.trace :=
    ⟨hinv.lawful, hinv.halfDuplex, reachable_own hs⟩
  refine horderly.refines ?_ ?_
  · rintro fd pending ⟨i, hi, him, hlive, rfl, rfl⟩
    exact ⟨hinv.mem_clients hi him hlive, (hinv.slots i hi him).conserved hlive⟩
  · intro fd hfd
    obtain ⟨i, ⟨hi, him⟩, hlive, rfl⟩ := hinv.table.exists_slot (Finset.mem_coe.mpr hfd)
    exact ⟨_, i, hi, him, hlive, rfl, rfl⟩

end PollServer

/-! ## The `epoll` server -/

namespace EpollServer

variable {maxClients : Nat} {base inherited : Finset Int} {listenFd epfd : Int} {s t : State}

/-- A connection object holds `fd`, with `pending` still to be written. -/
def State.Owes (maxClients : Nat) (s : State) (fd : Int) (pending : List UInt8) : Prop :=
  ∃ i, i < maxClients ∧ 0 ≤ fd ∧ (s.conns i).fd = fd ∧ (s.conns i).pending = pending

theorem Moves.own (hm : Moves maxClients base s t) (h : Core maxClients base listenFd s)
    (hown : ∀ c ∈ s.trace, c.key ∉ base) : ∀ c ∈ t.trace, c.key ∉ base := by
  cases hm with
  | quiet pc heq =>
      subst heq
      exact hown
  | refuse fd hnew heq =>
      subst heq
      exact List.forall_mem_cons.mpr
        ⟨fun hbase => hnew (h.lawful.base_subset hbase),
          EchoService.own_accept h.lawful hown hnew⟩
  | enrol fd i hnew _ _ heq =>
      subst heq
      exact EchoService.own_accept h.lawful hown hnew
  | serve i ev rest y _ hi hfd hpos _ hserved heq =>
      have hlive : 0 ≤ (s.conns i).fd := by omega
      have hclient := h.mem_clients hi hlive
      subst heq
      show ∀ c ∈ y.trace, c.key ∉ base
      cases hserved with
      | kept _ _ _ hsess => exact EchoService.own_session hown hclient hsess
      | @closed past _ _ _ _ hsess htrace =>
          have hpast := EchoService.own_session hown hclient hsess
          rw [htrace]
          exact List.forall_mem_cons.mpr ⟨(Transcript.mem_clients.mp hclient).2, hpast⟩

/-- The server makes no call on a descriptor it has not accepted. -/
theorem reachable_own (hs : (system maxClients inherited listenFd epfd).Reachable s) :
    ∀ c ∈ s.trace, c.key ∉ startFds inherited listenFd epfd := by
  refine hs.induct (I := fun s => ∀ c ∈ s.trace, c.key ∉ startFds inherited listenFd epfd)
    ?_ ?_
  · rintro s rfl c hc
    exact absurd hc List.not_mem_nil
  · rintro s e t hs hown ⟨hstep, hk, _⟩
    have hinv := reachable_inv hs
    exact (step_moves hinv hstep hk).own hinv.core hown

/-- The `epoll` server is an echo service, and its table is the service's state. -/
theorem echo_service (hs : (system maxClients inherited listenFd epfd).Reachable s) :
    EchoService.Refines (startFds inherited listenFd epfd) s.trace (s.Owes maxClients) := by
  have hcore := (reachable_inv hs).core
  have horderly : EchoService.Orderly (startFds inherited listenFd epfd) s.trace :=
    ⟨hcore.lawful, hcore.halfDuplex, reachable_own hs⟩
  refine horderly.refines ?_ ?_
  · rintro fd pending ⟨i, hi, hlive, rfl, rfl⟩
    exact ⟨hcore.mem_clients hi hlive, (hcore.slots i hi).conserved hlive⟩
  · intro fd hfd
    obtain ⟨i, hi, hlive, rfl⟩ := hcore.table.exists_slot (Finset.mem_coe.mpr hfd)
    exact ⟨_, i, hi, hlive, rfl, rfl⟩

end EpollServer

/-! ## Three designs, one service -/

/-- In every reachable state of each of the three servers, whatever the kernel answers
and however the threads of the last one are scheduled, the calls made so far are a run
of the echo service on the descriptors accepted, and the service's state is the one the
server keeps. -/
theorem servers_echo :
    (∀ maxClients base listenFd s,
      (PollServer.system maxClients base listenFd).Reachable s →
      EchoService.Refines base s.trace (s.Owes maxClients)) ∧
    (∀ maxClients inherited listenFd epfd s,
      (EpollServer.system maxClients inherited listenFd epfd).Reachable s →
      EchoService.Refines (EpollServer.startFds inherited listenFd epfd) s.trace
        (s.Owes maxClients)) ∧
    (∀ threadCount base (s : ThreadpoolServer.State threadCount),
      (ThreadpoolServer.system threadCount base).Reachable s →
      EchoService.Refines base s.trace s.Owes) :=
  ⟨fun _ _ _ _ hs => PollServer.echo_service hs,
    fun _ _ _ _ _ hs => EpollServer.echo_service hs,
    fun _ _ _ hs => ThreadpoolServer.echo_service hs⟩

/-- One client sends two bytes and takes one of them back from a worker. -/
theorem ThreadpoolServer.partial_echo_reachable :
    ∃ s, (ThreadpoolServer.system 1 {0, 1, 2, 3}).Reachable s ∧
      s.trace = [.write 4 [65, 66] (.ok 1), .read 4 4096 (.ok [65, 66]), .accept 4] ∧
      s.Owes 4 [66] := by
  have h₀ : (ThreadpoolServer.system 1 {0, 1, 2, 3}).Reachable (ThreadpoolServer.initial 1) :=
    .start rfl
  have h₁ := h₀.step (e := .accept (.ok 4)) ⟨rfl, by decide⟩
  have h₂ := h₁.step (e := .malloc (some 7)) ⟨rfl, by decide⟩
  have h₃ := h₂.step (e := .push ∅) ⟨rfl, by decide⟩
  have h₄ := h₃.step (e := .pop 0) ⟨rfl, by decide⟩
  have h₅ := h₄.step (e := .take 0) ⟨rfl, by decide⟩
  have h₆ := h₅.step (e := .read 0 (.ok [65, 66])) ⟨rfl, by decide⟩
  have h₇ := h₆.step (e := .write 0 (.ok 1)) ⟨rfl, by decide⟩
  exact ⟨_, h₇, rfl, [], .worker 0, rfl, List.mem_singleton_self 4, by decide⟩

/-- Each of them has read two bytes of its client's and written one: it owes the other. -/
theorem servers_echo_partial :
    (∃ service : EchoService Int UInt8,
      (EchoService.system Int Errno UInt8 {0, 1, 2, 3}).Run EchoService.idle
        [.accept 4, .read 4 4096 (.ok [65, 66]), .write 4 [65, 66] (.ok 1)] service ∧
      service 4 = some [66]) ∧
    (∃ service : EchoService Int UInt8,
      (EchoService.system Int Errno UInt8 (EpollServer.startFds {0, 1, 2} 3 4)).Run
        EchoService.idle
        [.accept 5, .read 5 4096 (.ok [65, 66]), .write 5 [65, 66] (.ok 1)] service ∧
      service 5 = some [66]) ∧
    (∃ service : EchoService Int UInt8,
      (EchoService.system Int Errno UInt8 {0, 1, 2, 3}).Run EchoService.idle
        [.accept 4, .read 4 4096 (.ok [65, 66]), .write 4 [65, 66] (.ok 1)] service ∧
      service 4 = some [66]) := by
  obtain ⟨s, hs, htrace, hfd, hpending⟩ := PollServer.partial_echo_reachable
  obtain ⟨t, ht, htrace', hfd', hpending'⟩ := EpollServer.partial_echo_reachable
  obtain ⟨u, hu, htrace'', howes⟩ := ThreadpoolServer.partial_echo_reachable
  obtain ⟨service, hrun, hholds⟩ := servers_echo.1 1 {0, 1, 2, 3} 3 s hs
  obtain ⟨service', hrun', hholds'⟩ := servers_echo.2.1 1 {0, 1, 2} 3 4 t ht
  obtain ⟨service'', hrun'', hholds''⟩ := servers_echo.2.2 1 {0, 1, 2, 3} u hu
  rw [htrace] at hrun
  rw [htrace'] at hrun'
  rw [htrace''] at hrun''
  exact ⟨⟨service, hrun, (hholds 4 [66]).mpr
      ⟨1, Nat.le_refl 1, Nat.le_refl 1, by decide, hfd, hpending⟩⟩,
    ⟨service', hrun', (hholds' 5 [66]).mpr
      ⟨0, Nat.one_pos, by decide, hfd', hpending'⟩⟩,
    ⟨service'', hrun'', (hholds'' 4 [66]).mpr howes⟩⟩

end SysLab.PartB
