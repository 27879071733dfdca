import SysLab.PartB.ThreadpoolServed

/-!
# What holds of the load client and the thread-pool server

`Sound` is preserved by every step: each connection is a balanced relay, the
server's clients are the connections accepted and not closed, whoever has connected
is in the backlog or accepted, and the server closes a connection only after the
client has.
-/

namespace SysLab.PartB.ThreadpoolLoad

open SysLab.Foundation
open SysLab.PartB.LoadClient (Config Thread ThreadPc Worker sendBuf)
open Transcript (clients mem_clients)

section Model

variable {threadCount threads toServer toClient : Nat} {setup : Setup threads}
  {s t : State threadCount threads toServer toClient}

/-- The client thread has made the connection. -/
def State.Made (s : State threadCount threads toServer toClient) (k : Conn threads) : Prop :=
  k.2 < (s.clients k.1).connIndex ∨
    k.2 = (s.clients k.1).connIndex ∧ ∃ w, (s.clients k.1).pc = .connected w

/-- The client thread has closed the connection. -/
def State.Closed (s : State threadCount threads toServer toClient) (k : Conn threads) :
    Prop :=
  k.2 < (s.clients k.1).connIndex ∨
    k.2 = (s.clients k.1).connIndex ∧ ∃ w, (s.clients k.1).pc = .connected w ∧ w.pc = .closed

structure Sound (setup : Setup threads)
    (s : State threadCount threads toServer toClient) : Prop where
  server : (ThreadpoolServer.system threadCount setup.base).Reachable s.server
  balanced : ∀ k, Relay.Balanced (LockStep.relay setup.client toServer toClient) (s.view k)
  peers : ∀ fd, fd ∈ clients setup.base s.server.trace ↔
    ∃ k, s.network.peer fd = some k
  placed : ∀ i w, (s.clients i).pc = .connected w → w.pc ≠ .closed →
    s.conn i ∈ s.network.backlog ∨ ∃ fd, s.network.peer fd = some (s.conn i)
  waiting : ∀ k ∈ s.network.backlog, s.Made k
  accepted : ∀ fd k, s.network.peer fd = some k → s.Made k
  dropped : ∀ k, s.network.dropped k = true → s.Closed k
  alive : ∀ i w message, (s.clients i).pc = .connected w → w.pc ≠ .died message
  returned : ∀ i bytes, (s.clients i).pc = .returned bytes →
    setup.connections i ≤ (s.clients i).connIndex

theorem worker_conn {i : Fin threads} {w : Worker} (h : (s.clients i).pc = .connected w) :
    s.worker (s.conn i) = some w := by
  rw [State.worker, State.conn, h]
  exact if_pos rfl

theorem worker_of_some {k : Conn threads} {w : Worker} (h : s.worker k = some w) :
    (s.clients k.1).pc = .connected w ∧ k = s.conn k.1 := by
  unfold State.worker at h
  split at h
  · next w' hpc =>
      split at h
      · next hindex =>
          cases h
          exact ⟨hpc, Prod.ext rfl hindex.symm⟩
      · cases h
  · cases h

/-- A connection that was made and is not open has been closed. -/
theorem State.Made.closed {k : Conn threads} (h : s.Made k) (hopen : s.isOpen k = false) :
    s.Closed k := by
  rcases h with hlt | ⟨hindex, w, hpc⟩
  · exact .inl hlt
  · have hworker : s.worker k = some w := by
      rw [State.worker, hpc]
      exact if_pos hindex.symm
    rw [State.isOpen, hworker] at hopen
    exact .inr ⟨hindex, w, hpc, by simpa using hopen⟩

/-! ## A step of the server -/

/-- What the workers take from the connections and pass back (`n` and `m`), and what
else has changed: a client is accepted, or one is closed, or bytes have moved. -/
theorem Served.passes (h : Sound setup s) {server : ThreadpoolServer.State threadCount}
    {network : Network (Conn threads) toServer toClient}
    (hserved : Served setup s server network)
    (hkernel : KernelOk setup.base server.trace) :
    ∃ n m : Conn threads → Nat,
      (∀ k, Relay.Passes (s.view k)
        (State.view { s with server := server, network := network } k) (n k) (m k)) ∧
      ((∃ fd k, server.trace = .accept fd :: s.server.trace ∧
          s.network.backlog = k :: network.backlog) ∨
        network.backlog = s.network.backlog ∧
          (server.trace = s.server.trace ∨
            (∃ fd ∈ clients setup.base s.server.trace,
              clients setup.base server.trace =
                (clients setup.base s.server.trace).erase fd) ∨
            clients setup.base server.trace = clients setup.base s.server.trace ∧
              ∃ k, 0 < n k + m k)) := by
  cases hserved with
  | quiet htrace htransfers hnetwork =>
      subst hnetwork
      refine ⟨fun _ => 0, fun _ => 0, fun k => ⟨rfl, rfl, rfl, ?_, rfl⟩,
        .inr ⟨rfl, .inl htrace⟩⟩
      simp only [State.view, htransfers]
  | accept fd k' rest htrace htransfers hbacklog hnetwork =>
      have hnew : fd ∉ Transcript.openKeys setup.base s.server.trace := by
        rw [htrace] at hkernel
        exact hkernel.1.2
      have hpeer : ∀ w fd' n done, transfers s.server w = some (fd', n, done) →
          Function.update s.network.peer fd (some k') fd' = s.network.peer fd' := by
        intro w fd' n done hw
        have hserving := ThreadpoolServer.reachable_serving h.server (serving_of_transfer hw)
        refine Function.update_of_ne ?_ _ _
        rintro rfl
        exact hnew (mem_clients.mp hserving.1).1
      subst hnetwork
      refine ⟨fun _ => 0, fun _ => 0, fun k => ⟨rfl, rfl, rfl, ?_, rfl⟩,
        .inl ⟨fd, k', htrace, hbacklog⟩⟩
      simp only [State.view, htransfers, held_congr hpeer]
  | read w fd k' bytes inbound hpc hpeer hbytes htrace htransfers hpop hnetwork =>
      have hlength := Channel.length_pop hpop
      have hnone : transfers s.server w = none := by
        rw [transfers, hpc]
        rfl
      subst hnetwork
      refine ⟨fun k => if k = k' then bytes.length else 0, fun _ => 0,
        fun k => ⟨rfl, rfl, ?_, ?_, rfl⟩, .inr ⟨rfl, .inr (.inr ⟨htrace, k', ?_⟩)⟩⟩
      · by_cases hk : k = k'
        · subst hk
          simp only [State.view, Function.update_self, hlength, if_pos]
          omega
        · simp only [State.view, Function.update_of_ne hk, if_neg hk, Nat.add_zero]
      · have hheld := held_update s.network.peer k (transfers s.server) w
          (some (fd, bytes.length, 0))
        rw [hnone] at hheld
        simp only [heldFor, hpeer, Nat.sub_zero, Nat.add_zero, Option.some.injEq] at hheld
        simp only [State.view, htransfers, hheld, Nat.add_zero, eq_comm (a := k)]
      · simpa using hbytes
  | eof w fd k' hpc hpeer hopen htrace htransfers hnetwork =>
      have hkept : ∀ v fd' n done, transfers s.server v = some (fd', n, done) →
          Function.update s.network.peer fd none fd' = s.network.peer fd' := by
        intro v fd' n done hv
        have hserving : fd ∈ s.server.queue.serving (s.server.workers w).pc := by
          rw [hpc]
          exact List.mem_singleton_self fd
        refine Function.update_of_ne ?_ _ _
        rintro rfl
        have hvw := (ThreadpoolServer.reachable_serving h.server hserving).2 v
          (serving_of_transfer hv)
        subst hvw
        rw [transfers, hpc] at hv
        cases hv
      subst hnetwork
      refine ⟨fun _ => 0, fun _ => 0, fun k => ⟨rfl, rfl, rfl, ?_, rfl⟩,
        .inr ⟨rfl, .inr (.inl ⟨fd, (h.peers fd).mpr ⟨k', hpeer⟩, htrace⟩)⟩⟩
      simp only [State.view, htransfers, held_congr hkept]
  | write w fd k' n done m chunk outbound hpc hpeer hm hdone hchunk htrace htransfers hpush
      hnetwork =>
      have hlength := Channel.length_push hpush
      have hwriting : transfers s.server w = some (fd, n, done) := by
        rw [transfers, hpc]
        rfl
      subst hnetwork
      refine ⟨fun _ => 0, fun k => if k = k' then m else 0,
        fun k => ⟨rfl, rfl, rfl, ?_, ?_⟩, .inr ⟨rfl, .inr (.inr ⟨htrace, k', ?_⟩)⟩⟩
      · have hheld := held_update s.network.peer k (transfers s.server) w
          (if done + m < n then some (fd, n, done + m) else none)
        have hafter : heldFor s.network.peer k
            (if done + m < n then some (fd, n, done + m) else none) =
            if k = k' then n - (done + m) else 0 := by
          by_cases hmore : done + m < n
          · simp only [if_pos hmore, heldFor, hpeer, Option.some.injEq, eq_comm (a := k')]
          · have hall : n - (done + m) = 0 := by omega
            rw [if_neg hmore, hall, ite_self]
            rfl
        rw [hwriting, hafter] at hheld
        simp only [heldFor, hpeer, Option.some.injEq, eq_comm (a := k')] at hheld
        simp only [State.view, htransfers, Nat.add_zero]
        by_cases hk : k = k'
        · rw [if_pos hk, if_pos hk] at hheld
          rw [if_pos hk]
          omega
        · rw [if_neg hk, if_neg hk] at hheld
          rw [if_neg hk]
          omega
      · by_cases hk : k = k'
        · subst hk
          simp only [State.view, Function.update_self, hlength, hchunk, if_pos]
        · simp only [State.view, Function.update_of_ne hk, if_neg hk, Nat.add_zero]
      · simpa using hm

/-- The server is served: the connections stay balanced. -/
theorem Served.balanced (h : Sound setup s)
    {server : ThreadpoolServer.State threadCount}
    {network : Network (Conn threads) toServer toClient}
    (hserved : Served setup s server network)
    (hkernel : KernelOk setup.base server.trace) (k : Conn threads) :
    Relay.Balanced (LockStep.relay setup.client toServer toClient)
      (State.view { s with server := server, network := network } k) := by
  obtain ⟨n, m, hpasses, _⟩ := hserved.passes h hkernel
  exact (h.balanced k).passes (hpasses k) (network.inbound k).bounded
    (network.outbound k).bounded

/-- A connection that has been closed is not open. -/
theorem State.Closed.not_open {i : Fin threads} {w : Worker} (h : s.Closed (s.conn i))
    (hpc : (s.clients i).pc = .connected w) : w.pc = .closed := by
  rcases h with hlt | ⟨_, w', hpc', hclosed⟩
  · exact absurd hlt (lt_irrefl _)
  · change (s.clients i).pc = .connected w' at hpc'
    rw [hpc] at hpc'
    cases hpc'
    exact hclosed

/-- The descriptors with a peer are the clients. -/
theorem Served.peers (h : Sound setup s) {server : ThreadpoolServer.State threadCount}
    {network : Network (Conn threads) toServer toClient}
    (hserved : Served setup s server network)
    (hkernel : KernelOk setup.base server.trace) (fd : Int) :
    fd ∈ clients setup.base server.trace ↔ ∃ k, network.peer fd = some k := by
  cases hserved with
  | quiet htrace _ hnetwork =>
      rw [htrace, hnetwork]
      exact h.peers fd
  | accept fd' k' rest htrace _ _ hnetwork =>
      have hbase : fd' ∉ setup.base := by
        rw [htrace] at hkernel
        exact fun hmem => hkernel.1.2
          (Transcript.Lawful.base_subset (ThreadpoolServer.reachable_lawful h.server) hmem)
      rw [htrace, hnetwork, Transcript.clients_accept hbase, Finset.mem_insert, h.peers]
      dsimp only
      by_cases hfd : fd = fd'
      · subst hfd
        simp
      · simp [hfd]
  | read w fd' k' bytes inbound _ _ _ htrace _ _ hnetwork =>
      rw [htrace, hnetwork]
      exact h.peers fd
  | eof w fd' k' _ _ _ htrace _ hnetwork =>
      rw [htrace, hnetwork, Finset.mem_erase, h.peers]
      dsimp only
      by_cases hfd : fd = fd'
      · subst hfd
        simp
      · simp [hfd]
  | write w fd' k' n done m chunk outbound _ _ _ _ _ htrace _ _ hnetwork =>
      rw [htrace, hnetwork]
      exact h.peers fd

theorem Sound.served (h : Sound setup s) {e : ThreadpoolServer.Event threadCount}
    {server : ThreadpoolServer.State threadCount}
    {network : Network (Conn threads) toServer toClient}
    (hnext : (ThreadpoolServer.system threadCount setup.base).next s.server e server)
    (hserved : Served setup s server network) :
    Sound setup { s with server := server, network := network } := by
  have hserver := h.server.step hnext
  have hbalanced := hserved.balanced h hnext.2
  have hpeers := hserved.peers h hnext.2
  cases hserved with
  | quiet _ _ hnetwork =>
      subst hnetwork
      exact { h with server := hserver, balanced := hbalanced, peers := hpeers }
  | accept fd k rest htrace _ hbacklog hnetwork =>
      have hfree : s.network.peer fd = none := by
        rw [Option.eq_none_iff_forall_ne_some]
        intro k' hk'
        have hkernel := hnext.2
        rw [htrace] at hkernel
        exact hkernel.1.2 (mem_clients.mp ((h.peers fd).mpr ⟨k', hk'⟩)).1
      have hkept : ∀ fd' k', s.network.peer fd' = some k' →
          Function.update s.network.peer fd (some k) fd' = some k' := by
        intro fd' k' hk'
        have hne : fd' ≠ fd := by
          rintro rfl
          rw [hfree] at hk'
          cases hk'
        rw [Function.update_of_ne hne]
        exact hk'
      subst hnetwork
      exact
        { h with
          server := hserver
          balanced := hbalanced
          peers := hpeers
          placed := fun i w hpc hopen => by
            rcases h.placed i w hpc hopen with hmem | ⟨fd', hfd'⟩
            · rw [hbacklog] at hmem
              rcases List.mem_cons.mp hmem with heq | hmem
              · refine .inr ⟨fd, ?_⟩
                show Function.update s.network.peer fd (some k) fd = some (s.conn i)
                rw [Function.update_self, heq]
              · exact .inl hmem
            · exact .inr ⟨fd', hkept fd' _ hfd'⟩
          waiting := fun k' hk' => h.waiting k' (by
            rw [hbacklog]
            exact List.mem_cons_of_mem k hk')
          accepted := fun fd' k' hk' => by
            change Function.update s.network.peer fd (some k) fd' = some k' at hk'
            by_cases hfd : fd' = fd
            · subst hfd
              rw [Function.update_self] at hk'
              cases hk'
              exact h.waiting k (by
                rw [hbacklog]
                exact List.mem_cons_self)
            · rw [Function.update_of_ne hfd] at hk'
              exact h.accepted fd' k' hk' }
  | read w fd k bytes inbound _ _ _ _ _ _ hnetwork =>
      subst hnetwork
      exact { h with server := hserver, balanced := hbalanced, peers := hpeers }
  | eof w fd k _ hpeer hgone _ _ hnetwork =>
      have hclosed : s.Closed k := (h.accepted fd k hpeer).closed hgone
      subst hnetwork
      exact
        { h with
          server := hserver
          balanced := hbalanced
          peers := hpeers
          placed := fun i w hpc hopen => by
            rcases h.placed i w hpc hopen with hmem | ⟨fd', hfd'⟩
            · exact .inl hmem
            · have hne : fd' ≠ fd := by
                rintro rfl
                rw [hpeer] at hfd'
                cases hfd'
                exact hopen (hclosed.not_open hpc)
              exact .inr ⟨fd', (Function.update_of_ne hne _ _).trans hfd'⟩
          accepted := fun fd' k' hk' => by
            change Function.update s.network.peer fd none fd' = some k' at hk'
            by_cases hfd : fd' = fd
            · subst hfd
              rw [Function.update_self] at hk'
              cases hk'
            · rw [Function.update_of_ne hfd] at hk'
              exact h.accepted fd' k' hk'
          dropped := fun k' hk' => by
            change Function.update s.network.dropped k true k' = true at hk'
            by_cases hkk : k' = k
            · subst hkk
              exact hclosed
            · rw [Function.update_of_ne hkk] at hk'
              exact h.dropped k' hk' }
  | write w fd k n done m chunk outbound _ _ _ _ _ _ _ _ hnetwork =>
      subst hnetwork
      exact { h with server := hserver, balanced := hbalanced, peers := hpeers }

/-! ## A step of a client thread -/

section Client

variable {i : Fin threads} {w : Worker} {k : Conn threads}

theorem clients_setPc_self (pc : ThreadPc) :
    (s.setPc i pc).clients i = { s.clients i with pc := pc } :=
  Function.update_self _ _ _

theorem clients_setPc_of_ne (pc : ThreadPc) {j : Fin threads} (hj : j ≠ i) :
    (s.setPc i pc).clients j = s.clients j :=
  Function.update_of_ne hj _ _

theorem worker_setPc_self : (s.setPc i (.connected w)).worker (s.conn i) = some w := by
  rw [State.worker, State.conn, clients_setPc_self]
  exact if_pos rfl

/-- The other connections have the worker they had. -/
theorem worker_setPc_of_ne (hk : k ≠ s.conn i) :
    (s.setPc i (.connected w)).worker k = s.worker k := by
  by_cases hki : k.1 = i
  · have hindex : (s.clients k.1).connIndex ≠ k.2 := by
      intro heq
      subst hki
      exact hk (Prod.ext rfl heq.symm)
    have hbefore : s.worker k = none := by
      unfold State.worker
      split
      · exact if_neg hindex
      · rfl
    subst hki
    rw [hbefore, State.worker, clients_setPc_self]
    exact if_neg hindex
  · rw [State.worker, clients_setPc_of_ne _ hki, State.worker]

theorem State.Made.setPc (h : s.Made k) : (s.setPc i (.connected w)).Made k := by
  by_cases hki : k.1 = i
  · subst hki
    rw [State.Made, clients_setPc_self]
    rcases h with hlt | ⟨hindex, _⟩
    · exact .inl hlt
    · exact .inr ⟨hindex, w, rfl⟩
  · rw [State.Made, clients_setPc_of_ne _ hki]
    exact h

theorem made_conn_setPc : (s.setPc i (.connected w)).Made (s.conn i) := by
  rw [State.Made]
  refine .inr ⟨?_, w, ?_⟩
  · show (s.clients i).connIndex = ((s.setPc i (.connected w)).clients i).connIndex
    rw [clients_setPc_self]
  · show ((s.setPc i (.connected w)).clients i).pc = .connected w
    rw [clients_setPc_self]

/-- What has been closed stays closed. -/
theorem State.Closed.setPc (h : s.Closed k)
    (hopen : ∀ w', (s.clients i).pc = .connected w' → w'.pc ≠ .closed) :
    (s.setPc i (.connected w)).Closed k := by
  by_cases hki : k.1 = i
  · subst hki
    rw [State.Closed, clients_setPc_self]
    rcases h with hlt | ⟨_, w', hpc, hclosed⟩
    · exact .inl hlt
    · exact absurd hclosed (hopen w' hpc)
  · rw [State.Closed, clients_setPc_of_ne _ hki]
    exact h

/-- A client thread goes on with its connection. -/
theorem Sound.client_moves (h : Sound setup s)
    {network : Network (Conn threads) toServer toClient}
    (hopen : ∀ w', (s.clients i).pc = .connected w' → w'.pc ≠ .closed)
    (halive : ∀ message, w.pc ≠ .died message)
    (hpeer : network.peer = s.network.peer) (hdropped : network.dropped = s.network.dropped)
    (hwaiting : ∀ k ∈ network.backlog, k ∈ s.network.backlog ∨ k = s.conn i)
    (hkept : ∀ k ∈ s.network.backlog, k ∈ network.backlog)
    (hplaced : s.conn i ∈ network.backlog ∨ ∃ fd, s.network.peer fd = some (s.conn i))
    (hbalanced : ∀ k, Relay.Balanced (LockStep.relay setup.client toServer toClient)
      (State.view { s.setPc i (.connected w) with network := network } k)) :
    Sound setup { s.setPc i (.connected w) with network := network } where
  server := h.server
  balanced := hbalanced
  peers := by
    dsimp only
    rw [hpeer]
    exact h.peers
  placed := by
    intro j w' hpc hj
    dsimp only at hpc ⊢
    rw [hpeer]
    by_cases hji : j = i
    · subst hji
      rw [State.conn, clients_setPc_self]
      exact hplaced
    · rw [clients_setPc_of_ne _ hji] at hpc
      rw [State.conn, clients_setPc_of_ne _ hji]
      rcases h.placed j w' hpc hj with hmem | hfd
      · exact .inl (hkept _ hmem)
      · exact .inr hfd
  waiting := by
    intro k hk
    rcases hwaiting k hk with hmem | rfl
    · exact (h.waiting k hmem).setPc
    · exact made_conn_setPc
  accepted := by
    intro fd k hk
    dsimp only at hk
    rw [hpeer] at hk
    exact (h.accepted fd k hk).setPc
  dropped := by
    intro k hk
    dsimp only at hk
    rw [hdropped] at hk
    exact (h.dropped k hk).setPc hopen
  alive := by
    intro j w' message hpc
    dsimp only at hpc
    by_cases hji : j = i
    · subst hji
      rw [clients_setPc_self] at hpc
      cases hpc
      exact halive message
    · rw [clients_setPc_of_ne _ hji] at hpc
      exact h.alive j w' message hpc
  returned := by
    intro j bytes hpc
    dsimp only at hpc ⊢
    by_cases hji : j = i
    · subst hji
      rw [clients_setPc_self] at hpc
      cases hpc
    · rw [clients_setPc_of_ne _ hji] at hpc ⊢
      exact h.returned j bytes hpc

/-- The view of another connection. -/
theorem view_setPc_of_ne {network : Network (Conn threads) toServer toClient}
    (hk : k ≠ s.conn i) (hpeer : network.peer = s.network.peer)
    (hin : network.inbound k = s.network.inbound k)
    (hout : network.outbound k = s.network.outbound k) :
    State.view { s.setPc i (.connected w) with network := network } k = s.view k := by
  have hworker : State.worker { s.setPc i (.connected w) with network := network } k =
      s.worker k := worker_setPc_of_ne hk
  rw [State.view, hworker]
  dsimp only
  rw [hpeer, hin, hout]
  rfl

/-- The view of the connection itself. -/
theorem view_setPc_self {network : Network (Conn threads) toServer toClient}
    (hpeer : network.peer = s.network.peer) :
    State.view { s.setPc i (.connected w) with network := network } (s.conn i) =
      { phase := LockStep.phase w.pc
        count := w.req
        inbound := (network.inbound (s.conn i)).length
        held := (s.view (s.conn i)).held
        outbound := (network.outbound (s.conn i)).length } := by
  have hworker : State.worker { s.setPc i (.connected w) with network := network }
      (s.conn i) = some w := worker_setPc_self
  rw [State.view, hworker]
  dsimp only
  rw [hpeer]
  rfl

/-- The `connect` of a client. -/
theorem connectStep_some {bytesCompleted : Nat}
    (hstep : connectStep setup s i bytesCompleted = some t) :
    s.network.backlog.length < setup.backlog ∧
      t = { s.setPc i (.connected (.start setup.client bytesCompleted)) with
        network := { s.network with backlog := s.network.backlog ++ [s.conn i] } } := by
  obtain ⟨network, hconnect, rfl⟩ := Option.map_eq_some_iff.mp hstep
  unfold Network.connect at hconnect
  split at hconnect
  · next hroom =>
      cases hconnect
      exact ⟨hroom, rfl⟩
  · cases hconnect

theorem Sound.connect (h : Sound setup s) (hpayload : 0 < setup.client.payloadSize)
    {bytesCompleted : Nat} (hpc : (s.clients i).pc = .connecting bytesCompleted)
    (hstep : connectStep setup s i bytesCompleted = some t) : Sound setup t := by
  obtain ⟨_, rfl⟩ := connectStep_some hstep
  refine h.client_moves ?_ (LockStep.loopTest_alive setup.client 0) rfl rfl ?_ ?_ ?_ ?_
  · intro w' hw'
    rw [hpc] at hw'
    cases hw'
  · intro k hk
    rcases List.mem_append.mp hk with hmem | hmem
    · exact .inl hmem
    · exact .inr (List.mem_singleton.mp hmem)
  · exact fun k hk => List.mem_append_left _ hk
  · exact .inl (List.mem_append_right _ (List.mem_singleton_self _))
  · intro k
    by_cases hk : k = s.conn i
    · subst hk
      have hworker : s.worker (s.conn i) = none := by
        rw [State.worker, State.conn, hpc]
      have hfinished : (s.view (s.conn i)).phase = .finished := by
        rw [State.view, hworker]
        rfl
      have hrestart := (h.balanced (s.conn i)).restart hpayload hfinished
        setup.client.requestsPerConnection
      rw [view_setPc_self (by rfl)]
      refine hrestart.shift ?_ rfl hrestart.inbound hrestart.outbound
      show LockStep.phase (LoadClient.loopTest setup.client 0) = _
      unfold LoadClient.loopTest
      split
      · rfl
      · rfl
    · rw [view_setPc_of_ne hk (by rfl) (by rfl) (by rfl)]
      exact h.balanced k

theorem Sound.write (h : Sound setup s) {done n : Nat}
    (hpc : (s.clients i).pc = .connected w) (hwrite : w.pc = .writeFull done)
    (hstep : writeStep setup s i w done n = some t) : Sound setup t := by
  unfold writeStep at hstep
  split at hstep
  · next hguard =>
      obtain ⟨network, hsend, rfl⟩ := Option.map_eq_some_iff.mp hstep
      obtain ⟨inbound, hpush, rfl⟩ := Option.map_eq_some_iff.mp hsend
      have hopen : w.pc ≠ .closed := by simp [hwrite]
      have hchunk : (((sendBuf setup.client).drop done).take n).length = n :=
        LoadClient.length_chunk hguard.2
      have hroom := (Channel.push_some hpush).1
      have hlength := Channel.length_push hpush
      rw [hchunk] at hroom hlength
      obtain ⟨hphase, _, halive⟩ :=
        LockStep.wrote_phase (w := w) toServer toClient hguard.1 hguard.2
      refine h.client_moves ?_ halive rfl rfl (fun k hk => .inl hk) (fun k hk => hk)
        (h.placed i w hpc hopen) ?_
      · intro w' hw'
        rw [hpc] at hw'
        cases hw'
        exact hopen
      · intro k
        by_cases hk : k = s.conn i
        · subst hk
          have hsending : (s.view (s.conn i)).phase = .sending done := by
            rw [State.view, worker_conn hpc, Option.elim_some, hwrite]
            rfl
          have hsent := (h.balanced (s.conn i)).send hsending hguard.2 hroom
          rw [view_setPc_self (by rfl)]
          refine hsent.shift hphase ?_ ?_ hsent.outbound
          · simp only [Function.update_self, hlength]
            rfl
          · simp only [Function.update_self]
            exact inbound.bounded
        · rw [view_setPc_of_ne hk (by rfl) (Function.update_of_ne hk _ _) (by rfl)]
          exact h.balanced k
  · cases hstep

theorem Sound.read (h : Sound setup s) {done n : Nat}
    (hpc : (s.clients i).pc = .connected w) (hread : w.pc = .readFull done)
    (hstep : readStep setup s i w done n = some t) : Sound setup t := by
  unfold readStep at hstep
  split at hstep
  · next hguard =>
      obtain ⟨⟨bytes, network⟩, hreceive, rfl⟩ := Option.map_eq_some_iff.mp hstep
      obtain ⟨⟨taken, outbound⟩, hpop, heq⟩ := Option.map_eq_some_iff.mp hreceive
      cases heq
      have hopen : w.pc ≠ .closed := by simp [hread]
      have hbytes := (Channel.pop_some hpop).1
      have hlength := Channel.length_pop hpop
      subst hbytes
      obtain ⟨hafter, halive⟩ :=
        LockStep.received_phase (w := w) toServer toClient hguard.1 hguard.2
      refine h.client_moves ?_ halive rfl rfl (fun k hk => .inl hk) (fun k hk => hk)
        (h.placed i w hpc hopen) ?_
      · intro w' hw'
        rw [hpc] at hw'
        cases hw'
        exact hopen
      · intro k
        by_cases hk : k = s.conn i
        · subst hk
          have hworker := worker_conn hpc
          have hreceiving : (s.view (s.conn i)).phase = .receiving done := by
            rw [State.view, hworker, Option.elim_some, hread]
            rfl
          have hcount : (s.view (s.conn i)).count = w.req := by
            rw [State.view, hworker]
            rfl
          have hout : (s.view (s.conn i)).outbound =
              (s.network.outbound (s.conn i)).length := rfl
          have hreceived := (h.balanced (s.conn i)).receive hreceiving hguard.2 (by omega)
          rw [view_setPc_self (by rfl)]
          refine hreceived.shift ?_ ?_ hreceived.inbound ?_
          · dsimp only
            rw [hcount, ← hafter]
          · simp only [Function.update_self, hout, hlength]
            rw [Nat.add_sub_cancel_left]
            rfl
          · simp only [Function.update_self]
            exact outbound.bounded
        · rw [view_setPc_of_ne hk (by rfl) (by rfl) (Function.update_of_ne hk _ _)]
          exact h.balanced k
  · cases hstep

/-- The server never closes a connection under its client. -/
theorem Sound.not_dropped (h : Sound setup s) (hpc : (s.clients i).pc = .connected w)
    (hopen : w.pc ≠ .closed) : s.network.dropped (s.conn i) = false := by
  cases hdropped : s.network.dropped (s.conn i) with
  | false => rfl
  | true => exact absurd ((h.dropped _ hdropped).not_open hpc) hopen

/-- The state of a client thread that has turned to its next connection. -/
theorem clients_nextStep (setup : Setup threads)
    (s : State threadCount threads toServer toClient) (i : Fin threads) (w : Worker) :
    (nextStep setup s i w).clients i = .loopTest (setup.connections i)
      ((s.clients i).connIndex + 1) w.bytesCompleted :=
  Function.update_self _ _ _

theorem clients_nextStep_of_ne {j : Fin threads} (hj : j ≠ i) :
    (nextStep setup s i w).clients j = s.clients j :=
  Function.update_of_ne hj _ _

theorem worker_loopTest {connections connIndex bytesCompleted : Nat}
    (h : s.clients k.1 = .loopTest connections connIndex bytesCompleted) :
    s.worker k = none := by
  unfold State.worker
  split
  · next w' hpc =>
      rw [h] at hpc
      exact absurd hpc (LoadClient.loopTest_not_connected _ _ _ w')
  · rfl

/-- A thread turns to its next connection, which has not been made. -/
theorem Sound.turn (h : Sound setup s) (hpc : (s.clients i).pc = .connected w)
    (hclosed : w.pc = .closed) : Sound setup (nextStep setup s i w) := by
  have hmade : ∀ k, s.Made k → (nextStep setup s i w).Made k := by
    intro k hk
    by_cases hki : k.1 = i
    · subst hki
      have hle : k.2 ≤ (s.clients k.1).connIndex := by
        rcases hk with hlt | ⟨heq, _⟩
        · exact le_of_lt hlt
        · exact le_of_eq heq
      rw [State.Made, clients_nextStep]
      exact .inl (Nat.lt_succ_of_le hle)
    · rw [State.Made, clients_nextStep_of_ne hki]
      exact hk
  have hview : ∀ k, ((nextStep setup s i w).view k).phase = (s.view k).phase := by
    intro k
    by_cases hki : k.1 = i
    · subst hki
      rw [State.view, worker_loopTest (clients_nextStep setup s k.1 w), State.view]
      cases hworker : s.worker k with
      | none => rfl
      | some w' =>
          have hpc' := (worker_of_some hworker).1
          rw [hpc] at hpc'
          cases hpc'
          rw [Option.elim_some, hclosed]
          rfl
    · rw [State.view, State.worker, clients_nextStep_of_ne hki]
      rfl
  exact
    { server := h.server
      balanced := fun k =>
        (h.balanced k).shift (hview k) rfl (h.balanced k).inbound (h.balanced k).outbound
      peers := h.peers
      placed := fun j w' hpc' hj => by
        by_cases hji : j = i
        · subst hji
          rw [clients_nextStep] at hpc'
          exact absurd hpc' (LoadClient.loopTest_not_connected _ _ _ w')
        · rw [clients_nextStep_of_ne hji] at hpc'
          rw [State.conn, clients_nextStep_of_ne hji]
          exact h.placed j w' hpc' hj
      waiting := fun k hk => hmade k (h.waiting k hk)
      accepted := fun fd k hk => hmade k (h.accepted fd k hk)
      dropped := fun k hk => by
        have hold := h.dropped k hk
        by_cases hki : k.1 = i
        · subst hki
          have hle : k.2 ≤ (s.clients k.1).connIndex := by
            rcases hold with hlt | ⟨heq, _⟩
            · exact le_of_lt hlt
            · exact le_of_eq heq
          rw [State.Closed, clients_nextStep]
          exact .inl (Nat.lt_succ_of_le hle)
        · rw [State.Closed, clients_nextStep_of_ne hki]
          exact hold
      alive := fun j w' message hpc' => by
        by_cases hji : j = i
        · subst hji
          rw [clients_nextStep] at hpc'
          exact absurd hpc' (LoadClient.loopTest_not_connected _ _ _ w')
        · rw [clients_nextStep_of_ne hji] at hpc'
          exact h.alive j w' message hpc'
      returned := fun j bytes hpc' => by
        by_cases hji : j = i
        · subst hji
          rw [clients_nextStep] at hpc' ⊢
          exact LoadClient.loopTest_returned hpc'
        · rw [clients_nextStep_of_ne hji] at hpc' ⊢
          exact h.returned j bytes hpc' }

end Client

/-! ## Any step -/

theorem Sound.step (h : Sound setup s) (hpayload : 0 < setup.client.payloadSize)
    {e : Event threadCount threads} (hstep : step setup s e = some t) : Sound setup t := by
  cases e with
  | server e =>
      obtain ⟨server, network, rfl, hnext, hserved⟩ := serverStep_served h.server hstep
      exact h.served hnext hserved
  | connect i =>
      simp only [ThreadpoolLoad.step] at hstep
      split at hstep
      · next bytesCompleted hpc => exact h.connect hpayload hpc hstep
      · cases hstep
  | write i n =>
      simp only [ThreadpoolLoad.step] at hstep
      split at hstep
      · next w hpc =>
          split at hstep
          · next done hwrite => exact h.write hpc hwrite hstep
          · cases hstep
      · cases hstep
  | read i n =>
      simp only [ThreadpoolLoad.step] at hstep
      split at hstep
      · next w hpc =>
          split at hstep
          · next done hread => exact h.read hpc hread hstep
          · cases hstep
      · cases hstep
  | eof i =>
      simp only [ThreadpoolLoad.step] at hstep
      split at hstep
      · next w hpc =>
          split at hstep
          · next done hread =>
              have hkept := h.not_dropped hpc (by simp [hread])
              simp only [eofStep, hkept, Bool.false_eq_true, false_and, if_false] at hstep
              cases hstep
          · cases hstep
      · cases hstep
  | next i =>
      simp only [ThreadpoolLoad.step] at hstep
      split at hstep
      · next w hpc =>
          split at hstep
          · next hclosed =>
              cases hstep
              exact h.turn hpc hclosed
          · cases hstep
      · cases hstep

theorem initial_sound (setup : Setup threads) :
    Sound setup (initial setup : State threadCount threads toServer toClient) := by
  have hworker : ∀ k, (initial setup : State threadCount threads toServer toClient).worker k =
      none := fun k => worker_loopTest rfl
  exact
    { server := .start rfl
      balanced := fun k => by
        have hheld : held (fun _ => none) k
            (transfers (ThreadpoolServer.initial threadCount)) = 0 :=
          Finset.sum_eq_zero fun _ _ => rfl
        refine ⟨Nat.zero_le _, Nat.zero_le _, ?_, ?_, ?_⟩
        · intro done hphase
          rw [State.view, hworker] at hphase
          cases hphase
        · intro done hphase
          rw [State.view, hworker] at hphase
          cases hphase
        · intro _
          exact congrArg (0 + · + 0) hheld
      peers := fun fd => by
        simp [initial, ThreadpoolServer.initial, Network.quiet, Transcript.clients_nil]
      placed := fun i w hpc => absurd hpc (LoadClient.loopTest_not_connected _ _ _ w)
      waiting := fun k hk => by cases hk
      accepted := fun fd k hk => by cases hk
      dropped := fun k hk => by cases hk
      alive := fun i w message hpc => absurd hpc (LoadClient.loopTest_not_connected _ _ _ w)
      returned := fun i bytes hpc => LoadClient.loopTest_returned hpc }

theorem reachable_sound (hpayload : 0 < setup.client.payloadSize)
    (hs : (system setup threadCount toServer toClient).Reachable s) : Sound setup s := by
  refine hs.induct ?_ ?_
  · rintro s rfl
    exact initial_sound setup
  · intro s e t _ h hstep
    exact h.step hpayload hstep

end Model

end SysLab.PartB.ThreadpoolLoad
