import Mathlib.Order.Interval.Finset.Nat
import SysLab.Foundation.Pace
import SysLab.PartB.PollLoadBeside

/-!
# The `poll` server and the load client, step by step

While every client that is accepted finds a slot, each step of the `poll` server is what
a thread pool may do, in as many steps as it takes (`paced`).  Where the server only
looks, because it calls `poll`, ends its accept loop or passes a slot of which nothing
was reported, the pool stands still; it does so for no longer than two scans.
-/

namespace SysLab.PartB.PollLoad

open SysLab.Foundation
open SysLab.PartB.LoadClient (Config Thread ThreadPc Worker)
open SysLab.PartB.PollServer (PollFlags noFlags POLLIN POLLOUT Slot Connection)
open SysLab.PartB.ThreadpoolLoad (Setup Conn Sound worker_conn worker_of_some)

section Model

variable {threads toServer toClient maxClients : Nat} {setup : Setup threads}
  {s t : State threads toServer toClient}

/-! ## What the clients do to an accepted connection -/

section Clients

variable {threadCount : Nat} {u v : ThreadpoolLoad.State threadCount threads toServer toClient}
  {k : Conn threads}

theorem isOpen_congr (h : v.clients k.1 = u.clients k.1) : v.isOpen k = u.isOpen k := by
  rw [ThreadpoolLoad.State.isOpen, ThreadpoolLoad.State.isOpen, ThreadpoolLoad.State.worker,
    ThreadpoolLoad.State.worker, h]

theorem worker_of_isOpen (h : u.isOpen k = true) :
    ∃ w, (u.clients k.1).pc = .connected w ∧ k = u.conn k.1 ∧ w.pc ≠ .closed := by
  unfold ThreadpoolLoad.State.isOpen at h
  split at h
  · next w hworker =>
      obtain ⟨hpc, hk⟩ := worker_of_some hworker
      exact ⟨w, hpc, hk, of_decide_eq_true h⟩
  · cases h

theorem isOpen_conn {i : Fin threads} {w : Worker} (hpc : (u.clients i).pc = .connected w)
    (hopen : w.pc ≠ .closed) : u.isOpen (u.conn i) = true := by
  unfold ThreadpoolLoad.State.isOpen
  rw [worker_conn hpc]
  exact decide_eq_true hopen

/-- A client does not open a connection again. -/
theorem isOpen_of_moves {i : Fin threads} {w w' : Worker}
    (hpc : (u.clients i).pc = .connected w) (hopen : w.pc ≠ .closed)
    (h : (u.setPc i (.connected w')).isOpen k = true) : u.isOpen k = true := by
  by_cases hk : k.1 = i
  · subst hk
    obtain ⟨_, _, hconn, _⟩ := worker_of_isOpen h
    have hsame : k = u.conn k.1 := by
      rw [ThreadpoolLoad.State.conn, ThreadpoolLoad.clients_setPc_self] at hconn
      exact hconn
    rw [hsame]
    exact isOpen_conn hpc hopen
  · rwa [isOpen_congr (u := u) (ThreadpoolLoad.clients_setPc_of_ne _ hk)] at h

/-- A connection that was made before is not opened by the next. -/
theorem isOpen_of_connects {i : Fin threads} {bytes : Nat} {w : Worker} (hmade : u.Made k)
    (hpc : (u.clients i).pc = .connecting bytes)
    (h : (u.setPc i (.connected w)).isOpen k = true) : u.isOpen k = true := by
  by_cases hk : k.1 = i
  · subst hk
    obtain ⟨_, _, hconn, _⟩ := worker_of_isOpen h
    have hindex : k.2 = (u.clients k.1).connIndex := by
      have hsnd := congrArg Prod.snd hconn
      change k.2 = ((u.setPc k.1 _).clients k.1).connIndex at hsnd
      rwa [ThreadpoolLoad.clients_setPc_self] at hsnd
    rcases hmade with hlt | ⟨_, w, hw⟩
    · omega
    · rw [hpc] at hw
      cases hw
  · rwa [isOpen_congr (u := u) (ThreadpoolLoad.clients_setPc_of_ne _ hk)] at h

theorem isOpen_of_next {i : Fin threads} {w : Worker}
    (h : (ThreadpoolLoad.nextStep setup u i w).isOpen k = true) : u.isOpen k = true := by
  by_cases hk : k.1 = i
  · subst hk
    obtain ⟨w', hpc, _, _⟩ := worker_of_isOpen h
    rw [ThreadpoolLoad.clients_nextStep] at hpc
    exact absurd hpc (LoadClient.loopTest_not_connected _ _ _ w')
  · rwa [isOpen_congr (u := u) (ThreadpoolLoad.clients_nextStep_of_ne hk)] at h

/-- A client leaves an accepted connection readable, and with room for the answer. -/
theorem client_persists (hsound : Sound setup u) {e : ClientEvent threads}
    (hstep : ThreadpoolLoad.step setup u e.beside = some v) {fd : Int}
    (hpeer : u.network.peer fd = some k) :
    (v.isOpen k = true → u.isOpen k = true) ∧
      (u.network.inbound k).length ≤ (v.network.inbound k).length ∧
      (v.network.outbound k).length ≤ (u.network.outbound k).length := by
  cases e with
  | connect i =>
      cases hsound.stepped (e := .connect i) hstep with
      | connect hpc hconnect =>
          obtain ⟨_, rfl⟩ := ThreadpoolLoad.connectStep_some hconnect
          exact ⟨isOpen_of_connects (hsound.accepted fd k hpeer) hpc, le_refl _, le_refl _⟩
  | write i n =>
      cases hsound.stepped (e := .write i n) hstep with
      | write hpc hwrite hsent =>
          obtain ⟨_, _, inbound, hlength, rfl⟩ := ThreadpoolLoad.writeStep_some hsent
          refine ⟨isOpen_of_moves hpc (by rw [hwrite]; simp), ?_, le_refl _⟩
          show _ ≤ (Function.update u.network.inbound (u.conn i) inbound k).length
          by_cases hk : k = u.conn i
          · subst hk
            rw [Function.update_self]
            omega
          · rw [Function.update_of_ne hk]
  | read i n =>
      cases hsound.stepped (e := .read i n) hstep with
      | read hpc hread hreceived =>
          obtain ⟨bytes, outbound, _, _, _, hlength, rfl⟩ :=
            ThreadpoolLoad.readStep_some hreceived
          refine ⟨isOpen_of_moves hpc (by rw [hread]; simp), le_refl _, ?_⟩
          show (Function.update u.network.outbound (u.conn i) outbound k).length ≤ _
          by_cases hk : k = u.conn i
          · subst hk
            rw [Function.update_self]
            omega
          · rw [Function.update_of_ne hk]
  | eof i => cases hsound.stepped (e := .eof i) hstep
  | next i =>
      cases hsound.stepped (e := .next i) hstep with
      | next hpc hclosed heq =>
          subst heq
          exact ⟨isOpen_of_next, le_refl _, le_refl _⟩

/-- Nor does it change whose descriptors they are. -/
theorem client_peer (hsound : Sound setup u) {e : ClientEvent threads}
    (hstep : ThreadpoolLoad.step setup u e.beside = some v) :
    v.network.peer = u.network.peer := by
  cases e with
  | connect i =>
      cases hsound.stepped (e := .connect i) hstep with
      | connect hpc hconnect =>
          obtain ⟨_, rfl⟩ := ThreadpoolLoad.connectStep_some hconnect
          rfl
  | write i n =>
      cases hsound.stepped (e := .write i n) hstep with
      | write hpc hwrite hsent =>
          obtain ⟨_, _, inbound, _, rfl⟩ := ThreadpoolLoad.writeStep_some hsent
          rfl
  | read i n =>
      cases hsound.stepped (e := .read i n) hstep with
      | read hpc hread hreceived =>
          obtain ⟨bytes, outbound, _, _, _, _, rfl⟩ := ThreadpoolLoad.readStep_some hreceived
          rfl
  | eof i => cases hsound.stepped (e := .eof i) hstep
  | next i =>
      cases hsound.stepped (e := .next i) hstep with
      | next hpc hclosed heq =>
          subst heq
          rfl

end Clients

/-! ## What was reported stays true -/

/-- Slot `j` is as ready as it was. -/
structure Kept (s t : State threads toServer toClient) (j : Nat) : Prop where
  pfd : t.server.pfds j = s.server.pfds j
  live : (t.server.conns j).fd = (s.server.conns j).fd
  peer : t.network.peer (s.server.pfds j).fd = s.network.peer (s.server.pfds j).fd
  more : ∀ k, s.network.peer (s.server.pfds j).fd = some k →
    (t.clientSide.isOpen k = true → s.clientSide.isOpen k = true) ∧
      (s.network.inbound k).length ≤ (t.network.inbound k).length ∧
      (t.network.outbound k).length ≤ (s.network.outbound k).length

theorem Kept.polled {j : Nat} (h : Kept s t j) (hj : j ≠ 0) :
    ((s.polled j).pollin = true → (t.polled j).pollin = true) ∧
      ((s.polled j).pollout = true → (t.polled j).pollout = true) := by
  rw [State.polled, State.polled, if_neg hj, if_neg hj]
  rw [h.pfd, h.peer]
  split
  · exact ⟨id, id⟩
  · cases hpeer : s.network.peer (s.server.pfds j).fd with
    | none => exact ⟨id, id⟩
    | some k =>
        obtain ⟨hopen, hin, hout⟩ := h.more k hpeer
        simp only [Bool.and_eq_true, Bool.or_eq_true, decide_eq_true_eq, Bool.not_eq_true']
        refine ⟨fun hpollin => ⟨hpollin.1, ?_⟩, fun hpollout => ⟨hpollout.1, by omega⟩⟩
        rcases hpollin.2 with hbytes | hclosed
        · exact .inl (by omega)
        · refine .inr (Bool.eq_false_iff.mpr fun h => ?_)
          rw [hopen h] at hclosed
          cases hclosed

theorem Within.none (g : PollFlags) : Within noFlags g :=
  ⟨rfl, fun h => (by cases h), fun h => (by cases h)⟩

theorem polled_sound (s : State threads toServer toClient) (j : Nat) :
    (s.polled j).broken = false := by
  rw [State.polled]
  split
  · rfl
  · split
    · rfl
    · split
      · rfl
      · rfl

/-- What is still to be passed is as ready as it was, or nothing is reported of it. -/
theorem Ready.keep (h : Ready maxClients s) (hrunning : ∀ why, t.server.pc ≠ .exited why)
    (hlistener : (t.server.pfds 0).events = (s.server.pfds 0).events)
    (hslots : ∀ j, 1 ≤ j → j ≤ maxClients → Remaining t.server.pc j →
      0 ≤ (t.server.conns j).fd →
      Remaining s.server.pc j ∧ Kept s t j ∨ (t.server.pfds j).revents = noFlags) :
    Ready maxClients t where
  running := hrunning
  listener := hlistener.trans h.listener
  flags j hj hjm hremaining hlive := by
    rcases hslots j hj hjm hremaining hlive with ⟨hbefore, hkept⟩ | hnone
    · rw [hkept.live] at hlive
      have hwithin := h.flags j hj hjm hbefore hlive
      obtain ⟨hin, hout⟩ := hkept.polled (by omega)
      rw [hkept.pfd]
      exact ⟨hwithin.sound, fun hf => hin (hwithin.pollin hf),
        fun hf => hout (hwithin.pollout hf)⟩
    · rw [hnone]
      exact .none _

theorem remaining_scanFrom {i j : Nat} (h : Remaining (PollServer.scanFrom maxClients i) j) :
    i ≤ j := by
  unfold PollServer.scanFrom at h
  split at h
  · exact h
  · cases h

section Step

variable {pool : ThreadpoolServer.State maxClients}

/-- A live slot belongs to a connection. -/
theorem exists_conn (hinv : PollServer.Inv maxClients setup.base s.server)
    (hmirrors : Mirrors s.server pool) (hsound : Sound setup (s.beside pool)) {j : Nat}
    (hj : 1 ≤ j) (hjm : j ≤ maxClients) (hlive : 0 ≤ (s.server.conns j).fd) :
    ∃ k, s.network.peer (s.server.conns j).fd = some k := by
  refine (hsound.peers _).mp ?_
  show _ ∈ Transcript.clients setup.base pool.trace
  rw [hmirrors.trace]
  exact hinv.mem_clients hj hjm hlive

/-- Two slots belong to two connections. -/
theorem conn_ne_of_slot_ne (hinv : PollServer.Inv maxClients setup.base s.server)
    (hsingle : ThreadpoolLoad.Single (s.beside pool)) {i j : Nat}
    (hi : 1 ≤ i) (him : i ≤ maxClients) (hlivei : 0 ≤ (s.server.conns i).fd) (hj : 1 ≤ j)
    (hjm : j ≤ maxClients) (hlivej : 0 ≤ (s.server.conns j).fd) (hne : j ≠ i)
    {k k' : Conn threads} (hpeer : s.network.peer (s.server.conns i).fd = some k)
    (hpeer' : s.network.peer (s.server.conns j).fd = some k') : k' ≠ k := by
  rintro rfl
  exact hinv.fd_ne hi him hlivei hj hjm hlivej hne (hsingle.peer _ _ k' hpeer hpeer')

/-- A new descriptor is nobody's. -/
theorem not_mem_of_accept {base : Finset Int} {fd : Int} {calls : Trace}
    (hkernel : KernelOk base (.accept fd :: calls)) : fd ∉ Transcript.clients base calls :=
  fun hmem => hkernel.1.2 (Transcript.mem_clients.mp hmem).1

/-- A slot that is passed leaves the others as they are. -/
theorem Passed.kept (hinv : PollServer.Inv maxClients setup.base s.server)
    (hsingle : ThreadpoolLoad.Single (s.beside pool)) {i j : Nat}
    {rd : Except Errno (List UInt8)} {y : Slot}
    {network : Network (Conn threads) toServer toClient}
    (hpassed : Passed s i rd y network) (hi : 1 ≤ i) (him : i ≤ maxClients) (hj : 1 ≤ j)
    (hjm : j ≤ maxClients) (hlivej : 0 ≤ (s.server.conns j).fd) (hne : j ≠ i) :
    Kept s (s.pass maxClients i y network) j := by
  have hfd : (s.server.pfds j).fd = (s.server.conns j).fd := (hinv.slots j hj hjm).fd_eq
  have hpfd : Function.update s.server.pfds i y.pfd j = s.server.pfds j :=
    Function.update_of_ne hne _ _
  have hlive : (Function.update s.server.conns i y.conn j).fd = (s.server.conns j).fd := by
    rw [Function.update_of_ne hne]
  cases hpassed with
  | idle _ _ hnetwork =>
      subst hnetwork
      exact ⟨hpfd, hlive, rfl, fun _ _ => ⟨id, le_refl _, le_refl _⟩⟩
  | read fd k bytes inbound _ hfdi hlivei hpeer _ _ _ _ _ hnetwork =>
      subst hfdi hnetwork
      refine ⟨hpfd, hlive, rfl, fun k' hk' => ⟨id, ?_, le_refl _⟩⟩
      rw [hfd] at hk'
      have hkk' := conn_ne_of_slot_ne hinv hsingle hi him hlivei hj hjm hlivej hne hpeer hk'
      show _ ≤ (Function.update s.network.inbound k inbound k').length
      rw [Function.update_of_ne hkk']
  | eof fd k _ hfdi hlivei hpeer _ _ _ _ _ hnetwork =>
      subst hfdi hnetwork
      refine ⟨hpfd, hlive, ?_, fun _ _ => ⟨id, le_refl _, le_refl _⟩⟩
      rw [hfd]
      exact Function.update_of_ne
        (hinv.fd_ne hi him hlivei hj hjm hlivej hne).symm _ _
  | write fd k n outbound hfdi hlivei hpeer _ _ _ _ _ _ hnetwork =>
      subst hfdi hnetwork
      refine ⟨hpfd, hlive, rfl, fun k' hk' => ⟨id, le_refl _, ?_⟩⟩
      rw [hfd] at hk'
      have hkk' := conn_ne_of_slot_ne hinv hsingle hi him hlivei hj hjm hlivej hne hpeer hk'
      show (Function.update s.network.outbound k outbound k').length ≤ _
      rw [Function.update_of_ne hkk']

/-- So does a connection that is accepted into another slot. -/
theorem kept_of_seat (hinv : PollServer.Inv maxClients setup.base s.server) {i j : Nat} {fd : Int}
    (hfresh : fd ∉ Transcript.clients setup.base s.server.trace) {k : Conn threads}
    {rest : List (Conn threads)} (hj : 1 ≤ j) (hjm : j ≤ maxClients) (hji : j ≠ i)
    (hlive : 0 ≤ (s.server.conns j).fd) : Kept s (s.seat i fd k rest) j := by
  have hfd : (s.server.pfds j).fd = (s.server.conns j).fd := (hinv.slots j hj hjm).fd_eq
  have hne : (s.server.pfds j).fd ≠ fd := by
    rw [hfd]
    rintro rfl
    exact hfresh (hinv.mem_clients hj hjm hlive)
  have hconn : (s.seat i fd k rest).server.conns j = s.server.conns j :=
    Function.update_of_ne hji _ _
  exact ⟨Function.update_of_ne hji _ _, by rw [hconn], Function.update_of_ne hne _ _,
    fun _ _ => ⟨id, le_refl _, le_refl _⟩⟩

/-- Whoever is accepted finds a slot. -/
def Admits (maxClients : Nat) (s : State threads toServer toClient) : Event threads → Prop
  | .server (.accept _) => ∃ i, 1 ≤ i ∧ i ≤ maxClients ∧ (s.server.conns i).fd < 0
  | _ => True

theorem Ready.served (h : Ready maxClients s)
    (hinv : PollServer.Inv maxClients setup.base s.server)
    (hsingle : ThreadpoolLoad.Single (s.beside pool)) {e : ServerEvent}
    (hserved : Served setup maxClients s t e) (hadmits : Admits maxClients s (.server e)) :
    Ready maxClients t := by
  cases hserved with
  | poll hpc hany heq =>
      subst heq
      refine ⟨fun why => ?_, h.listener, fun j hj _ _ _ => ?_⟩
      · simp only [PollServer.pollStep]
        split
        · exact fun hexit => by cases hexit
        · exact PollServer.scanFrom_ne_exited 1 why
      · have hsame : State.polled { s with
            server := PollServer.pollStep maxClients s.server (.ok s.polled) } j =
            s.polled j := rfl
        rw [hsame]
        exact ⟨polled_sound s j, id, id⟩
  | accept k rest i hpc hbacklog hkernel hi him hfree heq =>
      rename_i fd
      subst heq
      refine h.keep h.running ?_ fun j hj hjm hremaining hlive => ?_
      · show (Function.update s.server.pfds i _ 0).events = _
        rw [Function.update_of_ne (by omega)]
      · by_cases hji : j = i
        · subst hji
          refine .inr ?_
          show (Function.update s.server.pfds j _ j).revents = noFlags
          rw [Function.update_self]
        · have hconn : (s.seat i fd k rest).server.conns j = s.server.conns j :=
            Function.update_of_ne hji _ _
          rw [hconn] at hlive
          exact .inl ⟨hremaining,
            kept_of_seat hinv (not_mem_of_accept hkernel) hj hjm hji hlive⟩
  | refuse k rest hpc hbacklog hfull heq =>
      obtain ⟨i, hi, him, hfree⟩ := hadmits
      exact absurd (hfull i hi him) (Int.not_le.mpr hfree)
  | drained hpc hbacklog heq =>
      subst heq
      refine h.keep (fun why => PollServer.scanFrom_ne_exited 1 why) rfl
        fun j hj hjm _ _ => .inl ⟨?_, rfl, rfl, rfl, fun _ _ => ⟨id, le_refl _, le_refl _⟩⟩
      rw [hpc]
      trivial
  | slot i y network hpc hpassed hkernel heq =>
      subst heq
      obtain ⟨hi, him⟩ := hinv.scanning i hpc
      refine h.keep (fun why => PollServer.scanFrom_ne_exited _ why) ?_
        fun j hj hjm hremaining hlive => .inl ?_
      · show (Function.update s.server.pfds i y.pfd 0).events = _
        rw [Function.update_of_ne (by omega)]
      · have hij : i + 1 ≤ j := remaining_scanFrom hremaining
        have hne : j ≠ i := by omega
        have hconn : Function.update s.server.conns i y.conn j = s.server.conns j :=
          Function.update_of_ne hne _ _
        change 0 ≤ (Function.update s.server.conns i y.conn j).fd at hlive
        rw [hconn] at hlive
        refine ⟨?_, hpassed.kept hinv hsingle hi him hj hjm hlive hne⟩
        rw [hpc]
        exact Nat.le_of_succ_le hij

/-- A client leaves the server as it is. -/
theorem clientStep_server {e : ClientEvent threads} (h : clientStep setup s e = some t) :
    t.server = s.server := by
  obtain ⟨_, _, rfl⟩ := Option.map_eq_some_iff.mp h
  rfl

variable (pool) in
/-- It takes the same step beside the pool. -/
theorem clientStep_some {e : ClientEvent threads} (h : clientStep setup s e = some t) :
    ThreadpoolLoad.step setup (s.beside pool) e.beside = some (t.beside pool) := by
  have hbeside : ThreadpoolLoad.step setup (s.beside pool) e.beside = _ := step_beside pool e
  rwa [h] at hbeside

theorem Ready.client (h : Ready maxClients s) (hsound : Sound setup (s.beside pool))
    {e : ClientEvent threads} (hstep : clientStep setup s e = some t) : Ready maxClients t := by
  have hserver := clientStep_server hstep
  have hbeside := clientStep_some pool hstep
  have hpeer : t.network.peer = s.network.peer := client_peer hsound hbeside
  refine h.keep (by rw [hserver]; exact h.running) (by rw [hserver])
    fun j hj hjm hremaining hlive => .inl ⟨by rwa [hserver] at hremaining, by rw [hserver],
      by rw [hserver], by rw [hpeer], fun k hk => ?_⟩
  have hpersists := client_persists hsound hbeside hk
  exact hpersists

end Step

/-! ## How long the pool stands still -/

/-- The steps to the end of the round. -/
def remaining (maxClients : Nat) : PollServer.Pc → Nat
  | .poll => 0
  | .accept => maxClients + 1
  | .scan i => maxClients + 1 - i
  | .exited _ => 0

/-- Something will be done before the round ends. -/
def Promises (maxClients : Nat) (s : State threads toServer toClient) : Prop :=
  s.server.pc = .accept ∧ s.network.backlog ≠ [] ∨
    ∃ j ∈ Finset.Icc 1 maxClients, Remaining s.server.pc j ∧ 0 ≤ (s.server.conns j).fd ∧
      (s.server.pfds j).revents ≠ noFlags

instance : (pc : PollServer.Pc) → (j : Nat) → Decidable (Remaining pc j)
  | .poll, _ => isFalse id
  | .accept, _ => isTrue trivial
  | .scan i, j => inferInstanceAs (Decidable (i ≤ j))
  | .exited _, _ => isFalse id

instance (s : State threads toServer toClient) : Decidable (Promises maxClients s) :=
  inferInstanceAs (Decidable (s.server.pc = .accept ∧ s.network.backlog ≠ [] ∨
    ∃ j ∈ Finset.Icc 1 maxClients, Remaining s.server.pc j ∧ 0 ≤ (s.server.conns j).fd ∧
      (s.server.pfds j).revents ≠ noFlags))

/-- The steps that the pool may stand still: to the end of the round, and of another
where nothing has to be done in this one. -/
def State.pos (maxClients : Nat) (s : State threads toServer toClient) : Nat :=
  remaining maxClients s.server.pc + if Promises maxClients s then 0 else maxClients + 2

theorem remaining_le (maxClients : Nat) (pc : PollServer.Pc) :
    remaining maxClients pc ≤ maxClients + 1 := by
  cases pc with
  | poll => exact Nat.zero_le _
  | accept => exact le_refl _
  | scan i => exact Nat.sub_le _ _
  | exited why => exact Nat.zero_le _

theorem remaining_scanFrom_eq (i : Nat) :
    remaining maxClients (PollServer.scanFrom maxClients i) = maxClients + 1 - i := by
  unfold PollServer.scanFrom
  split
  · rfl
  · show 0 = _
    omega

variable (maxClients) in
theorem pos_le (s : State threads toServer toClient) :
    s.pos maxClients + 1 ≤ 2 * maxClients + 4 := by
  have hle := remaining_le maxClients s.server.pc
  unfold State.pos
  split
  · omega
  · omega

/-- A step that the pool answers is paid for. -/
theorem pos_le_mul {n m : Nat} (hm : m ≠ 0) :
    s.pos maxClients + 1 ≤ n + (2 * maxClients + 4) * m :=
  calc s.pos maxClients + 1 ≤ 2 * maxClients + 4 := pos_le maxClients s
    _ ≤ (2 * maxClients + 4) * m := Nat.le_mul_of_pos_right _ (Nat.pos_of_ne_zero hm)
    _ ≤ n + (2 * maxClients + 4) * m := Nat.le_add_left _ n

/-- The round goes on with the same ahead of it. -/
theorem pos_step (hpc : remaining maxClients t.server.pc + 1 ≤ remaining maxClients s.server.pc)
    (hpromises : Promises maxClients s → Promises maxClients t) :
    t.pos maxClients + 1 ≤ s.pos maxClients := by
  unfold State.pos
  by_cases hs : Promises maxClients s
  · rw [if_pos hs, if_pos (hpromises hs)]
    omega
  · rw [if_neg hs]
    split
    · omega
    · omega

/-- A slot is still to be passed, and something was reported of it. -/
theorem promises_of_scan {i j : Nat} (hpc : t.server.pc = PollServer.scanFrom maxClients i)
    (hij : i ≤ j) (hj : 1 ≤ j) (hjm : j ≤ maxClients) (hlive : 0 ≤ (t.server.conns j).fd)
    (hflagged : (t.server.pfds j).revents ≠ noFlags) : Promises maxClients t := by
  refine .inr ⟨j, Finset.mem_Icc.mpr ⟨hj, hjm⟩, ?_, hlive, hflagged⟩
  rw [hpc, PollServer.scanFrom, if_pos (Nat.le_trans hij hjm)]
  exact hij

/-- Nobody waits, so the slots are ahead. -/
theorem promises_drained (hbacklog : s.network.backlog = []) (h : Promises maxClients s)
    (hpc : t.server.pc = PollServer.scanFrom maxClients 1)
    (hpfds : t.server.pfds = s.server.pfds) (hconns : t.server.conns = s.server.conns) :
    Promises maxClients t := by
  obtain ⟨_, hsome⟩ | ⟨j, hj, _, hlive, hflagged⟩ := h
  · exact absurd hbacklog hsome
  · obtain ⟨hone, hjm⟩ := Finset.mem_Icc.mp hj
    exact promises_of_scan hpc hone hone hjm (by rwa [hconns]) (by rwa [hpfds])

/-- A slot that is passed with nothing to be done leaves the rest of the round. -/
theorem promises_skipped {i : Nat} {y : Slot} {network : Network (Conn threads) toServer toClient}
    (hpc : s.server.pc = .scan i)
    (hskip : (s.server.conns i).fd < 0 ∨ (s.server.pfds i).revents = noFlags)
    (h : Promises maxClients s) : Promises maxClients (s.pass maxClients i y network) := by
  obtain ⟨haccept, _⟩ | ⟨j, hj, hremaining, hlive, hflagged⟩ := h
  · rw [hpc] at haccept
    cases haccept
  · rw [hpc] at hremaining
    obtain ⟨hone, hjm⟩ := Finset.mem_Icc.mp hj
    have hne : j ≠ i := by
      rintro rfl
      rcases hskip with hneg | hnone
      · exact absurd hlive (Int.not_le.mpr hneg)
      · exact hflagged hnone
    refine promises_of_scan rfl (Nat.lt_of_le_of_ne hremaining (Ne.symm hne)) hone hjm ?_ ?_
    · show 0 ≤ (Function.update s.server.conns i y.conn j).fd
      rwa [Function.update_of_ne hne]
    · show (Function.update s.server.pfds i y.pfd j).revents ≠ noFlags
      rwa [Function.update_of_ne hne]

/-- `poll` returns when there is something to be done. -/
theorem pos_poll (hinv : PollServer.Inv maxClients setup.base s.server) (hpc : s.server.pc = .poll)
    (hany : ∃ j ≤ maxClients, s.polled j ≠ noFlags) :
    State.pos maxClients { s with
      server := PollServer.pollStep maxClients s.server (.ok s.polled) } + 1 ≤
      s.pos maxClients := by
  have hidle : ¬ Promises maxClients s := by
    rintro (⟨haccept, _⟩ | ⟨j, _, hremaining, _⟩)
    · rw [hpc] at haccept
      cases haccept
    · rw [hpc] at hremaining
      exact hremaining
  have hpromises : Promises maxClients { s with
      server := PollServer.pollStep maxClients s.server (.ok s.polled) } := by
    by_cases hlistener : (s.polled 0).pollin = true
    · -- somebody has connected
      refine .inl ⟨if_pos hlistener, fun hempty => ?_⟩
      change s.network.backlog = [] at hempty
      rw [State.polled, if_pos rfl, hempty] at hlistener
      simp at hlistener
    · obtain ⟨j, hj, hflags⟩ := hany
      have hne : j ≠ 0 := by
        rintro rfl
        refine hflags ?_
        rw [State.polled, if_pos rfl] at hlistener ⊢
        simp only [Bool.not_eq_true] at hlistener
        rw [hlistener]
        rfl
      obtain ⟨k, _, hlive⟩ := exists_peer hne (flagged_cases hflags (polled_sound s j))
      have hone : 1 ≤ j := Nat.one_le_iff_ne_zero.mpr hne
      have hfd : (s.server.pfds j).fd = (s.server.conns j).fd := (hinv.slots j hone hj).fd_eq
      rw [hfd] at hlive
      exact promises_of_scan (if_neg hlistener) hone hone hj hlive hflags
  have hle := remaining_le maxClients (PollServer.pollStep maxClients s.server (.ok s.polled)).pc
  unfold State.pos
  rw [if_neg hidle, if_pos hpromises, hpc]
  exact Nat.le_trans (Nat.add_le_add_right hle 1) (Nat.le_add_left _ _)

/-! ## The thread pool goes along -/

section Pool

variable {pool : ThreadpoolServer.State maxClients}

/-- The pool goes along with a step of the server. -/
theorem Served.follow (hinv : PollServer.Inv maxClients setup.base s.server)
    (hmirrors : Mirrors s.server pool) (hsound : Sound setup (s.beside pool)) {e : ServerEvent}
    (hserved : Served setup maxClients s t e) (hadmits : Admits maxClients s (.server e)) :
    ∃ es pool', (ThreadpoolLoad.system setup maxClients toServer toClient).Run (s.beside pool)
        es (t.beside pool') ∧ Mirrors t.server pool' ∧ (∀ e' ∈ es, Answers (.server e) e') ∧
      t.pos maxClients + 1 ≤ s.pos maxClients + (2 * maxClients + 4) * es.length := by
  cases hserved with
  | poll hpc hany heq =>
      subst heq
      exact ⟨[], pool, .nil _,
        ⟨hmirrors.acceptor, hmirrors.queue, hmirrors.trace, hmirrors.workers⟩,
        fun _ he => absurd he List.not_mem_nil, pos_poll hinv hpc hany⟩
  | accept k rest i hpc hbacklog hkernel hi him hfree heq =>
      subst heq
      obtain ⟨w, rfl⟩ := exists_worker hi him
      obtain ⟨es, pool', hrun, hmirrors', hanswers, hsome⟩ :=
        hmirrors.accept hsound hbacklog hkernel hfree
      exact ⟨es, pool', hrun, hmirrors', hanswers,
        pos_le_mul fun hzero => hsome (List.length_eq_zero_iff.mp hzero)⟩
  | refuse k rest hpc hbacklog hfull heq =>
      obtain ⟨i, hi, him, hfree⟩ := hadmits
      exact absurd (hfull i hi him) (Int.not_le.mpr hfree)
  | drained hpc hbacklog heq =>
      subst heq
      refine ⟨[], pool, .nil _,
        ⟨hmirrors.acceptor, hmirrors.queue, hmirrors.trace, hmirrors.workers⟩,
        fun _ he => absurd he List.not_mem_nil,
        pos_step ?_ fun h => promises_drained hbacklog h rfl rfl rfl⟩
      dsimp only
      rw [remaining_scanFrom_eq, hpc]
      exact le_refl _
  | slot i y network hpc hpassed hkernel heq =>
      rename_i rd wr
      subst heq
      obtain ⟨hi, him⟩ := hinv.scanning i hpc
      obtain ⟨w, rfl⟩ := exists_worker hi him
      obtain ⟨es, pool', hrun, hmirrors', hanswers, hidle⟩ :=
        hpassed.run hmirrors wr (hinv.slots _ hi him) hkernel
          (PollServer.scanFrom maxClients (w + 1 + 1))
      refine ⟨es, pool', hrun, hmirrors', hanswers, ?_⟩
      by_cases hnil : es = []
      · have hskip := hidle hnil
        subst hnil
        refine pos_step ?_ (promises_skipped hpc hskip)
        show remaining maxClients (PollServer.scanFrom maxClients (w + 1 + 1)) + 1 ≤ _
        rw [remaining_scanFrom_eq, hpc]
        show _ ≤ maxClients + 1 - (w + 1)
        omega
      · exact pos_le_mul fun hzero => hnil (List.length_eq_zero_iff.mp hzero)

end Pool

/-- The runs in which whoever is accepted finds a slot. -/
abbrev accepting (setup : Setup threads) (maxClients : Nat) (listenFd : Int)
    (toServer toClient : Nat) : System (State threads toServer toClient) (Event threads) :=
  (system setup maxClients listenFd toServer toClient).restrict (Admits maxClients)

/-- Nobody is ever turned away. -/
def AlwaysAdmits (setup : Setup threads) (maxClients : Nat) (listenFd : Int)
    (toServer toClient : Nat) : Prop :=
  ∀ s e t, (accepting setup maxClients listenFd toServer toClient).Reachable s →
    step setup maxClients s e = some t → Admits maxClients s e

/-- A thread pool in the same situation. -/
structure Beside (maxClients : Nat) (s : State threads toServer toClient)
    (u : ThreadpoolLoad.State maxClients threads toServer toClient) : Prop where
  ready : Ready maxClients s
  pool : ∃ pool, Mirrors s.server pool ∧ u = s.beside pool

/-- The server's own invariant. -/
theorem reachable_server {listenFd : Int}
    (hs : (system setup maxClients listenFd toServer toClient).Reachable s) :
    (PollServer.system maxClients setup.base listenFd).Reachable s.server := by
  refine hs.induct (I := fun s =>
    (PollServer.system maxClients setup.base listenFd).Reachable s.server) ?_ ?_
  · rintro s rfl
    exact .start rfl
  · intro s e t _ h hstep
    obtain ⟨_, hmove⟩ := step_some hstep
    cases e with
    | server e =>
        obtain ⟨e', he'⟩ := serverStep_some hmove
        obtain ⟨server, network, hnext, hkernel, _, rfl⟩ := answered_some he'
        exact h.step ⟨hnext, hkernel⟩
    | client e =>
        rw [clientStep_server hmove]
        exact h
    | reset i =>
        obtain ⟨_, _, _, _, _, rfl⟩ := resetStep_some hmove
        exact h

/-- Nobody's connection is reset. -/
theorem no_reset {pool : ThreadpoolServer.State maxClients}
    (hsound : Sound setup (s.beside pool)) (i : Fin threads) : resetStep setup s i = none := by
  rw [Option.eq_none_iff_forall_ne_some]
  intro t hreset
  obtain ⟨w, done, hpc, hwrite, hdropped, _⟩ := resetStep_some hreset
  have hkept : s.network.dropped (s.clientSide.conn i) = false :=
    hsound.not_dropped hpc (by rw [hwrite]; simp)
  rw [hkept] at hdropped
  cases hdropped

theorem initial_beside (setup : Setup threads) (listenFd : Int) :
    Beside maxClients (initial setup listenFd : State threads toServer toClient)
      (ThreadpoolLoad.unvisited setup maxClients) where
  ready :=
    ⟨fun why hexit => (by cases hexit), rfl, fun j _ _ hremaining _ => hremaining.elim⟩
  pool := ⟨_, initial_mirrors maxClients listenFd, rfl⟩

/-- The `poll` server is a thread pool, at another pace. -/
theorem paced (hpayload : 0 < setup.client.payloadSize) (listenFd : Int) :
    System.Paced (accepting setup maxClients listenFd toServer toClient)
      (ThreadpoolLoad.system setup maxClients toServer toClient)
      (Beside maxClients) Answers (State.pos maxClients)
      (2 * maxClients + 4) where
  init := by
    rintro s rfl
    obtain ⟨es, hrun, _⟩ := ThreadpoolLoad.asleep_run toServer toClient setup
      (le_refl maxClients)
    exact ⟨_, hrun.reachable (.start rfl), initial_beside setup listenFd⟩
  step s u e t hs hu hbeside hnext := by
    obtain ⟨hready, pool, hmirrors, rfl⟩ := hbeside
    have hinv := PollServer.reachable_inv (reachable_server hs.of_restrict)
    have hsound := ThreadpoolLoad.reachable_sound hpayload hu
    have hsingle := ThreadpoolLoad.reachable_single hpayload hu
    obtain ⟨hnext, hadmits⟩ := hnext
    obtain ⟨_, hstep⟩ := step_some hnext
    cases e with
    | server e =>
        have hserved := serverStep_served hready hinv hstep
        obtain ⟨es, pool', hrun, hmirrors', hanswers, hpos⟩ :=
          hserved.follow hinv hmirrors hsound hadmits
        exact ⟨es, _, hrun, ⟨hready.served hinv hsingle hserved hadmits, pool', hmirrors', rfl⟩,
          hanswers, hpos⟩
    | client e =>
        have hserver := clientStep_server hstep
        refine ⟨[e.beside], _, .cons (clientStep_some pool hstep) (.nil _),
          ⟨hready.client hsound hstep, pool, hserver ▸ hmirrors, rfl⟩, fun e' he' => ?_,
          pos_le_mul (Nat.one_ne_zero)⟩
        rw [List.mem_singleton.mp he']
        exact .client e
    | reset i =>
        change resetStep setup s i = some t at hstep
        rw [no_reset hsound] at hstep
        cases hstep

/-- What is known of a state that can be reached. -/
structure Known (setup : Setup threads) (maxClients : Nat) (s : State threads toServer toClient)
    (pool : ThreadpoolServer.State maxClients) : Prop where
  alive : s.exited = false
  ready : Ready maxClients s
  inv : PollServer.Inv maxClients setup.base s.server
  kernel : KernelOk setup.base s.server.trace
  mirrors : Mirrors s.server pool
  reachable : (ThreadpoolLoad.system setup maxClients toServer toClient).Reachable
    (s.beside pool)
  sound : Sound setup (s.beside pool)
  single : ThreadpoolLoad.Single (s.beside pool)

/-- Nobody dies beside a thread pool. -/
theorem alive_beside (hpayload : 0 < setup.client.payloadSize)
    {pool : ThreadpoolServer.State maxClients}
    (hs : (ThreadpoolLoad.system setup maxClients toServer toClient).Reachable
      (s.beside pool)) : s.exited = false := by
  refine decide_eq_false ?_
  rintro ⟨i, hdied⟩
  have hthread : LoadClient.ThreadOk setup.client (setup.connections i) (s.clients i) :=
    ThreadpoolLoad.reachable_threads hpayload hs i
  unfold hasDied at hdied
  split at hdied
  · next w hpc =>
      have hrequest := (hthread.connected hpc).2.2
      split at hdied
      · next message hw =>
          rw [LoadClient.RequestOk, hw] at hrequest
          exact hrequest
      · cases hdied
  · cases hdied

/-- Beside a thread pool everything is known. -/
theorem Beside.known (hpayload : 0 < setup.client.payloadSize) {listenFd : Int}
    (hs : (system setup maxClients listenFd toServer toClient).Reachable s)
    {u : ThreadpoolLoad.State maxClients threads toServer toClient}
    (hu : (ThreadpoolLoad.system setup maxClients toServer toClient).Reachable u)
    (h : Beside maxClients s u) :
    ∃ pool, u = s.beside pool ∧ Known setup maxClients s pool := by
  obtain ⟨hready, pool, hmirrors, rfl⟩ := h
  have hserver := reachable_server hs
  exact ⟨pool, rfl, alive_beside hpayload hu, hready, PollServer.reachable_inv hserver,
    PollServer.reachable_kernelOk hserver, hmirrors, hu,
    ThreadpoolLoad.reachable_sound hpayload hu, ThreadpoolLoad.reachable_single hpayload hu⟩

theorem reachable_known (hpayload : 0 < setup.client.payloadSize) {listenFd : Int}
    (hs : (accepting setup maxClients listenFd toServer toClient).Reachable s) :
    ∃ pool, Known setup maxClients s pool := by
  obtain ⟨u, hu, hbeside⟩ := (paced hpayload listenFd).reachable hs
  obtain ⟨pool, _, hknown⟩ := hbeside.known hpayload hs.of_restrict hu
  exact ⟨pool, hknown⟩

end Model

end SysLab.PartB.PollLoad
