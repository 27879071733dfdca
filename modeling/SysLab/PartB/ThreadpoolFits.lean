import SysLab.PartB.ThreadpoolRuns

/-!
# When the benchmark of the thread-pool server completes

A payload that fits into the two buffers of a connection, with a byte to spare for the
worker, is always echoed (`completed_of_ended`).  One that does not fit can jam: if the
workers read a byte at a time, a client thread never gets its first payload written,
and whatever else is done, the run stops short of the end.
-/

namespace SysLab.PartB.ThreadpoolLoad

open SysLab.Foundation
open SysLab.PartB.LoadClient (Config Thread ThreadPc Worker sendBuf ThreadOk RequestOk bytesFor)
open Transcript (clients mem_clients)

section Model

variable {threadCount threads toServer toClient : Nat} {setup : Setup threads}
  {s t : State threadCount threads toServer toClient}

/-! ## A connection has one descriptor -/

/-- Nobody is twice in the backlog or among those accepted. -/
structure Single (s : State threadCount threads toServer toClient) : Prop where
  backlog : s.network.backlog.Nodup
  apart : ∀ fd, ∀ k ∈ s.network.backlog, s.network.peer fd ≠ some k
  peer : ∀ fd fd' k, s.network.peer fd = some k → s.network.peer fd' = some k → fd = fd'

theorem Served.single (h : Single s) {server : ThreadpoolServer.State threadCount}
    {network : Network (Conn threads) toServer toClient}
    (hserved : Served setup s server network) :
    Single { s with server := server, network := network } := by
  cases hserved with
  | quiet _ _ hnetwork =>
      subst hnetwork
      exact ⟨h.backlog, h.apart, h.peer⟩
  | read w fd k bytes inbound _ _ _ _ _ _ hnetwork =>
      subst hnetwork
      exact ⟨h.backlog, h.apart, h.peer⟩
  | write w fd k n done m chunk outbound _ _ _ _ _ _ _ _ hnetwork =>
      subst hnetwork
      exact ⟨h.backlog, h.apart, h.peer⟩
  | accept fd k rest _ _ hbacklog hnetwork =>
      have hnodup := h.backlog
      rw [hbacklog, List.nodup_cons] at hnodup
      have hnone : ∀ fd', s.network.peer fd' ≠ some k := fun fd' =>
        h.apart fd' k (by rw [hbacklog]; exact List.mem_cons_self)
      subst hnetwork
      refine ⟨hnodup.2, fun fd' k' hk' hpeer => ?_, fun fd₁ fd₂ k' h₁ h₂ => ?_⟩
      · change Function.update s.network.peer fd (some k) fd' = some k' at hpeer
        by_cases hfd : fd' = fd
        · subst hfd
          rw [Function.update_self] at hpeer
          cases hpeer
          exact hnodup.1 hk'
        · rw [Function.update_of_ne hfd] at hpeer
          exact h.apart fd' k' (by rw [hbacklog]; exact List.mem_cons_of_mem k hk') hpeer
      · change Function.update s.network.peer fd (some k) fd₁ = some k' at h₁
        change Function.update s.network.peer fd (some k) fd₂ = some k' at h₂
        by_cases hfd₁ : fd₁ = fd
        · subst hfd₁
          rw [Function.update_self] at h₁
          cases h₁
          by_contra hne
          rw [Function.update_of_ne (Ne.symm hne)] at h₂
          exact hnone fd₂ h₂
        · rw [Function.update_of_ne hfd₁] at h₁
          by_cases hfd₂ : fd₂ = fd
          · subst hfd₂
            rw [Function.update_self] at h₂
            cases h₂
            exact absurd h₁ (hnone fd₁)
          · rw [Function.update_of_ne hfd₂] at h₂
            exact h.peer fd₁ fd₂ k' h₁ h₂
  | eof w fd k _ _ _ _ _ hnetwork =>
      have hkept : ∀ fd' k', Function.update s.network.peer fd none fd' = some k' →
          s.network.peer fd' = some k' := by
        intro fd' k' hk'
        by_cases hfd : fd' = fd
        · subst hfd
          rw [Function.update_self] at hk'
          cases hk'
        · rwa [Function.update_of_ne hfd] at hk'
      subst hnetwork
      exact ⟨h.backlog, fun fd' k' hk' hpeer => h.apart fd' k' hk' (hkept fd' k' hpeer),
        fun fd₁ fd₂ k' h₁ h₂ => h.peer fd₁ fd₂ k' (hkept fd₁ k' h₁) (hkept fd₂ k' h₂)⟩

/-- A connection that is being made is not the server's yet. -/
theorem Single.connect (h : Single s) (hsound : Sound setup s) {i : Fin threads}
    {bytes : Nat} (hpc : (s.clients i).pc = .connecting bytes)
    (hstep : connectStep setup s i bytes = some t) : Single t := by
  have hnew : ¬ s.Made (s.conn i) := by
    rintro (hlt | ⟨_, w, hw⟩)
    · exact lt_irrefl _ hlt
    · change (s.clients i).pc = .connected w at hw
      rw [hpc] at hw
      cases hw
  obtain ⟨_, rfl⟩ := connectStep_some hstep
  refine ⟨?_, fun fd k hk hpeer => ?_, h.peer⟩
  · exact List.nodup_append.mpr ⟨h.backlog, List.nodup_singleton _, fun k hk k' hk' heq =>
      hnew (by
        rw [← List.mem_singleton.mp hk', ← heq]
        exact hsound.waiting k hk)⟩
  · rcases List.mem_append.mp hk with hmem | hmem
    · exact h.apart fd k hmem hpeer
    · rw [List.mem_singleton.mp hmem] at hpeer
      exact hnew (hsound.accepted fd _ hpeer)

theorem Single.step (h : Single s) (hsound : Sound setup s) {e : Event threadCount threads}
    (hstep : step setup s e = some t) : Single t := by
  cases hsound.stepped hstep with
  | server hserver =>
      obtain ⟨server, network, rfl, _, hserved⟩ := serverStep_served hsound.server hserver
      exact hserved.single h
  | connect hpc hconnect => exact h.connect hsound hpc hconnect
  | write _ _ hsent =>
      obtain ⟨_, _, inbound, _, rfl⟩ := writeStep_some hsent
      exact ⟨h.backlog, h.apart, h.peer⟩
  | read _ _ hreceived =>
      obtain ⟨bytes, outbound, _, _, _, _, rfl⟩ := readStep_some hreceived
      exact ⟨h.backlog, h.apart, h.peer⟩
  | next _ _ heq =>
      subst heq
      exact ⟨h.backlog, h.apart, h.peer⟩

theorem reachable_single (hpayload : 0 < setup.client.payloadSize)
    (hs : (system setup threadCount toServer toClient).Reachable s) : Single s := by
  refine hs.induct ?_ ?_
  · rintro s rfl
    refine ⟨List.nodup_nil, fun fd k hk => ?_, fun fd fd' k hpeer => ?_⟩
    · cases hk
    · cases hpeer
  · intro s e t hs h hstep
    exact h.step (reachable_sound hpayload hs) hstep

/-! ## A client that is kept waiting -/

/-- The workers read a byte at a time, client `i` reads nothing, and nobody wakes without a
signal. -/
def Slow (i : Fin threads) : Event threadCount threads → Prop
  | .server (.read _ (.ok bytes)) => bytes.length ≤ 1
  | .server (.spurious _) => False
  | .read j _ => j ≠ i
  | _ => True

/-- No worker has more than a byte to write. -/
def Slight (server : ThreadpoolServer.State threadCount) : Prop :=
  ∀ w fd n done, transfers server w = some (fd, n, done) → n ≤ 1

theorem slight_update {server server' : ThreadpoolServer.State threadCount}
    {w : Fin threadCount} {x : Option (Int × Nat × Nat)} (h : Slight server)
    (htransfers : transfers server' = Function.update (transfers server) w x)
    (hx : ∀ fd n done, x = some (fd, n, done) → n ≤ 1) : Slight server' := by
  intro v fd n done hv
  rw [htransfers] at hv
  by_cases hvw : v = w
  · subst hvw
    rw [Function.update_self] at hv
    exact hx fd n done hv
  · rw [Function.update_of_ne hvw] at hv
    exact h v fd n done hv

theorem transfers_worker {server server' : ThreadpoolServer.State threadCount}
    {w : Fin threadCount} {worker : ThreadpoolServer.Worker}
    (h : server'.workers = Function.update server.workers w worker) :
    transfers server' = Function.update (transfers server) w worker.pc.transfer := by
  funext v
  rw [transfers, h]
  by_cases hv : v = w
  · subst hv
    rw [Function.update_self, Function.update_self]
  · rw [Function.update_of_ne hv, Function.update_of_ne hv, transfers]

theorem Slight.readStep {server : ThreadpoolServer.State threadCount} (h : Slight server)
    (w : Fin threadCount) (fd : Int) {res : Except Errno (List UInt8)}
    (hres : ∀ bytes, res = .ok bytes → bytes.length ≤ 1) :
    Slight (ThreadpoolServer.readStep server w fd res) := by
  have hclose : ∀ trace, Slight (ThreadpoolServer.closeClient { server with trace := trace } w fd) :=
    fun trace => slight_update h (transfers_worker rfl) fun _ _ _ hx => by cases hx
  rcases res with e | bytes
  · rw [ThreadpoolServer.readStep]
    split
    · exact h
    · exact hclose _
  · cases bytes with
    | nil => exact hclose _
    | cons b bs =>
        have hlength := hres _ rfl
        refine slight_update h (transfers_worker rfl) fun fd' n done hx => ?_
        cases hx
        exact hlength

theorem Slight.writeStep {server : ThreadpoolServer.State threadCount} (h : Slight server)
    {w : Fin threadCount} {fd : Int} {n done : Nat}
    (hpc : (server.workers w).pc = .writing fd n done) (res : Except Errno Nat) :
    Slight (ThreadpoolServer.writeStep server w fd n done res) := by
  have hn : n ≤ 1 := h w fd n done (by rw [transfers, hpc]; rfl)
  have hclose : ∀ trace, Slight (ThreadpoolServer.closeClient { server with trace := trace } w fd) :=
    fun trace => slight_update h (transfers_worker rfl) fun _ _ _ hx => by cases hx
  rw [ThreadpoolServer.writeStep]
  split
  · refine slight_update h (transfers_worker rfl) fun fd' n' done' hx => ?_
    cases hx
    exact hn
  · split
    · exact slight_update h (transfers_worker rfl) fun _ _ _ hx => by cases hx
    · exact hclose _
  · exact hclose _

theorem Slight.step {i : Fin threads} {server server' : ThreadpoolServer.State threadCount}
    (h : Slight server) {e : ThreadpoolServer.Event threadCount}
    (hslow : Slow i (.server e : Event threadCount threads))
    (hstep : ThreadpoolServer.step server e = some server') : Slight server' := by
  by_cases hquiet : e.Quiet
  · intro v fd n done hv
    rw [transfers, (ThreadpoolServer.step_quiet hquiet hstep).2] at hv
    exact h v fd n done hv
  · rcases ThreadpoolServer.Event.not_quiet hquiet with
      ⟨res, rfl⟩ | rfl | ⟨w, res, rfl⟩ | ⟨w, res, rfl⟩
    · simp only [ThreadpoolServer.step] at hstep
      split at hstep
      · cases hstep
        rcases res with e | fd
        · exact h
        · exact h
      · cases hstep
    · simp only [ThreadpoolServer.step] at hstep
      split at hstep
      · cases hstep
        exact h
      · cases hstep
    · simp only [ThreadpoolServer.step] at hstep
      split at hstep
      · next fd _ =>
          cases hstep
          refine h.readStep w fd fun bytes hres => ?_
          subst hres
          exact hslow
      · cases hstep
    · simp only [ThreadpoolServer.step] at hstep
      split at hstep
      · next hpc =>
          cases hstep
          exact h.writeStep hpc res
      · cases hstep

/-- What the workers hold of a connection is with one of them. -/
theorem Slight.held_le (h : Slight s.server) (hsingle : Single s) (hsound : Sound setup s)
    (k : Conn threads) : held s.network.peer k (transfers s.server) ≤ 1 := by
  by_cases hpos : 0 < held s.network.peer k (transfers s.server)
  · obtain ⟨w, fd, n, done, hw, hpeer, _⟩ := exists_of_held_pos hpos
    have hothers : ∀ v ∈ Finset.univ, v ≠ w →
        heldFor s.network.peer k (transfers s.server v) = 0 := by
      intro v _ hvw
      cases hv : transfers s.server v with
      | none => rfl
      | some x =>
          obtain ⟨fd', n', done'⟩ := x
          rw [heldFor, if_neg]
          intro hpeer'
          have hfd := hsingle.peer fd' fd k hpeer' hpeer
          subst hfd
          exact hvw ((ThreadpoolServer.reachable_serving hsound.server
            (serving_of_transfer hw)).2 v (serving_of_transfer hv))
    have hle := h w fd n done hw
    rw [held, Finset.sum_eq_single w hothers (fun hw => absurd (Finset.mem_univ w) hw), hw,
      heldFor, if_pos hpeer]
    omega
  · omega

/-- The client has not got its first payload written. -/
structure Unread (i : Fin threads) (s : State threadCount threads toServer toClient) :
    Prop where
  index : (s.clients i).connIndex = 0
  pc : (∃ bytes, (s.clients i).pc = .connecting bytes) ∨
    ∃ w done, (s.clients i).pc = .connected w ∧ w.pc = .writeFull done
  slight : Slight s.server

theorem Unread.of_clients {i : Fin threads} (h : Unread i s)
    (hclient : t.clients i = s.clients i) (hslight : Slight t.server) : Unread i t := by
  refine ⟨?_, ?_, hslight⟩
  · rw [hclient]
    exact h.index
  · rw [hclient]
    exact h.pc

/-- A payload that does not fit is not all on the way when the workers hold a byte. -/
theorem not_receiving (hpayload : 0 < setup.client.payloadSize)
    (hlong : toServer + toClient + 1 < setup.client.payloadSize)
    (hs : (system setup threadCount toServer toClient).Reachable s) (hslight : Slight s.server)
    {i : Fin threads} {w : Worker} (hpc : (s.clients i).pc = .connected w) :
    w.pc ≠ .readFull 0 := by
  intro hread
  have hsound := reachable_sound hpayload hs
  have hbalanced := hsound.balanced (s.conn i)
  have hphase : (s.view (s.conn i)).phase = .receiving 0 := by
    rw [State.view, worker_conn hpc, Option.elim_some, hread]
    rfl
  have hsum := (hbalanced.receiving 0 hphase).2
  have hin : (s.view (s.conn i)).inbound ≤ toServer := hbalanced.inbound
  have hout : (s.view (s.conn i)).outbound ≤ toClient := hbalanced.outbound
  have hheld : (s.view (s.conn i)).held ≤ 1 :=
    hslight.held_le (reachable_single hpayload hs) hsound (s.conn i)
  change _ = setup.client.payloadSize at hsum
  omega

/-- It never does. -/
theorem Unread.step {i : Fin threads} (hrequests : 0 < setup.client.requestsPerConnection)
    (hpayload : 0 < setup.client.payloadSize)
    (hlong : toServer + toClient + 1 < setup.client.payloadSize)
    (hs : (system setup threadCount toServer toClient).Reachable s) (h : Unread i s)
    {e : Event threadCount threads} (hslow : Slow i e)
    (hstep : ThreadpoolLoad.step setup s e = some t) : Unread i t := by
  have ht := hs.step hstep
  have hsound := reachable_sound hpayload hs
  cases hsound.stepped hstep with
  | server hserver =>
      obtain ⟨_, server, network, hnext, _, _, rfl⟩ := serverStep_some hserver
      exact ⟨h.index, h.pc, h.slight.step hslow hnext⟩
  | connect hpc hconnect =>
      rename_i j bytes
      obtain ⟨network, _, rfl⟩ := Option.map_eq_some_iff.mp hconnect
      by_cases hij : i = j
      · subst hij
        have hself := clients_setPc_self (s := s) (i := i)
          (.connected (.start setup.client bytes))
        refine ⟨?_, .inr ⟨.start setup.client bytes, 0, ?_, if_pos hrequests⟩, h.slight⟩
        · show ((s.setPc i _).clients i).connIndex = 0
          rw [hself]
          exact h.index
        · show ((s.setPc i _).clients i).pc = _
          rw [hself]
      · exact h.of_clients (clients_setPc_of_ne _ hij) h.slight
  | write hpc hwrite hsent =>
      rename_i j n done w
      obtain ⟨hn, hdone, inbound, _, rfl⟩ := writeStep_some hsent
      by_cases hij : i = j
      · subst hij
        have hself := clients_setPc_self (s := s) (i := i)
          (.connected (w.wrote setup.client done (.ok n)))
        have hwrote := LoadClient.wrote_ok (w := w) hn hdone
        split at hwrote
        · refine ⟨?_, .inr ⟨w.wrote setup.client done (.ok n), done + n, ?_, ?_⟩, h.slight⟩
          · show ((s.setPc i _).clients i).connIndex = 0
            rw [hself]
            exact h.index
          · show ((s.setPc i _).clients i).pc = _
            rw [hself]
          · rw [hwrote]
        · -- the whole payload would have to be on the way
          exfalso
          refine not_receiving (i := i) (w := w.wrote setup.client done (.ok n)) hpayload hlong
            ht h.slight ?_ ?_
          · show ((s.setPc i _).clients i).pc = _
            rw [hself]
          · rw [hwrote]
      · exact h.of_clients (clients_setPc_of_ne _ hij) h.slight
  | read hpc hread hreceived =>
      rename_i j n done w
      obtain ⟨bytes, outbound, _, _, _, _, rfl⟩ := readStep_some hreceived
      exact h.of_clients (clients_setPc_of_ne _ (Ne.symm hslow)) h.slight
  | next hpc hclosed heq =>
      rename_i j w
      subst heq
      have hij : i ≠ j := by
        rintro rfl
        rcases h.pc with ⟨bytes, hpc'⟩ | ⟨w', done, hpc', hwrite⟩
        · rw [hpc] at hpc'
          cases hpc'
        · rw [hpc] at hpc'
          cases hpc'
          rw [hclosed] at hwrite
          cases hwrite
      exact h.of_clients (clients_nextStep_of_ne hij) h.slight

theorem initial_unread {i : Fin threads} (hconnections : 0 < setup.connections i) :
    Unread i (initial setup : State threadCount threads toServer toClient) := by
  refine ⟨rfl, .inl ⟨0, if_pos hconnections⟩, fun w fd n done hw => ?_⟩
  cases hw

/-- A worker that could read more bytes could read one. -/
theorem exists_slow_read (hsound : Sound setup s) {w : Fin threadCount} {bytes : List UInt8}
    (hbytes : 0 < bytes.length) (hstep : serverStep setup s (.read w (.ok bytes)) = some t) :
    ∃ b u, step setup s (.server (.read w (.ok [b]))) = some u := by
  obtain ⟨_, server, network, hread, _, hanswers, _⟩ := serverStep_some hstep
  simp only [ThreadpoolServer.step] at hread
  split at hread
  · next fd hpc =>
      cases hread
      obtain ⟨b, bs, rfl⟩ := List.exists_cons_of_length_pos hbytes
      obtain ⟨k, hpeer, hread⟩ := Option.bind_eq_some_iff.mp
        (show (s.network.peer fd).bind (fun k => s.network.answerRead s.isOpen k (b :: bs)) =
          some network from answers_calls [.read fd 4096 (.ok (b :: bs))] rfl hanswers)
      rw [Network.answerRead, if_neg (List.cons_ne_nil b bs)] at hread
      split at hread
      · cases hread
      · next taken inbound hpop =>
          have hlength := Channel.length_pop hpop
          exact exists_readStep hsound hpc hpeer (by omega)
  · cases hread

/-- A payload that does not fit may never be echoed. -/
theorem exists_jam {i : Fin threads} (hrequests : 0 < setup.client.requestsPerConnection)
    (hconnections : 0 < setup.connections i)
    (hlong : toServer + toClient + 1 < setup.client.payloadSize) :
    ∃ s, (system setup threadCount toServer toClient).Reachable s ∧ Ended setup s ∧
      ¬ Completed setup s := by
  have hpayload : 0 < setup.client.payloadSize := by omega
  let T := (system setup threadCount toServer toClient).restrict fun _ e => Slow i e
  have hstart : T.Reachable (initial setup) := .start rfl
  have hless : ∀ s e t, T.Reachable s → T.next s e t → t.rank setup < s.rank setup := by
    intro s e t hs hnext
    have hrank := step_rank hpayload hs.of_restrict hnext.1
    have hgrant : e.grant = 0 := by
      unfold Event.grant
      split
      · exact absurd hnext.2 id
      · rfl
    omega
  obtain ⟨es, s, hrun, hlast⟩ := hstart.exists_last hless
  have hslow := hrun.reachable hstart
  have hs := hslow.of_restrict
  have hunread : Unread i s := by
    refine hslow.induct ?_ ?_
    · rintro s rfl
      exact initial_unread hconnections
    · intro s e t hs h hnext
      exact h.step hrequests hpayload hlong hs.of_restrict hnext.2 hnext.1
  have hsound := reachable_sound hpayload hs
  refine ⟨s, hs, fun e t hstep => ?_, fun hcompleted => ?_⟩
  · by_contra hspurious
    have hnot : ¬ Slow i e := fun hslow => hlast ⟨e, t, hstep, hslow⟩
    unfold Slow at hnot
    split at hnot
    · next w bytes =>
        obtain ⟨b, u, hread⟩ := exists_slow_read hsound (by omega) hstep
        exact hlast ⟨_, u, hread, le_refl 1⟩
    · next w => exact hspurious ⟨w, rfl⟩
    · next j n =>
        obtain rfl := not_not.mp hnot
        cases hsound.stepped hstep with
        | read hpc hread _ =>
            rcases hunread.pc with ⟨bytes, hpc'⟩ | ⟨w', done', hpc', hwrite⟩
            · rw [hpc] at hpc'
              cases hpc'
            · rw [hpc] at hpc'
              cases hpc'
              rw [hread] at hwrite
              cases hwrite
    · exact hnot trivial
  · have hreturned := congrArg Thread.pc (hcompleted.threads i)
    rcases hunread.pc with ⟨bytes, hpc⟩ | ⟨w, done, hpc, _⟩
    · rw [hpc] at hreturned
      cases hreturned
    · rw [hpc] at hreturned
      cases hreturned

/-- For any number of workers and of client threads with any numbers of connections: a
run has no more steps than its connections cost, but for two for each worker woken
without a signal.  Every run that stops has completed all requests, with every client
thread returned and every connection closed, if and only if a payload fits into the
two buffers of a connection with a byte to spare. -/
theorem load_completes_iff (hworkers : 1 ≤ threadCount)
    (hrequests : 1 ≤ setup.client.requestsPerConnection)
    (hconnections : ∃ i, 1 ≤ setup.connections i) (hpayload : 1 ≤ setup.client.payloadSize)
    (hserver : 1 ≤ toServer) (hclient : 1 ≤ toClient) (hbacklog : 1 ≤ setup.backlog) :
    (∀ es s, (system setup threadCount toServer toClient).Run (initial setup) es s →
      es.length ≤ (∑ i, setup.connections i) * (threadCount + 8 +
        4 * (setup.client.requestsPerConnection * setup.client.payloadSize)) + threadCount +
          System.spent Event.grant es) ∧
    ((∀ s, (system setup threadCount toServer toClient).Reachable s → Ended setup s →
      Completed setup s) ↔ setup.client.payloadSize ≤ toServer + toClient + 1) := by
  refine ⟨fun es s hrun => ?_, fun hall => ?_, fun hfits s hs hended => ?_⟩
  · have hlength : es.length + s.rank setup ≤
        State.rank setup (initial setup) + System.spent Event.grant es :=
      hrun.length_le_grants (fun s e t hs hstep => step_rank hpayload hs hstep) (.start rfl)
    have hinitial : (initial setup : State threadCount threads toServer toClient).rank setup ≤
        _ := initial_rank setup
    unfold connectionSteps at hinitial
    omega
  · by_contra hlong
    obtain ⟨i, hi⟩ := hconnections
    obtain ⟨s, hs, hended, hnot⟩ :
        ∃ s, (system setup threadCount toServer toClient).Reachable s ∧ Ended setup s ∧
          ¬ Completed setup s := exists_jam hrequests hi (Nat.lt_of_not_le hlong)
    exact hnot (hall s hs hended)
  · exact completed_of_ended hworkers hpayload hserver hclient hbacklog hfits hs hended

end Model

/-- Two clients with a connection each, and one worker for both: three bytes fit. -/
theorem load_completes_two : 3 ≤ 1 + 1 + 1 ∧
    ∀ s, (system (⟨⟨3, 1⟩, fun _ => 1, 256, ∅⟩ : Setup 2) 1 1 1).Reachable s →
      Ended ⟨⟨3, 1⟩, fun _ => 1, 256, ∅⟩ s → Completed ⟨⟨3, 1⟩, fun _ => 1, 256, ∅⟩ s := by
  have hfits : 3 ≤ 1 + 1 + 1 := by decide
  have hone : 1 ≤ 1 := by decide
  have hpayload : 1 ≤ 3 := by decide
  have hbacklog : 1 ≤ 256 := by decide
  exact ⟨hfits, (load_completes_iff hone hone ⟨0, hone⟩ hpayload hone hone hbacklog).2.mpr
    hfits⟩

end SysLab.PartB.ThreadpoolLoad
