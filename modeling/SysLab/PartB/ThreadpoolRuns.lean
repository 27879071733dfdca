import SysLab.Foundation.RelayWork
import SysLab.PartB.LoadPartition
import SysLab.PartB.ThreadpoolLive
import SysLab.PartB.ThreadpoolRank

/-!
# Runs of the load client against the thread-pool server

How long client threads, main thread and workers can go on, and where they stop.
Apart from workers woken without a signal there is only so much to do: each
connection is made, handed to a worker and closed once, and each byte of a payload
is moved four times.  When nobody can go on everything is done.
-/

namespace SysLab.PartB.ThreadpoolLoad

open SysLab.Foundation
open SysLab.PartB.LoadClient (Config Thread ThreadPc Worker sendBuf ThreadOk RequestOk bytesFor)
open Transcript (clients mem_clients)

section Model

variable {threadCount threads toServer toClient : Nat} {setup : Setup threads}
  {s t : State threadCount threads toServer toClient}

/-! ## What a step can be -/

/-- The server never closes a connection first, so no client sees the end of a stream. -/
inductive Stepped (setup : Setup threads) (s t : State threadCount threads toServer toClient) :
    Event threadCount threads → Prop
  | server {e : ThreadpoolServer.Event threadCount} :
      serverStep setup s e = some t → Stepped setup s t (.server e)
  | connect {i : Fin threads} {bytes : Nat} : (s.clients i).pc = .connecting bytes →
      connectStep setup s i bytes = some t → Stepped setup s t (.connect i)
  | write {i : Fin threads} {n done : Nat} {w : Worker} : (s.clients i).pc = .connected w →
      w.pc = .writeFull done → writeStep setup s i w done n = some t →
      Stepped setup s t (.write i n)
  | read {i : Fin threads} {n done : Nat} {w : Worker} : (s.clients i).pc = .connected w →
      w.pc = .readFull done → readStep setup s i w done n = some t →
      Stepped setup s t (.read i n)
  | next {i : Fin threads} {w : Worker} : (s.clients i).pc = .connected w →
      w.pc = .closed → t = nextStep setup s i w → Stepped setup s t (.next i)

theorem Sound.stepped (h : Sound setup s) {e : Event threadCount threads}
    (hstep : ThreadpoolLoad.step setup s e = some t) : Stepped setup s t e := by
  cases e with
  | server e => exact .server hstep
  | connect i =>
      simp only [ThreadpoolLoad.step] at hstep
      split at hstep
      · next bytes hpc => exact .connect hpc hstep
      · cases hstep
  | write i n =>
      simp only [ThreadpoolLoad.step] at hstep
      split at hstep
      · next w hpc =>
          split at hstep
          · next done hwrite => exact .write hpc hwrite hstep
          · cases hstep
      · cases hstep
  | read i n =>
      simp only [ThreadpoolLoad.step] at hstep
      split at hstep
      · next w hpc =>
          split at hstep
          · next done hread => exact .read hpc hread hstep
          · cases hstep
      · cases hstep
  | eof i =>
      simp only [ThreadpoolLoad.step] at hstep
      split at hstep
      · next w hpc =>
          split at hstep
          · next done hread =>
              have hkept := h.not_dropped hpc (by simp [hread])
              simp only [eofStep, hkept, Bool.false_eq_true, false_and, if_false] at hstep
              cases hstep
          · cases hstep
      · cases hstep
  | next i =>
      simp only [ThreadpoolLoad.step] at hstep
      split at hstep
      · next w hpc =>
          split at hstep
          · next hclosed =>
              cases hstep
              exact .next hpc hclosed rfl
          · cases hstep
      · cases hstep

/-- The `write` of a client. -/
theorem writeStep_some {i : Fin threads} {w : Worker} {done n : Nat}
    (hstep : writeStep setup s i w done n = some t) :
    0 < n ∧ done + n ≤ setup.client.payloadSize ∧
      ∃ inbound : Channel UInt8 toServer,
        inbound.length = (s.network.inbound (s.conn i)).length + n ∧
        t = { s.setPc i (.connected (w.wrote setup.client done (.ok n))) with
          network := { s.network with
            inbound := Function.update s.network.inbound (s.conn i) inbound } } := by
  unfold writeStep at hstep
  split at hstep
  · next hguard =>
      obtain ⟨network, hsend, rfl⟩ := Option.map_eq_some_iff.mp hstep
      obtain ⟨inbound, hpush, rfl⟩ := Option.map_eq_some_iff.mp hsend
      have hlength := Channel.length_push hpush
      rw [LoadClient.length_chunk hguard.2] at hlength
      exact ⟨hguard.1, hguard.2, inbound, hlength, rfl⟩
  · cases hstep

/-- Its `read`. -/
theorem readStep_some {i : Fin threads} {w : Worker} {done n : Nat}
    (hstep : readStep setup s i w done n = some t) :
    ∃ (bytes : List UInt8) (outbound : Channel UInt8 toClient), n = bytes.length ∧
      0 < bytes.length ∧ done + bytes.length ≤ setup.client.payloadSize ∧
      (s.network.outbound (s.conn i)).length = bytes.length + outbound.length ∧
      t = { s.setPc i (.connected (w.received setup.client done (.ok bytes))) with
        network := { s.network with
          outbound := Function.update s.network.outbound (s.conn i) outbound } } := by
  unfold readStep at hstep
  split at hstep
  · next hguard =>
      obtain ⟨⟨bytes, network⟩, hreceive, rfl⟩ := Option.map_eq_some_iff.mp hstep
      obtain ⟨⟨taken, outbound⟩, hpop, heq⟩ := Option.map_eq_some_iff.mp hreceive
      cases heq
      have hbytes := (Channel.pop_some hpop).1
      subst hbytes
      exact ⟨bytes, outbound, rfl, hguard.1, hguard.2, Channel.length_pop hpop, rfl⟩
  · cases hstep

/-! ## Where the client threads stand -/

/-- A thread goes on with a connection. -/
theorem threadOk_connected {i : Fin threads} {w : Worker}
    (h : ∀ j, ThreadOk setup.client (setup.connections j) (s.clients j))
    (hlt : (s.clients i).connIndex < setup.connections i)
    (hbytes : w.bytesCompleted = bytesFor setup.client
      ((s.clients i).connIndex * setup.client.requestsPerConnection + w.req))
    (hrequest : RequestOk setup.client w) (j : Fin threads) :
    ThreadOk setup.client (setup.connections j)
      ((s.setPc i (.connected w)).clients j) := by
  by_cases hj : j = i
  · subst hj
    rw [clients_setPc_self]
    exact ⟨hlt, hbytes, hrequest⟩
  · rw [clients_setPc_of_ne _ hj]
    exact h j

/-- The requests behind a thread that is on a connection. -/
theorem bytes_connected {i : Fin threads} {w : Worker}
    (h : ThreadOk setup.client (setup.connections i) (s.clients i))
    (hpc : (s.clients i).pc = .connected w) :
    w.bytesCompleted = bytesFor setup.client
      ((s.clients i).connIndex * setup.client.requestsPerConnection + w.req) := by
  rw [(h.connected hpc).2.1, Thread.completed, hpc]

theorem step_threads (hpayload : 0 < setup.client.payloadSize) (hsound : Sound setup s)
    (h : ∀ i, ThreadOk setup.client (setup.connections i) (s.clients i))
    {e : Event threadCount threads} (hstep : step setup s e = some t) (i : Fin threads) :
    ThreadOk setup.client (setup.connections i) (t.clients i) := by
  cases hsound.stepped hstep with
  | server hserver =>
      obtain ⟨_, server, network, _, _, _, rfl⟩ := serverStep_some hserver
      exact h i
  | connect hpc hconnect =>
      rename_i j bytes
      obtain ⟨network, _, rfl⟩ := Option.map_eq_some_iff.mp hconnect
      obtain ⟨hlt, hbytes⟩ := (h j).connecting hpc
      refine threadOk_connected h hlt ?_
        (LoadClient.request_loopTest hpayload rfl (Nat.zero_le _)) i
      refine hbytes.trans ?_
      rw [Thread.completed, hpc]
      rfl
  | write hpc hwrite hsent =>
      rename_i j n done w
      obtain ⟨hn, hdone, inbound, _, rfl⟩ := writeStep_some hsent
      obtain ⟨hlt, _, hok⟩ := (h j).connected hpc
      have halive := (LockStep.wrote_phase (w := w) toServer toClient hn hdone).2.2
      rcases LoadClient.wrote_cases setup.client hpayload w done (.ok n) with
        ⟨message, hdied⟩ | ⟨hreq, hbytes, done', hdone', hpc'⟩
      · exact absurd hdied (halive message)
      · refine threadOk_connected h hlt ?_ (.of_moving hpc' ?_ hdone') i
        · rw [hbytes, hreq]
          exact bytes_connected (h j) hpc
        · rw [hreq]
          exact (hok.writing hwrite).1
  | read hpc hread hreceived =>
      rename_i j n done w
      obtain ⟨bytes, outbound, _, hn, hdone, _, rfl⟩ := readStep_some hreceived
      obtain ⟨hlt, _, hok⟩ := (h j).connected hpc
      have hrequest := (hok.reading hread).1
      have halive := (LockStep.received_phase (w := w) toServer toClient hn hdone).2
      rcases LoadClient.received_cases setup.client w done (.ok bytes) with
        ⟨message, hdied, _⟩ | ⟨hreq, hbytes, done', hdone', hpc'⟩ | ⟨hreq, hbytes, hpc'⟩
      · exact absurd hdied (halive message)
      · refine threadOk_connected h hlt ?_ (.of_moving (.inr hpc') ?_ hdone') i
        · rw [hbytes, hreq]
          exact bytes_connected (h j) hpc
        · rw [hreq]
          exact hrequest
      · refine threadOk_connected h hlt ?_ (LoadClient.request_loopTest hpayload ?_ ?_) i
        · rw [hbytes, bytes_connected (h j) hpc, LoadClient.bytesFor_succ, hreq, Nat.add_assoc]
        · rw [hpc', hreq]
        · rw [hreq]
          exact hrequest
  | next hpc hclosed heq =>
      rename_i j w
      subst heq
      by_cases hij : i = j
      · subst hij
        obtain ⟨hlt, hcompleted, hok⟩ := (h i).connected hpc
        have hall : (s.clients i).completed setup.client =
            ((s.clients i).connIndex + 1) * setup.client.requestsPerConnection := by
          rw [Thread.completed, hpc, Nat.succ_mul]
          dsimp only
          rw [hok.closed hclosed]
        rw [hall] at hcompleted
        rw [clients_nextStep, hcompleted]
        exact (LoadClient.thread_loopTest setup.client hlt).1
      · rw [clients_nextStep_of_ne hij]
        exact h i

/-- The threads are at one of their connections, with all that they have completed
counted. -/
theorem reachable_threads (hpayload : 0 < setup.client.payloadSize)
    (hs : (system setup threadCount toServer toClient).Reachable s) (i : Fin threads) :
    ThreadOk setup.client (setup.connections i) (s.clients i) := by
  refine hs.induct (I := fun s => ∀ i, ThreadOk setup.client (setup.connections i)
    (s.clients i)) ?_ ?_ i
  · rintro s rfl i
    have hzero : bytesFor setup.client (0 * setup.client.requestsPerConnection) = 0 := by
      rw [Nat.zero_mul]
      rfl
    have hfirst := (LoadClient.thread_loopTest setup.client
      (Nat.zero_le (setup.connections i))).1
    rw [hzero] at hfirst
    exact hfirst
  · intro s e t hs h hstep
    exact step_threads hpayload (reachable_sound hpayload hs) h hstep

/-! ## What is left to do -/

/-- What a connection costs: to be made, accepted, handed over, closed at both ends, and
four moves for each byte. -/
def connectionSteps (setup : Setup threads) (threadCount : Nat) : Nat :=
  threadCount + 8 + 4 * (setup.client.requestsPerConnection * setup.client.payloadSize)

/-- The moves that are left to the bytes of a connection. -/
def State.work (setup : Setup threads) (s : State threadCount threads toServer toClient)
    (k : Conn threads) : Nat :=
  Relay.work (LockStep.relay setup.client toServer toClient) (s.view k)

def State.threadRank (setup : Setup threads)
    (s : State threadCount threads toServer toClient) (i : Fin threads) : Nat :=
  match (s.clients i).pc with
  | .connecting _ =>
      (setup.connections i - (s.clients i).connIndex) * connectionSteps setup threadCount
  | .connected _ =>
      (setup.connections i - ((s.clients i).connIndex + 1)) *
        connectionSteps setup threadCount + 1 + s.work setup (s.conn i)
  | .returned _ => 0

/-- The steps that are left, but for those of workers woken without a signal. -/
def State.rank (setup : Setup threads) (s : State threadCount threads toServer toClient) :
    Nat :=
  ∑ i, s.threadRank setup i + (threadCount + 6) * s.network.backlog.length + s.server.rank

/-- A worker that wakes without a signal may go back to sleep. -/
def Event.grant : Event threadCount threads → Nat
  | .server (.spurious _) => 2
  | _ => 0

/-- A thread that is not moved, nor a byte of its connection. -/
theorem threadRank_le {i : Fin threads} (hclient : t.clients i = s.clients i)
    (hwork : t.work setup (s.conn i) ≤ s.work setup (s.conn i)) :
    t.threadRank setup i ≤ s.threadRank setup i := by
  have hconn : t.conn i = s.conn i := by
    rw [State.conn, hclient, State.conn]
  unfold State.threadRank
  rw [hclient]
  split
  · exact le_refl _
  · rw [hconn]
    exact Nat.add_le_add_left hwork _
  · exact le_refl _

theorem threadRank_connected {i : Fin threads} {w : Worker}
    (hpc : (s.clients i).pc = .connected w) :
    s.threadRank setup i = (setup.connections i - ((s.clients i).connIndex + 1)) *
      connectionSteps setup threadCount + 1 + s.work setup (s.conn i) := by
  rw [State.threadRank, hpc]

/-- Where bytes are under way, a client thread is on the connection. -/
theorem Sound.connected_of_bytes (h : Sound setup s) {k : Conn threads}
    (hbytes : 0 < (s.view k).inbound + (s.view k).held + (s.view k).outbound) :
    ∃ w, (s.clients k.1).pc = .connected w ∧ k = s.conn k.1 := by
  rcases h.phase_cases k with ⟨w, _, hpc, hconn, _⟩ | ⟨w, _, hpc, hconn, _⟩ | ⟨_, hphase⟩
  · exact ⟨w, hpc, hconn⟩
  · exact ⟨w, hpc, hconn⟩
  · have hnone := (h.balanced k).finished hphase
    omega

/-! ## A step of the server -/

theorem faultless_accept {e : ThreadpoolServer.Event threadCount} (h : faultless e = true)
    (err : Errno) : e ≠ .accept (.error err) := by
  rintro rfl
  cases h

/-- A step of the server uses something up. -/
theorem serverStep_rank (h : Sound setup s) {e : ThreadpoolServer.Event threadCount}
    (hstep : serverStep setup s e = some t) :
    t.rank setup + 1 ≤ s.rank setup + (Event.server e : Event threadCount threads).grant := by
  obtain ⟨hfaultless, _⟩ := serverStep_some hstep
  obtain ⟨server, network, rfl, hnext, hserved⟩ := serverStep_served h.server hstep
  have hspends := ThreadpoolServer.step_spends h.server hnext (faultless_accept hfaultless)
  obtain ⟨n, m, hpasses, hchange⟩ := hserved.passes h hnext.2
  have hwork : ∀ k, State.work setup { s with server := server, network := network } k +
      (n k + m k) = s.work setup k := fun k => (hpasses k).work
  have hle : ∀ i, State.threadRank setup { s with server := server, network := network } i ≤
      s.threadRank setup i := fun i => threadRank_le rfl (by
    rw [← hwork]
    exact Nat.le_add_right _ _)
  have hsum := Finset.sum_le_sum fun i (_ : i ∈ Finset.univ) => hle i
  have hclients : ∀ fd, server.trace = .accept fd :: s.server.trace →
      fd ∉ clients setup.base s.server.trace ∧
        clients setup.base server.trace = insert fd (clients setup.base s.server.trace) := by
    intro fd htrace
    have hnew := hnext.2
    rw [htrace] at hnew
    rw [htrace, Transcript.clients_accept fun hmem => hnew.1.2
      (Transcript.Lawful.base_subset (ThreadpoolServer.reachable_lawful h.server) hmem)]
    exact ⟨fun hmem => hnew.1.2 (mem_clients.mp hmem).1, rfl⟩
  unfold State.rank
  rcases hchange with ⟨fd, k, htrace, hbacklog⟩ | ⟨hbacklog, hchange⟩
  · -- whoever is accepted leaves the backlog
    rw [hbacklog, List.length_cons, Nat.mul_succ]
    cases hspends with
    | down hdown =>
        dsimp only
        omega
    | spurious w hw hup hsame =>
        subst hw
        simp only [Event.grant]
        omega
    | accepted fd' htrace' hup =>
        dsimp only
        omega
    | moved c htrace' hclients' hmoved =>
        dsimp only
        omega
  · rw [hbacklog]
    have hquiet : server.trace = s.server.trace ∨ clients setup.base server.trace ⊆
        clients setup.base s.server.trace := by
      rcases hchange with hsame | ⟨fd, _, herase⟩ | ⟨hsame, _⟩
      · exact .inl hsame
      · exact .inr (herase ▸ Finset.erase_subset _ _)
      · exact .inr (Finset.subset_of_eq hsame)
    cases hspends with
    | down hdown =>
        dsimp only
        omega
    | spurious w hw hup hsame =>
        subst hw
        simp only [Event.grant]
        omega
    | accepted fd htrace hup =>
        exfalso
        obtain ⟨hnew, hinsert⟩ := hclients fd htrace
        rcases hquiet with hsame | hsub
        · exact List.cons_ne_self _ _ (htrace.symm.trans hsame)
        · rw [hinsert] at hsub
          exact hnew (hsub (Finset.mem_insert_self _ _))
    | moved c htrace hsame hmoved =>
        -- a call that does not close the client has moved bytes
        have hbytes : ∃ k, 0 < n k + m k := by
          rcases hchange with hquiet | ⟨fd, hfd, herase⟩ | ⟨_, hbytes⟩
          · exact absurd (htrace.symm.trans hquiet) (List.cons_ne_self _ _)
          · rw [hsame, eq_comm, Finset.erase_eq_self] at herase
            exact absurd hfd herase
          · exact hbytes
        obtain ⟨k, hk⟩ := hbytes
        have hin := (hpasses k).inbound
        have hheld := (hpasses k).held
        obtain ⟨w, hpc, hconn⟩ := h.connected_of_bytes (k := k) (by omega)
        have hless : State.threadRank setup { s with server := server, network := network } k.1 +
            1 ≤ s.threadRank setup k.1 + 0 := by
          have hmoved := hwork (s.conn k.1)
          rw [← hconn] at hmoved
          have hafter : State.threadRank setup
              { s with server := server, network := network } k.1 =
              (setup.connections k.1 - ((s.clients k.1).connIndex + 1)) *
                connectionSteps setup threadCount + 1 +
                State.work setup { s with server := server, network := network }
                  (s.conn k.1) := threadRank_connected hpc
          rw [hafter, threadRank_connected hpc, ← hconn]
          omega
        have hstrict := System.sum_add_le k.1 hless fun i _ => hle i
        dsimp only
        omega

/-! ## A step of a client thread -/

section Client

variable {i : Fin threads} {w : Worker}

/-- A thread that is on a connection has requests to go on with, or has had them all. -/
theorem onTime_view (h : ThreadOk setup.client (setup.connections i) (s.clients i))
    (hpc : (s.clients i).pc = .connected w) :
    Relay.OnTime (LockStep.relay setup.client toServer toClient) (s.view (s.conn i)) := by
  have hrequest := (h.connected hpc).2.2
  have hphase : (s.view (s.conn i)).phase = LockStep.phase w.pc := by
    rw [State.view, worker_conn hpc, Option.elim_some]
  have hcount : (s.view (s.conn i)).count = w.req := by
    rw [State.view, worker_conn hpc]
    rfl
  constructor
  · intro hgoing
    rw [hphase] at hgoing
    rw [hcount]
    cases hw : w.pc with
    | writeFull done => exact (hrequest.writing hw).1
    | readFull done => exact (hrequest.reading hw).1
    | closed =>
        rw [hw] at hgoing
        exact absurd rfl hgoing
    | died message =>
        rw [RequestOk, hw] at hrequest
        exact hrequest.elim
  · intro hfinished
    rw [hphase] at hfinished
    rw [hcount]
    cases hw : w.pc with
    | writeFull done =>
        rw [hw] at hfinished
        cases hfinished
    | readFull done =>
        rw [hw] at hfinished
        cases hfinished
    | closed => exact hrequest.closed hw
    | died message =>
        rw [RequestOk, hw] at hrequest
        exact hrequest.elim

theorem conn_ne {k : Conn threads} (hk : k.1 ≠ i) : k ≠ s.conn i :=
  fun heq => hk (congrArg Prod.fst heq)

/-- The other threads have as much left as they had. -/
theorem threadRank_of_ne {j : Fin threads} (hj : j ≠ i) (hclient : t.clients j = s.clients j)
    (hview : ∀ k : Conn threads, k.1 ≠ i → t.view k = s.view k) :
    t.threadRank setup j ≤ s.threadRank setup j := by
  refine threadRank_le hclient ?_
  rw [State.work, hview (s.conn j) hj]
  exact le_refl _

/-- A thread that moves bytes on its connection has less to do. -/
theorem rank_of_move (move : Relay.Move) {w' : Worker}
    (h : ThreadOk setup.client (setup.connections i) (s.clients i))
    (hpc : (s.clients i).pc = .connected w) (hserver : t.server = s.server)
    (hbacklog : t.network.backlog = s.network.backlog)
    (hself : t.clients i = { s.clients i with pc := .connected w' })
    (hothers : ∀ j, j ≠ i → t.clients j = s.clients j)
    (hview : ∀ k : Conn threads, k.1 ≠ i → t.view k = s.view k)
    (hmove : Relay.step (LockStep.relay setup.client toServer toClient) (s.view (s.conn i))
      move = some (t.view (s.conn i))) : t.rank setup + 1 ≤ s.rank setup := by
  obtain ⟨hwork, hbytes⟩ := Relay.work_step (onTime_view h hpc) hmove
  have hconn : t.conn i = s.conn i := by
    rw [State.conn, hself, State.conn]
  have hless : t.threadRank setup i + 1 ≤ s.threadRank setup i + 0 := by
    rw [threadRank_connected (w := w') (by rw [hself]), threadRank_connected hpc, hconn, hself]
    simp only [State.work]
    omega
  have hsum := System.sum_add_le i hless fun j hj =>
    threadRank_of_ne hj (hothers j hj) hview
  unfold State.rank
  rw [hserver, hbacklog]
  omega

theorem writeStep_rank {done n : Nat}
    (h : ThreadOk setup.client (setup.connections i) (s.clients i))
    (hpc : (s.clients i).pc = .connected w) (hwrite : w.pc = .writeFull done)
    (hstep : writeStep setup s i w done n = some t) : t.rank setup + 1 ≤ s.rank setup := by
  obtain ⟨hn, hdone, inbound, hlength, rfl⟩ := writeStep_some hstep
  obtain ⟨hphase, hreq, _⟩ := LockStep.wrote_phase (w := w) toServer toClient hn hdone
  refine rank_of_move (.send n) h hpc rfl rfl (clients_setPc_self _)
    (fun j hj => clients_setPc_of_ne _ hj)
    (fun k hk => view_setPc_of_ne (conn_ne hk) rfl
      (Function.update_of_ne (conn_ne hk) _ _) rfl) ?_
  have hroom : (s.network.inbound (s.conn i)).length + n ≤ toServer := by
    rw [← hlength]
    exact inbound.bounded
  have hmove : 0 < n ∧ done + n ≤ setup.client.payloadSize ∧
      (s.network.inbound (s.conn i)).length + n ≤ toServer := ⟨hn, hdone, hroom⟩
  rw [view_setPc_self (by rfl), hphase, hreq]
  simp only [Relay.step, State.view, worker_conn hpc, Option.elim_some, hwrite,
    LockStep.phase, Function.update_self, hlength]
  exact if_pos hmove

theorem readStep_rank {done n : Nat}
    (h : ThreadOk setup.client (setup.connections i) (s.clients i))
    (hpc : (s.clients i).pc = .connected w) (hread : w.pc = .readFull done)
    (hstep : readStep setup s i w done n = some t) : t.rank setup + 1 ≤ s.rank setup := by
  obtain ⟨bytes, outbound, _, hn, hdone, hlength, rfl⟩ := readStep_some hstep
  obtain ⟨hafter, _⟩ := LockStep.received_phase (w := w) toServer toClient hn hdone
  obtain ⟨hphase, hcount⟩ := Prod.mk.inj hafter
  refine rank_of_move (.receive bytes.length) h hpc rfl rfl (clients_setPc_self _)
    (fun j hj => clients_setPc_of_ne _ hj)
    (fun k hk => view_setPc_of_ne (conn_ne hk) rfl rfl
      (Function.update_of_ne (conn_ne hk) _ _)) ?_
  have hmove : 0 < bytes.length ∧ done + bytes.length ≤ setup.client.payloadSize ∧
      bytes.length ≤ (s.network.outbound (s.conn i)).length := ⟨hn, hdone, by omega⟩
  have hrest : (s.network.outbound (s.conn i)).length - bytes.length = outbound.length := by
    omega
  rw [view_setPc_self (by rfl), hphase, hcount]
  simp only [Relay.step, State.view, worker_conn hpc, Option.elim_some, hread,
    LockStep.phase, Function.update_self, hrest]
  exact if_pos hmove

/-- A new connection has all its bytes to move. -/
theorem connectStep_rank {bytesCompleted : Nat} (hsound : Sound setup s)
    (h : ThreadOk setup.client (setup.connections i) (s.clients i))
    (hpc : (s.clients i).pc = .connecting bytesCompleted)
    (hstep : connectStep setup s i bytesCompleted = some t) :
    t.rank setup + 1 ≤ s.rank setup := by
  obtain ⟨_, rfl⟩ := connectStep_some hstep
  have hlt := (h.connecting hpc).1
  have hworker : s.worker (s.conn i) = none := by
    rw [State.worker, State.conn, hpc]
  have hnone := (hsound.balanced (s.conn i)).finished (by rw [State.view, hworker]; rfl)
  have hbytes : (s.network.inbound (s.conn i)).length + (s.view (s.conn i)).held +
      (s.network.outbound (s.conn i)).length = 0 := hnone
  let t : State threadCount threads toServer toClient :=
    { s.setPc i (.connected (.start setup.client bytesCompleted)) with
      network := { s.network with backlog := s.network.backlog ++ [s.conn i] } }
  have hview : t.view (s.conn i) =
      Relay.start (LockStep.relay setup.client toServer toClient) := by
    refine (view_setPc_self (by rfl)).trans ?_
    have hin : (s.network.inbound (s.conn i)).length = 0 := by omega
    have hheld : (s.view (s.conn i)).held = 0 := by omega
    have hout : (s.network.outbound (s.conn i)).length = 0 := by omega
    have hphase : LockStep.phase (LoadClient.loopTest setup.client 0) =
        if 0 < setup.client.requestsPerConnection then .sending 0 else .finished := by
      unfold LoadClient.loopTest
      split
      · rfl
      · rfl
    rw [Relay.start, hin, hheld, hout]
    exact congrArg (Relay.State.mk · 0 0 0 0) hphase
  have hself : t.clients i = { s.clients i with
      pc := .connected (.start setup.client bytesCompleted) } := clients_setPc_self _
  have hconn : t.conn i = s.conn i := by
    rw [State.conn, hself, State.conn]
  have hmore : setup.connections i - (s.clients i).connIndex =
      setup.connections i - ((s.clients i).connIndex + 1) + 1 := by omega
  have hwork : Relay.work (LockStep.relay setup.client toServer toClient)
      (t.view (s.conn i)) ≤
        4 * (setup.client.requestsPerConnection * setup.client.payloadSize) := by
    rw [hview]
    exact Relay.work_start_le _
  have hless : t.threadRank setup i + (threadCount + 7) ≤ s.threadRank setup i + 0 := by
    rw [threadRank_connected (w := .start setup.client bytesCompleted) (by rw [hself]),
      State.threadRank, hpc, hconn, hself]
    dsimp only
    rw [hmore, Nat.succ_mul, State.work]
    unfold connectionSteps
    omega
  have hsum := System.sum_add_le i hless fun j hj =>
    threadRank_of_ne hj (clients_setPc_of_ne _ hj) fun k hk =>
      view_setPc_of_ne (conn_ne hk) (by rfl) (by rfl) (by rfl)
  have hbacklog : (threadCount + 6) * t.network.backlog.length =
      (threadCount + 6) * s.network.backlog.length + (threadCount + 6) := by
    show (threadCount + 6) * (s.network.backlog ++ [s.conn i]).length = _
    rw [List.length_append, List.length_singleton, Nat.mul_succ]
  show t.rank setup + 1 ≤ s.rank setup
  unfold State.rank
  rw [hbacklog]
  change _ + _ + s.server.rank + 1 ≤ _
  omega

theorem nextStep_rank (hpc : (s.clients i).pc = .connected w) :
    (nextStep setup s i w).rank setup + 1 ≤ s.rank setup := by
  have hsum := System.sum_add_le (f := s.threadRank setup)
    (g := (nextStep setup s i w).threadRank setup) (a := 1) (b := 0) i ?_ ?_
  · unfold State.rank
    change _ + _ + s.server.rank + 1 ≤ _
    change _ + (threadCount + 6) * s.network.backlog.length + s.server.rank + 1 ≤ _
    omega
  · rw [threadRank_connected hpc, State.threadRank, clients_nextStep]
    unfold Thread.loopTest
    split
    · next heq =>
        split at heq
        · dsimp only
          omega
        · cases heq
    · next heq => split at heq <;> cases heq
    · omega
  · intro j hj
    refine threadRank_of_ne hj (clients_nextStep_of_ne hj) fun k hk => ?_
    rw [State.view, State.worker, clients_nextStep_of_ne hk]
    rfl

end Client

/-! ## Any step, and where the runs stop -/

theorem step_rank (hpayload : 0 < setup.client.payloadSize)
    (hs : (system setup threadCount toServer toClient).Reachable s)
    {e : Event threadCount threads} (hstep : step setup s e = some t) :
    t.rank setup + 1 ≤ s.rank setup + e.grant := by
  have h := reachable_sound hpayload hs
  have hthreads := reachable_threads hpayload hs
  cases h.stepped hstep with
  | server hserver => exact serverStep_rank h hserver
  | connect hpc hconnect => exact connectStep_rank h (hthreads _) hpc hconnect
  | write hpc hwrite hsent => exact writeStep_rank (hthreads _) hpc hwrite hsent
  | read hpc hread hreceived => exact readStep_rank (hthreads _) hpc hread hreceived
  | next hpc _ heq =>
      subst heq
      exact nextStep_rank hpc

theorem initial_rank (setup : Setup threads) :
    (initial setup : State threadCount threads toServer toClient).rank setup ≤
      (∑ i, setup.connections i) * connectionSteps setup threadCount + threadCount := by
  have hthread : ∀ i, (initial setup : State threadCount threads toServer toClient).threadRank
      setup i ≤ setup.connections i * connectionSteps setup threadCount := by
    intro i
    unfold State.threadRank initial Thread.loopTest
    dsimp only
    split
    · exact le_refl _
    · next heq => split at heq <;> cases heq
    · exact Nat.zero_le _
  have hsum := Finset.sum_le_sum fun i (_ : i ∈ Finset.univ) => hthread i
  rw [← Finset.sum_mul] at hsum
  have hserver : (ThreadpoolServer.initial threadCount).rank = threadCount := by
    simp [ThreadpoolServer.State.rank, ThreadpoolServer.initial,
      ThreadpoolServer.AcceptorPc.rank, ThreadpoolServer.WorkerPc.rank]
  unfold State.rank
  change _ + (threadCount + 6) * 0 + (ThreadpoolServer.initial threadCount).rank ≤ _
  rw [hserver]
  omega

/-- Every client thread has returned with all its requests completed and counted, the
server has closed every connection and waits, and no byte is left anywhere. -/
structure Completed (setup : Setup threads)
    (s : State threadCount threads toServer toClient) : Prop where
  threads : ∀ i, s.clients i = ⟨setup.connections i, .returned (bytesFor setup.client
    (setup.connections i * setup.client.requestsPerConnection))⟩
  acceptor : s.server.acceptor = .accept
  workers : ∀ w, (s.server.workers w).pc = .waiting
  queue : s.server.queue.head = none
  closed : clients setup.base s.server.trace = ∅
  backlog : s.network.backlog = []
  empty : ∀ k, (s.network.inbound k).length = 0 ∧ (s.network.outbound k).length = 0

/-- Nobody can go on, but for workers that wake without a signal. -/
def Ended (setup : Setup threads) (s : State threadCount threads toServer toClient) : Prop :=
  ∀ e t, step setup s e = some t → ∃ w, e = .server (.spurious w)

theorem Ended.not_canStep (h : Ended setup s) : ¬ s.CanStep setup := by
  rintro ⟨e, t, hspurious, hstep⟩
  obtain ⟨w, rfl⟩ := h e t hstep
  exact hspurious w rfl

/-- Where the runs of a payload that fits stop. -/
theorem completed_of_ended (hworkers : 1 ≤ threadCount) (hpayload : 0 < setup.client.payloadSize)
    (hserver : 0 < toServer) (hclient : 0 < toClient) (hbacklog : 0 < setup.backlog)
    (hfits : setup.client.payloadSize ≤ toServer + toClient + 1)
    (hs : (system setup threadCount toServer toClient).Reachable s)
    (hended : Ended setup s) : Completed setup s := by
  have h := reachable_sound hpayload hs
  have hthreads := reachable_threads hpayload hs
  have hstuck := hended.not_canStep
  rcases ThreadpoolServer.blocked_or_step h.server with
    hblocked | ⟨e, server, hquiet, hspurious, hstep⟩
  · have hidle : ∀ w, (s.server.workers w).pc = .waiting := by
      intro w
      rcases hblocked.workers w with hpc | ⟨fd, hpc⟩ | ⟨fd, n, done, hpc⟩
      · exact hpc
      · exact absurd (canStep_of_fits h (fun _ => hserver) hclient hfits (.inl hpc)) hstuck
      · exact absurd (canStep_of_fits h (fun _ => hserver) hclient hfits
          (.inr ⟨n, done, hpc⟩)) hstuck
    have hwaiting : ∃ w, (s.server.workers w).pc = .waiting := ⟨⟨0, hworkers⟩, hidle _⟩
    have hreturned : ∀ i, ∃ bytes, (s.clients i).pc = .returned bytes := by
      intro i
      by_contra hnot
      exact hstuck (canStep_of_waiting h hbacklog hblocked hwaiting hidle fun bytes hpc =>
        hnot ⟨bytes, hpc⟩)
    have hclosed : clients setup.base s.server.trace = ∅ := by
      refine Finset.eq_empty_of_forall_notMem fun fd hfd => ?_
      obtain ⟨w, hw⟩ := hblocked.serving h.server hwaiting hfd
      rw [hidle w] at hw
      cases hw
    have hqueue : s.server.queue.head = none := by
      obtain ⟨a, _, hrep⟩ :=
        (ThreadpoolServer.simulates_workQueue threadCount setup.base).reachable h.server
      obtain ⟨nodes, hlists⟩ := hrep.queue
      refine hlists.head_eq_none.mpr (List.eq_nil_iff_forall_not_mem.mpr fun fd hfd => ?_)
      have hopen := (hrep.held fd).mpr (WorkQueue.held_iff.mpr (.inr (.inl hfd)))
      rw [hclosed] at hopen
      exact Finset.notMem_empty fd hopen
    refine ⟨fun i => ?_, hblocked.acceptor, hidle, hqueue, hclosed, ?_, fun k => ?_⟩
    · obtain ⟨bytes, hpc⟩ := hreturned i
      have hindex := ((hthreads i).returned hpc).1
      rw [← (LoadClient.completed_returned (hthreads i) hpc).2, ← hindex, ← hpc]
    · by_contra hnonempty
      exact hstuck (canStep_of_backlog h hblocked.acceptor hnonempty)
    · obtain ⟨bytes, hpc⟩ := hreturned k.1
      have hworker : s.worker k = none := by
        rw [State.worker, hpc]
      have hsum := (h.balanced k).finished (by rw [State.view, hworker]; rfl)
      simp only [State.view] at hsum
      exact ⟨by omega, by omega⟩
  · exact absurd (canStep_of_quiet h hquiet hspurious hstep) hstuck

end Model

end SysLab.PartB.ThreadpoolLoad
