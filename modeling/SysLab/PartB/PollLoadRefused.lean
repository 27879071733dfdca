import SysLab.PartB.PollLoadFits

/-!
# A client that is turned away

The `poll` server closes a connection for which it has no slot, while the client waits
for the answer to its first request.  Nobody answers it any more: the client never gets
past that request (`Refused.step`), so the run is never completed.
-/

namespace SysLab.PartB.Network

variable {κ : Type*} [DecidableEq κ] {toServer toClient : Nat}
  {net net' : Network κ toServer toClient} {isOpen : κ → Bool} {k : κ}

/-- The server has no descriptor for connection `k` and will not get one, and nothing is
left for the client to read. -/
structure Abandoned (net : Network κ toServer toClient) (k : κ) : Prop where
  waiting : k ∉ net.backlog
  peer : ∀ fd, net.peer fd ≠ some k
  empty : (net.outbound k).length = 0

omit [DecidableEq κ] in
theorem Abandoned.of_same (h : net.Abandoned k) (hbacklog : ∀ k ∈ net'.backlog, k ∈ net.backlog)
    (hpeer : ∀ fd, net'.peer fd = some k → net.peer fd = some k)
    (hout : net'.outbound k = net.outbound k) : net'.Abandoned k :=
  ⟨fun hk => h.waiting (hbacklog k hk), fun fd hfd => h.peer fd (hpeer fd hfd), by
    rw [hout]
    exact h.empty⟩

theorem Abandoned.accept (h : net.Abandoned k) {fd : Int}
    (hanswer : net.answer isOpen (.accept fd) = some net') : net'.Abandoned k := by
  simp only [Network.answer] at hanswer
  split at hanswer
  · cases hanswer
  · next k' rest hbacklog =>
      cases hanswer
      have hwaiting := h.waiting
      rw [hbacklog] at hwaiting
      refine ⟨fun hk => hwaiting (List.mem_cons_of_mem _ hk), fun fd' hfd' => ?_, h.empty⟩
      by_cases hfd : fd' = fd
      · subst hfd
        have hself : some k' = some k :=
          (Function.update_self fd' (some k') net.peer).symm.trans hfd'
        cases hself
        exact hwaiting List.mem_cons_self
      · exact h.peer fd' ((Function.update_of_ne hfd _ _).symm.trans hfd')

theorem Abandoned.read (h : net.Abandoned k) {k' : κ} {bytes : List UInt8}
    (hread : net.answerRead isOpen k' bytes = some net') : net'.Abandoned k := by
  unfold answerRead at hread
  split at hread
  · split at hread
    · cases hread
      exact h
    · cases hread
  · split at hread
    · cases hread
    · split at hread
      · cases hread
        exact h.of_same (fun _ hk => hk) (fun _ hfd => hfd) rfl
      · cases hread

/-- What is written is another connection's. -/
theorem Abandoned.write (h : net.Abandoned k) {fd : Int} {k' : κ} (hpeer : net.peer fd = some k')
    {chunk : List UInt8} {n : Nat} (hwrite : net.answerWrite k' chunk n = some net') :
    net'.Abandoned k := by
  unfold answerWrite at hwrite
  split at hwrite
  · obtain ⟨outbound, _, rfl⟩ := Option.map_eq_some_iff.mp hwrite
    refine h.of_same (fun _ hk => hk) (fun _ hfd => hfd) (Function.update_of_ne ?_ _ _)
    rintro rfl
    exact h.peer fd hpeer
  · cases hwrite

/-- No call of the server takes it up again. -/
theorem Abandoned.answer (h : net.Abandoned k) {c : Syscall}
    (hanswer : net.answer isOpen c = some net') : net'.Abandoned k := by
  cases c with
  | accept fd => exact h.accept hanswer
  | read fd cap res =>
      cases res with
      | error e => cases hanswer
      | ok bytes =>
          obtain ⟨k', _, hread⟩ := Option.bind_eq_some_iff.mp hanswer
          exact h.read hread
  | write fd chunk res =>
      cases res with
      | error e => cases hanswer
      | ok n =>
          obtain ⟨k', hpeer, hwrite⟩ := Option.bind_eq_some_iff.mp hanswer
          exact h.write hpeer hwrite
  | close fd =>
      obtain ⟨k', _, rfl⟩ := Option.map_eq_some_iff.mp hanswer
      refine h.of_same (fun _ hk => hk) (fun fd' hfd' => ?_) rfl
      by_cases hfd : fd' = fd
      · subst hfd
        cases (Function.update_self fd' none net.peer).symm.trans hfd'
      · exact (Function.update_of_ne hfd _ _).symm.trans hfd'

theorem Abandoned.answerNow (h : net.Abandoned k) {c : Syscall}
    (hanswer : net.answerNow isOpen c = some net') : net'.Abandoned k := by
  unfold Network.answerNow at hanswer
  split at hanswer
  · split at hanswer
    · cases hanswer
      exact h
    · cases hanswer
  · split at hanswer
    · cases hanswer
      exact h
    · cases hanswer
  · exact h.answer hanswer

theorem Abandoned.answersNow (h : net.Abandoned k) {calls : Trace}
    (hanswers : net.answersNow isOpen calls = some net') : net'.Abandoned k := by
  induction calls generalizing net' with
  | nil =>
      cases hanswers
      exact h
  | cons c calls ih =>
      obtain ⟨net₁, hcalls, hanswer⟩ := Option.bind_eq_some_iff.mp hanswers
      exact (ih hcalls).answerNow hanswer

end SysLab.PartB.Network

namespace SysLab.PartB.PollLoad

open SysLab.Foundation
open SysLab.PartB.LoadClient (Thread ThreadPc Worker)
open SysLab.PartB.ThreadpoolLoad (Setup Conn)

section Model

variable {threads toServer toClient maxClients : Nat} {setup : Setup threads}
  {s t : State threads toServer toClient} {k : Conn threads}

/-- The client writes a request that nobody will answer, or waits for the answer, or has
died. -/
def Unanswered : ThreadPc → Prop
  | .connected w =>
      (∃ done, w.pc = .writeFull done) ∨ w.pc = .readFull 0 ∨ ∃ message, w.pc = .died message
  | _ => False

structure Refused (s : State threads toServer toClient) (k : Conn threads) : Prop where
  abandoned : s.network.Abandoned k
  current : (s.clients k.1).connIndex = k.2
  unanswered : Unanswered (s.clients k.1).pc

/-! ## Nothing changes for it -/

theorem Refused.of_others (h : Refused s k) (habandoned : t.network.Abandoned k)
    (hclient : t.clients k.1 = s.clients k.1) : Refused t k := by
  refine ⟨habandoned, ?_, ?_⟩
  · rw [hclient]
    exact h.current
  · rw [hclient]
    exact h.unanswered

theorem Refused.server (h : Refused s k) {e : ServerEvent}
    (hstep : serverStep setup maxClients s e = some t) : Refused t k := by
  obtain ⟨e', he'⟩ := serverStep_some hstep
  obtain ⟨server, network, _, _, hanswers, rfl⟩ := answered_some he'
  exact h.of_others (h.abandoned.answersNow hanswers) rfl

/-- The thread goes on with the same connection. -/
theorem Refused.setPc (h : Refused s k) (pool : ThreadpoolServer.State maxClients)
    {i : Fin threads} {pc : ThreadPc}
    (hclients : t.clients = ((s.beside pool).setPc i pc).clients)
    (habandoned : t.network.Abandoned k) (hpc : k.1 = i → Unanswered pc) : Refused t k := by
  by_cases hi : k.1 = i
  · subst hi
    have hself : t.clients k.1 = { s.clients k.1 with pc := pc } := by
      rw [hclients]
      exact ThreadpoolLoad.clients_setPc_self _
    refine ⟨habandoned, ?_, ?_⟩
    · rw [hself]
      exact h.current
    · rw [hself]
      exact hpc rfl
  · refine h.of_others habandoned ?_
    rw [hclients]
    exact ThreadpoolLoad.clients_setPc_of_ne _ hi

theorem Refused.eq_conn (h : Refused s k) (pool : ThreadpoolServer.State maxClients) :
    (s.beside pool).conn k.1 = k := Prod.ext rfl h.current

section Client

variable {pool : ThreadpoolServer.State maxClients} {i : Fin threads} {w : Worker}

theorem Refused.write (h : Refused s k) {done n : Nat}
    (hstep : ThreadpoolLoad.writeStep setup (s.beside pool) i w done n =
      some (t.beside pool)) : Refused t k := by
  obtain ⟨hn, hdone, inbound, _, heq⟩ := ThreadpoolLoad.writeStep_some hstep
  have hnetwork := congrArg ThreadpoolLoad.State.network heq
  refine h.setPc pool (congrArg ThreadpoolLoad.State.clients heq) ?_ fun _ => ?_
  · change t.network = _ at hnetwork
    rw [hnetwork]
    exact h.abandoned.of_same (fun _ hk => hk) (fun _ hfd => hfd) rfl
  · rw [LoadClient.wrote_ok hn hdone]
    split
    · exact .inl ⟨_, rfl⟩
    · exact .inr (.inl rfl)

theorem Refused.read (h : Refused s k) {done n : Nat}
    (hstep : ThreadpoolLoad.readStep setup (s.beside pool) i w done n =
      some (t.beside pool)) : Refused t k := by
  obtain ⟨bytes, outbound, _, hn, _, hlength, heq⟩ := ThreadpoolLoad.readStep_some hstep
  -- it is another thread that has something to read
  have hi : k.1 ≠ i := by
    rintro rfl
    rw [h.eq_conn] at hlength
    have hempty : ((s.beside pool).network.outbound k).length = 0 := h.abandoned.empty
    omega
  have hnetwork := congrArg ThreadpoolLoad.State.network heq
  refine h.setPc pool (congrArg ThreadpoolLoad.State.clients heq) ?_ fun hk => absurd hk hi
  change t.network = _ at hnetwork
  rw [hnetwork]
  exact h.abandoned.of_same (fun _ hk => hk) (fun _ hfd => hfd)
    (Function.update_of_ne (ThreadpoolLoad.conn_ne hi) _ _)

theorem Refused.connect (h : Refused s k) {bytes : Nat} (hpc : (s.clients i).pc = .connecting bytes)
    (hstep : ThreadpoolLoad.connectStep setup (s.beside pool) i bytes =
      some (t.beside pool)) : Refused t k := by
  obtain ⟨_, heq⟩ := ThreadpoolLoad.connectStep_some hstep
  have hi : k.1 ≠ i := by
    rintro rfl
    have hwaits := h.unanswered
    rw [hpc] at hwaits
    exact hwaits
  have hnetwork := congrArg ThreadpoolLoad.State.network heq
  refine h.setPc pool (congrArg ThreadpoolLoad.State.clients heq) ?_ fun hk => absurd hk hi
  change t.network = _ at hnetwork
  rw [hnetwork]
  refine ⟨fun hk => ?_, h.abandoned.peer, h.abandoned.empty⟩
  rcases List.mem_append.mp hk with hk | hk
  · exact h.abandoned.waiting hk
  · exact ThreadpoolLoad.conn_ne hi (List.mem_singleton.mp hk)

/-- The end of the stream before the answer. -/
theorem received_eof (hpayload : 0 < setup.client.payloadSize) (w : Worker) :
    ∃ message, (w.received setup.client 0 (.ok [])).pc = .died message := by
  have hnone : (0 : Nat) ≠ setup.client.payloadSize := by omega
  refine ⟨"read_full", ?_⟩
  show (if 0 = setup.client.payloadSize then _ else _ : Worker).pc = _
  rw [if_neg hnone]

theorem Refused.eof (h : Refused s k) (hpayload : 0 < setup.client.payloadSize) {done : Nat}
    (hpc : (s.clients i).pc = .connected w) (hread : w.pc = .readFull done)
    (hstep : ThreadpoolLoad.eofStep setup (s.beside pool) i w done =
      some (t.beside pool)) : Refused t k := by
  unfold ThreadpoolLoad.eofStep at hstep
  split at hstep
  · have heq := (Option.some.inj hstep).symm
    have hnetwork : t.network = s.network := congrArg ThreadpoolLoad.State.network heq
    refine h.setPc pool (congrArg ThreadpoolLoad.State.clients heq) ?_ ?_
    · rw [hnetwork]
      exact h.abandoned
    · rintro rfl
      have hwaits := h.unanswered
      rw [hpc] at hwaits
      rcases hwaits with ⟨done', hw⟩ | hw | ⟨message, hw⟩
      · rw [hread] at hw
        cases hw
      · rw [hread] at hw
        cases hw
        exact .inr (.inr (received_eof hpayload w))
      · rw [hread] at hw
        cases hw
  · cases hstep

theorem Refused.next (h : Refused s k) (hpc : (s.clients i).pc = .connected w)
    (hclosed : w.pc = .closed)
    (heq : ThreadpoolLoad.nextStep setup (s.beside pool) i w = t.beside pool) :
    Refused t k := by
  have hi : k.1 ≠ i := by
    rintro rfl
    have hwaits := h.unanswered
    rw [hpc] at hwaits
    rcases hwaits with ⟨done, hw⟩ | hw | ⟨message, hw⟩
    all_goals
      rw [hclosed] at hw
      cases hw
  have hnetwork : t.network = s.network := (congrArg ThreadpoolLoad.State.network heq).symm
  refine h.of_others ?_ ?_
  · rw [hnetwork]
    exact h.abandoned
  · have hclients := congrArg ThreadpoolLoad.State.clients heq
    change _ = t.clients at hclients
    rw [← hclients]
    exact ThreadpoolLoad.clients_nextStep_of_ne hi

theorem Refused.client (h : Refused s k) (hpayload : 0 < setup.client.payloadSize)
    {e : ClientEvent threads} (hstep : clientStep setup s e = some t) : Refused t k := by
  have hbeside := clientStep_some (ThreadpoolServer.initial 0) hstep
  cases e with
  | connect i =>
      simp only [ClientEvent.beside, ThreadpoolLoad.step] at hbeside
      split at hbeside
      · next hpc => exact h.connect hpc hbeside
      · cases hbeside
  | write i n =>
      simp only [ClientEvent.beside, ThreadpoolLoad.step] at hbeside
      split at hbeside
      · split at hbeside
        · exact h.write hbeside
        · cases hbeside
      · cases hbeside
  | read i n =>
      simp only [ClientEvent.beside, ThreadpoolLoad.step] at hbeside
      split at hbeside
      · split at hbeside
        · exact h.read hbeside
        · cases hbeside
      · cases hbeside
  | eof i =>
      simp only [ClientEvent.beside, ThreadpoolLoad.step] at hbeside
      split at hbeside
      · next hpc =>
          split at hbeside
          · next hread => exact h.eof hpayload hpc hread hbeside
          · cases hbeside
      · cases hbeside
  | next i =>
      simp only [ClientEvent.beside, ThreadpoolLoad.step] at hbeside
      split at hbeside
      · next hpc =>
          split at hbeside
          · next hclosed => exact h.next hpc hclosed (Option.some.inj hbeside)
          · cases hbeside
      · cases hbeside

/-- A `write` to the connection that the server has closed. -/
theorem Refused.reset (h : Refused s k) (hstep : resetStep setup s i = some t) :
    Refused t k := by
  obtain ⟨w, done, _, _, _, rfl⟩ := resetStep_some hstep
  exact h.setPc (ThreadpoolServer.initial 0) rfl h.abandoned fun _ =>
    .inr (.inr ⟨"write_full", rfl⟩)

end Client

/-- Whatever happens, the client gets no further. -/
theorem Refused.step (h : Refused s k) (hpayload : 0 < setup.client.payloadSize)
    {e : Event threads} (hstep : PollLoad.step setup maxClients s e = some t) : Refused t k := by
  obtain ⟨_, hmove⟩ := step_some hstep
  cases e with
  | server e => exact h.server hmove
  | client e => exact h.client hpayload hmove
  | reset i => exact h.reset hmove

theorem Refused.not_completed (h : Refused s k) : ¬ Completed setup maxClients s := by
  intro hcompleted
  have hwaits := h.unanswered
  rw [hcompleted.threads k.1] at hwaits
  exact hwaits

/-! ## Who is turned away -/

/-- A client that finds no slot waits for its first answer. -/
theorem refused_of_step {pool : ThreadpoolServer.State maxClients}
    (hknown : Known setup maxClients s pool) (hnear : Near maxClients s) {e : Event threads}
    (hstep : step setup maxClients s e = some t) (hfull : ¬ Admits maxClients s e) :
    ∃ k, Refused t k := by
  obtain ⟨_, hmove⟩ := step_some hstep
  cases e with
  | client e => exact absurd trivial hfull
  | reset i => exact absurd trivial hfull
  | server e =>
      cases e with
      | poll => exact absurd trivial hfull
      | drained => exact absurd trivial hfull
      | slot rd wr => exact absurd trivial hfull
      | accept fd =>
          cases accept_served hmove with
          | accept k rest i _ _ _ hi him hfree => exact absurd ⟨i, hi, him, hfree⟩ hfull
          | refuse k rest _ hbacklog _ heq =>
              subst heq
              have hwaits : k ∈ s.network.backlog := by
                rw [hbacklog]
                exact List.mem_cons_self
              have hfresh := hnear.waiting k hwaits
              have honce : (k :: rest).Nodup := by
                rw [← hbacklog]
                exact hknown.single.backlog
              refine ⟨k, ⟨(List.nodup_cons.mp honce).1, fun fd' hfd' => ?_, hfresh.empty⟩,
                hfresh.current.symm, ?_⟩
              · have hpeer : Function.update (Function.update s.network.peer fd (some k)) fd none
                    fd' = some k := hfd'
                by_cases hfd : fd' = fd
                · rw [hfd, Function.update_self] at hpeer
                  cases hpeer
                · rw [Function.update_of_ne hfd, Function.update_of_ne hfd] at hpeer
                  exact hknown.single.apart fd' k hwaits hpeer
              · obtain ⟨w, hpc, _, hwaiting⟩ := hfresh.unanswered
                show Unanswered (s.clients k.1).pc
                rw [hpc]
                exact hwaiting.imp_right .inl

/-- If every run is completed, nobody is turned away. -/
theorem alwaysAdmits_of_completes (hrequests : 0 < setup.client.requestsPerConnection)
    (hpayload : 0 < setup.client.payloadSize) {listenFd : Int}
    (hcompletes : (system setup maxClients listenFd toServer toClient).Completes
      (Completed setup maxClients)) :
    AlwaysAdmits setup maxClients listenFd toServer toClient := by
  intro s e t hs hstep
  by_contra hfull
  obtain ⟨pool, hknown⟩ := reachable_known hpayload hs
  obtain ⟨k, hrefused⟩ := refused_of_step hknown (reachable_near hrequests hpayload hs) hstep hfull
  have ht : (system setup maxClients listenFd toServer toClient).Reachable t :=
    hs.of_restrict.step hstep
  -- the rest of the run comes to an end, and the client is still there
  obtain ⟨N, hN⟩ := hcompletes.bounded t ht
  obtain ⟨es, u, hrun, hlast⟩ := System.exists_last_of_bounded hN
  have hstill : Refused u k := by
    clear hN hlast ht hstep
    induction hrun with
    | nil s => exact hrefused
    | cons hnext _ ih => exact ih (hrefused.step hpayload hnext)
  exact hstill.not_completed (hcompletes.ends u (hrun.reachable ht) hlast)

end Model

end SysLab.PartB.PollLoad
