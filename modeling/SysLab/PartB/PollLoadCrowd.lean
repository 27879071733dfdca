import SysLab.PartB.PollLoadRefused

/-!
# All the slots at once

The client threads may want all the slots that they need at the same time.  As long as
no thread reads the last byte of its first connection, the run stops with every thread
waiting there for just that byte (`poised_of_stuck`).  Then, one after the other, the
threads that have more connections read it, close and connect again, while the server
sees to nothing but its listening socket (`exists_crowd`).
-/

namespace SysLab.PartB.PollLoad

open SysLab.Foundation
open SysLab.PartB.LoadClient (Config Thread ThreadPc Worker sendBuf)
open SysLab.PartB.PollServer (noFlags)
open SysLab.PartB.ThreadpoolLoad (Setup Conn Sound)

section Model

variable {threads toServer toClient maxClients : Nat} {setup : Setup threads}
  {s t : State threads toServer toClient} {pool : ThreadpoolServer.State maxClients}
  {i : Fin threads} {w : Worker}

/-! ## A client thread can go on -/

theorem exists_write {done : Nat} (pool : ThreadpoolServer.State maxClients)
    (hpc : (s.clients i).pc = .connected w) (hwrite : w.pc = .writeFull done)
    (hdone : done < setup.client.payloadSize)
    (hroom : (s.network.inbound ((s.beside pool).conn i)).length < toServer) :
    ∃ t, clientStep setup s (.write i 1) = some t := by
  have hchunk : (((sendBuf setup.client).drop done).take 1).length = 1 :=
    LoadClient.length_chunk hdone
  obtain ⟨inbound, hpush⟩ := Channel.exists_push
    (c := s.network.inbound ((s.beside pool).conn i))
    (show _ + (((sendBuf setup.client).drop done).take 1).length ≤ toServer by omega)
  obtain ⟨u, hu⟩ : ∃ u, ThreadpoolLoad.writeStep setup (s.beside pool) i w done 1 = some u := by
    have hsend : (s.beside pool).network.inbound ((s.beside pool).conn i) =
        s.network.inbound ((s.beside pool).conn i) := rfl
    rw [ThreadpoolLoad.writeStep, if_pos ⟨Nat.one_pos, hdone⟩, Network.send, hsend, hpush]
    exact ⟨_, rfl⟩
  have hpc' : ((s.beside pool).clients i).pc = .connected w := hpc
  have hstep : ThreadpoolLoad.step setup (s.beside pool) (ClientEvent.write i 1).beside =
      some u := by
    simp only [ClientEvent.beside, ThreadpoolLoad.step, hpc', hwrite, hu]
  obtain ⟨t, ht, _⟩ := exists_clientStep hstep
  exact ⟨t, ht⟩

theorem exists_read {done : Nat} (pool : ThreadpoolServer.State maxClients)
    (hpc : (s.clients i).pc = .connected w) (hread : w.pc = .readFull done)
    (hdone : done < setup.client.payloadSize)
    (hout : 0 < (s.network.outbound ((s.beside pool).conn i)).length) :
    ∃ t, clientStep setup s (.read i 1) = some t ∧
      ThreadpoolLoad.readStep setup (s.beside pool) i w done 1 = some (t.beside pool) := by
  obtain ⟨bytes, outbound, hpop⟩ := Channel.exists_pop (n := 1) hout
  obtain ⟨u, hu⟩ : ∃ u, ThreadpoolLoad.readStep setup (s.beside pool) i w done 1 = some u := by
    have hreceive : (s.beside pool).network.outbound ((s.beside pool).conn i) =
        s.network.outbound ((s.beside pool).conn i) := rfl
    rw [ThreadpoolLoad.readStep, if_pos ⟨Nat.one_pos, hdone⟩, Network.receive, hreceive, hpop]
    exact ⟨_, rfl⟩
  have hpc' : ((s.beside pool).clients i).pc = .connected w := hpc
  have hstep : ThreadpoolLoad.step setup (s.beside pool) (ClientEvent.read i 1).beside =
      some u := by
    simp only [ClientEvent.beside, ThreadpoolLoad.step, hpc', hread, hu]
  obtain ⟨t, ht, rfl⟩ := exists_clientStep hstep
  exact ⟨t, ht, hu⟩

/-- Only thread `i` has gone on. -/
structure Alone (i : Fin threads) (s t : State threads toServer toClient) : Prop where
  server : t.server = s.server
  peer : t.network.peer = s.network.peer
  clients : ∀ j, j ≠ i → t.clients j = s.clients j
  outbound : ∀ k : Conn threads, k.1 ≠ i → t.network.outbound k = s.network.outbound k

theorem Alone.trans {u : State threads toServer toClient} (h : Alone i s t) (h' : Alone i t u) :
    Alone i s u where
  server := h'.server.trans h.server
  peer := h'.peer.trans h.peer
  clients j hj := (h'.clients j hj).trans (h.clients j hj)
  outbound k hk := (h'.outbound k hk).trans (h.outbound k hk)

/-- Where the backlog has room, the connection is made. -/
theorem exists_connect {bytes : Nat} (hpc : (s.clients i).pc = .connecting bytes)
    (hroom : s.network.backlog.length < setup.backlog) :
    ∃ t, clientStep setup s (.connect i) = some t ∧ Alone i s t ∧
      t.network.backlog = s.network.backlog ++ [s.clientSide.conn i] := by
  have hpc' : (s.clientSide.clients i).pc = .connecting bytes := hpc
  have hroom' : s.clientSide.network.backlog.length < setup.backlog := hroom
  obtain ⟨u, hu⟩ : ∃ u, ThreadpoolLoad.connectStep setup s.clientSide i bytes = some u := by
    rw [ThreadpoolLoad.connectStep, Network.connect, if_pos hroom']
    exact ⟨_, rfl⟩
  have hconnect : ThreadpoolLoad.step setup s.clientSide (ClientEvent.connect i).beside =
      some u := by
    simp only [ClientEvent.beside, ThreadpoolLoad.step, hpc', hu]
  obtain ⟨t, hstep, rfl⟩ := exists_clientStep hconnect
  obtain ⟨_, heq⟩ := ThreadpoolLoad.connectStep_some hu
  have hnetwork : t.network = { s.network with
      backlog := s.network.backlog ++ [s.clientSide.conn i] } :=
    congrArg ThreadpoolLoad.State.network heq
  have hclients : t.clients = (s.clientSide.setPc i _).clients :=
    congrArg ThreadpoolLoad.State.clients heq
  refine ⟨t, hstep, ⟨clientStep_server hstep, by rw [hnetwork], fun j hj => ?_,
    fun k _ => by rw [hnetwork]⟩, by rw [hnetwork]⟩
  rw [hclients]
  exact ThreadpoolLoad.clients_setPc_of_ne _ hj

/-! ## Before the last byte of the first connection -/

/-- No thread reads the last byte of a connection. -/
def Patient (setup : Setup threads) (s : State threads toServer toClient) :
    Event threads → Prop
  | .client (.read i n) => ∀ w done, (s.clients i).pc = .connected w → w.pc = .readFull done →
      w.req + 1 = setup.client.requestsPerConnection → done + n < setup.client.payloadSize
  | _ => True

/-- Every thread is at its first connection. -/
def First (s : State threads toServer toClient) : Prop :=
  ∀ i, (s.clients i).connIndex = 0 ∧ ∀ w, (s.clients i).pc = .connected w → w.pc ≠ .closed

theorem First.setPc (h : First s) {w' : Worker}
    (hclients : t.clients = ((s.beside pool).setPc i (.connected w')).clients)
    (hopen : w'.pc ≠ .closed) : First t := by
  intro j
  rw [hclients]
  by_cases hj : j = i
  · subst hj
    rw [ThreadpoolLoad.clients_setPc_self]
    refine ⟨(h j).1, fun w hw => ?_⟩
    cases hw
    exact hopen
  · rw [ThreadpoolLoad.clients_setPc_of_ne _ hj]
    exact h j

/-- What is read does not close the connection, unless it is the end of the last request. -/
theorem received_open {done : Nat} {bytes : List UInt8} (hn : 0 < bytes.length)
    (hdone : done + bytes.length ≤ setup.client.payloadSize)
    (hmore : done + bytes.length = setup.client.payloadSize →
      w.req + 1 < setup.client.requestsPerConnection) :
    (w.received setup.client done (.ok bytes)).pc ≠ .closed := by
  rw [LoadClient.received_ok hn hdone]
  split
  · exact fun hclosed => by cases hclosed
  · next hall =>
      have hnext : LoadClient.loopTest setup.client (w.req + 1) = .writeFull 0 :=
        if_pos (hmore (by omega))
      rw [Worker.nextRequest, hnext]
      exact fun hclosed => by cases hclosed

theorem First.step (h : First s) (hrequests : 0 < setup.client.requestsPerConnection)
    (hknown : Known setup maxClients s pool)
    (hthreads : ∀ i, LoadClient.ThreadOk setup.client (setup.connections i) (s.clients i))
    {e : Event threads} (hstep : PollLoad.step setup maxClients s e = some t)
    (hpatient : Patient setup s e) : First t := by
  obtain ⟨_, hmove⟩ := step_some hstep
  cases e with
  | server e =>
      obtain ⟨e', he'⟩ := serverStep_some hmove
      obtain ⟨_, _, _, _, _, rfl⟩ := answered_some he'
      exact h
  | client e =>
      have hbeside := clientStep_some pool hmove
      cases e with
      | connect i =>
          cases hknown.sound.stepped (e := .connect i) hbeside with
          | connect hpc hconnect =>
              obtain ⟨_, heq⟩ := ThreadpoolLoad.connectStep_some hconnect
              refine h.setPc (congrArg ThreadpoolLoad.State.clients heq) ?_
              have hstart : LoadClient.loopTest setup.client 0 = .writeFull 0 := if_pos hrequests
              rw [Worker.start, hstart]
              exact fun hclosed => by cases hclosed
      | write i n =>
          cases hknown.sound.stepped (e := .write i n) hbeside with
          | write hpc _ hsent =>
              obtain ⟨hn, hdone, _, _, heq⟩ := ThreadpoolLoad.writeStep_some hsent
              refine h.setPc (congrArg ThreadpoolLoad.State.clients heq) ?_
              rw [LoadClient.wrote_ok hn hdone]
              split
              · exact fun hclosed => by cases hclosed
              · exact fun hclosed => by cases hclosed
      | read i n =>
          cases hknown.sound.stepped (e := .read i n) hbeside with
          | @read _ _ done w hpc hread hreceived =>
              obtain ⟨bytes, _, hbytes, hn, hdone, _, heq⟩ :=
                ThreadpoolLoad.readStep_some hreceived
              have hreq := (((hthreads i).connected hpc).2.2.reading hread).1
              refine h.setPc (congrArg ThreadpoolLoad.State.clients heq)
                (received_open hn hdone fun hall => ?_)
              by_contra hlast
              have hless := hpatient w done hpc hread (by omega)
              omega
      | eof i => cases hknown.sound.stepped (e := .eof i) hbeside
      | next i =>
          cases hknown.sound.stepped (e := .next i) hbeside with
          | next hpc hclosed _ => exact absurd hclosed ((h i).2 _ hpc)
  | reset i =>
      change resetStep setup s i = some t at hmove
      rw [no_reset hknown.sound] at hmove
      cases hmove

/-! ## Where such a run stops -/

/-- The thread has all but the last byte of its first connection, and that is there. -/
structure Poised (setup : Setup threads) (s : State threads toServer toClient)
    (i : Fin threads) : Prop where
  first : (s.clients i).connIndex = 0
  last : ∃ w done, (s.clients i).pc = .connected w ∧ w.pc = .readFull done ∧
    done + 1 = setup.client.payloadSize ∧ w.req + 1 = setup.client.requestsPerConnection
  ready : 0 < (s.network.outbound (i, 0)).length

/-- While the server waits, no byte can be passed on. -/
theorem nothing_passes (hknown : Known setup maxClients s pool)
    (hstuck : ∀ e t, serverStep setup maxClients s e ≠ some t) {fd : Int} {k : Conn threads}
    (hpeer : s.network.peer fd = some k) :
    ¬ (((s.beside pool).view k).held = 0 ∧ 0 < ((s.beside pool).view k).inbound ∨
      0 < ((s.beside pool).view k).held ∧ ((s.beside pool).view k).outbound < toClient) := by
  have hpolled : ∀ w : Fin maxClients, s.polled (w + 1) = noFlags := fun w =>
    nothing_polled hknown hstuck w.isLt
  rintro (⟨hheld, hin⟩ | ⟨hheld, hroom⟩)
  · obtain ⟨j, hserves, hfd⟩ := exists_serves hknown.inv hknown.mirrors hknown.sound hpeer
    obtain ⟨w, rfl⟩ := exists_worker hserves.pos hserves.le
    have hworker := hknown.mirrors.workers w
    rcases workerOf_cases (s.server.conns (w + 1)) with
      ⟨_, hneg⟩ | ⟨hreading, _, _⟩ | ⟨hwriting, _, hmore⟩
    · have hlive := hserves.live
      omega
    · rw [← hworker] at hreading
      have hnone := (nothing_to_read hknown (hpolled w) hreading hserves.peer).1
      change 0 < (s.network.inbound k).length at hin
      omega
    · -- the slot holds what it has to write
      rw [← hworker] at hwriting
      have htransfers : ThreadpoolLoad.transfers pool w = some ((s.server.conns (w + 1)).fd,
          (s.server.conns (w + 1)).used, (s.server.conns (w + 1)).sent) := by
        rw [ThreadpoolLoad.transfers, hwriting]
        rfl
      have hle := ThreadpoolLoad.heldFor_le s.network.peer k (ThreadpoolLoad.transfers pool) w
      rw [htransfers, ThreadpoolLoad.heldFor, if_pos hserves.peer] at hle
      have hlt := (ThreadpoolServer.reachable_inTransfer hknown.sound.server w _ _ _
        htransfers).1
      change ThreadpoolLoad.held s.network.peer k (ThreadpoolLoad.transfers pool) = 0 at hheld
      omega
  · obtain ⟨v, fd', n, sent, hwriting, hpeer', _⟩ := ThreadpoolLoad.exists_of_held_pos hheld
    have hfull := no_room hknown (hpolled v) (ThreadpoolServer.writing_of_transfer hwriting)
      hpeer'
    change (s.network.outbound k).length < toClient at hroom
    omega

/-- Every thread with a connection waits for the last byte of the first, and has been
accepted. -/
theorem poised_of_stuck (hpayload : 0 < setup.client.payloadSize) (hserver : 0 < toServer)
    (hclient : 0 < toClient) (hbacklog : 0 < setup.backlog)
    (hfits : setup.client.payloadSize ≤ toServer + toClient + 1)
    (hknown : Known setup maxClients s pool) (hfirst : First s)
    (hstuck : ∀ e t, Patient setup s e → move setup maxClients s e ≠ some t)
    (hconnections : 0 < setup.connections i) :
    Poised setup s i ∧ ∃ fd, s.network.peer fd = some (i, 0) := by
  have hwaits : ∀ e t, serverStep setup maxClients s e ≠ some t := fun e t =>
    hstuck (.server e) t trivial
  have hempty : s.network.backlog = [] :=
    backlog_of_polled hknown.ready (nothing_polled hknown hwaits (Nat.zero_le _))
  have hsound := hknown.sound
  have hthread := ThreadpoolLoad.reachable_threads hpayload hknown.reachable i
  have hindex := (hfirst i).1
  have hconn : (s.beside pool).conn i = (i, 0) := Prod.ext rfl hindex
  cases hpc : (s.clients i).pc with
  | returned bytes =>
      have hall := (hthread.returned hpc).1
      change (s.clients i).connIndex = _ at hall
      omega
  | connecting bytes =>
      -- there is room in the backlog
      have hroom : s.network.backlog.length < setup.backlog := by
        rw [hempty]
        exact hbacklog
      obtain ⟨t, ht, _⟩ := exists_connect hpc hroom
      exact absurd ht (hstuck (.client (.connect i)) t trivial)
  | connected w =>
      have hopen := (hfirst i).2 w hpc
      obtain ⟨fd, hpeer⟩ : ∃ fd, s.network.peer fd = some (i, 0) := by
        rw [← hconn]
        rcases hsound.placed i w hpc hopen with hwaiting | haccepted
        · change (s.beside pool).conn i ∈ s.network.backlog at hwaiting
          rw [hempty] at hwaiting
          cases hwaiting
        · exact haccepted
      have hpasses := nothing_passes hknown hwaits hpeer
      have hbalanced := hsound.balanced (i, 0)
      rcases hsound.phase_cases (i, 0) with ⟨w', done, hpc', _, hwrite, hphase⟩ |
        ⟨w', done, hpc', _, hread, hphase⟩ | ⟨hgone, _⟩
      · -- it could write
        have hdone : done < setup.client.payloadSize := (hbalanced.sending done hphase).1
        rcases hbalanced.not_full hserver hfits hphase with hroom | hpass
        · rw [← hconn] at hroom
          obtain ⟨t, ht⟩ := exists_write pool hpc' hwrite hdone hroom
          exact absurd ht (hstuck (.client (.write i 1)) t trivial)
        · exact absurd hpass hpasses
      · have hdone : done < setup.client.payloadSize := (hbalanced.receiving done hphase).1
        rcases hbalanced.on_the_way hclient hphase with hout | hpass
        · refine ⟨⟨hindex, ?_, hout⟩, fd, hpeer⟩
          -- it could read, and does not
          have hready : 0 < (s.network.outbound ((s.beside pool).conn i)).length := by
            rw [hconn]
            exact hout
          obtain ⟨t, ht, _⟩ := exists_read pool hpc' hread hdone hready
          have hlast : ¬ Patient setup s (.client (.read i 1)) := fun hpatient =>
            hstuck (.client (.read i 1)) t hpatient ht
          simp only [Patient, not_forall] at hlast
          obtain ⟨w₁, done₁, hpc₁, hread₁, hreq, hnot⟩ := hlast
          have hdone₁ := ((hthread.connected hpc₁).2.2.reading hread₁).2
          exact ⟨w₁, done₁, hpc₁, hread₁, by omega, hreq⟩
        · exact absurd hpass hpasses
      · rw [← hconn, isOpen_conn hpc hopen] at hgone
        cases hgone

/-! ## One more connection -/

section Reconnect

variable {listenFd : Int}

/-- A client's step is a step of the system. -/
theorem reachable_client (hpayload : 0 < setup.client.payloadSize)
    (hs : (accepting setup maxClients listenFd toServer toClient).Reachable s)
    {e : ClientEvent threads} (hstep : clientStep setup s e = some t) :
    (accepting setup maxClients listenFd toServer toClient).Reachable t := by
  obtain ⟨pool, hknown⟩ := reachable_known hpayload hs
  have hnext : step setup maxClients s (.client e) = some t := by
    rw [step_eq hknown.alive]
    exact hstep
  exact hs.step ⟨hnext, trivial⟩

/-- It reads the last byte, and closes its connection. -/
theorem Poised.finish (h : Poised setup s i) : ∃ w t, clientStep setup s (.read i 1) = some t ∧
    Alone i s t ∧ t.network.backlog = s.network.backlog ∧
    t.clients i = ⟨0, .connected w⟩ ∧ w.pc = .closed := by
  obtain ⟨w, done, hpc, hread, hdone, hreq⟩ := h.last
  have hconn : s.clientSide.conn i = (i, 0) := Prod.ext rfl h.first
  have hready : 0 < (s.network.outbound (s.clientSide.conn i)).length := by
    rw [hconn]
    exact h.ready
  have hless : done < setup.client.payloadSize := by omega
  obtain ⟨t, hstep, hreceived⟩ := exists_read (ThreadpoolServer.initial 0) hpc hread hless hready
  obtain ⟨bytes, outbound, hbytes, hn, hle, _, heq⟩ := ThreadpoolLoad.readStep_some hreceived
  have hnetwork : t.network = { s.network with
      outbound := Function.update s.network.outbound (s.clientSide.conn i) outbound } :=
    congrArg ThreadpoolLoad.State.network heq
  have hclients : t.clients = (s.clientSide.setPc i _).clients :=
    congrArg ThreadpoolLoad.State.clients heq
  refine ⟨w.received setup.client done (.ok bytes), t, hstep,
    ⟨clientStep_server hstep, by rw [hnetwork], fun j hj => ?_, fun k hk => ?_⟩,
    by rw [hnetwork], ?_, ?_⟩
  · rw [hclients]
    exact ThreadpoolLoad.clients_setPc_of_ne _ hj
  · rw [hnetwork]
    exact Function.update_of_ne (ThreadpoolLoad.conn_ne hk) _ _
  · rw [hclients, ThreadpoolLoad.clients_setPc_self]
    exact congrArg (Thread.mk · _) h.first
  · -- it was the last request
    rw [LoadClient.received_ok hn hle, if_neg (by omega)]
    exact if_neg (by dsimp only; omega)

/-- On to the next connection. -/
theorem exists_next (hclosed : w.pc = .closed) (hself : s.clients i = ⟨0, .connected w⟩)
    (hmore : 1 < setup.connections i) : ∃ t, clientStep setup s (.next i) = some t ∧
    Alone i s t ∧ t.network.backlog = s.network.backlog ∧
    t.clients i = ⟨1, .connecting w.bytesCompleted⟩ := by
  have hpc : (s.clientSide.clients i).pc = .connected w := congrArg Thread.pc hself
  have hindex : (s.clientSide.clients i).connIndex = 0 := congrArg Thread.connIndex hself
  have hnext : ThreadpoolLoad.step setup s.clientSide (ClientEvent.next i).beside =
      some (ThreadpoolLoad.nextStep setup s.clientSide i w) := by
    simp only [ClientEvent.beside, ThreadpoolLoad.step, hpc, if_pos hclosed]
  obtain ⟨t, hstep, heq⟩ := exists_clientStep hnext
  have hnetwork : t.network = s.network := congrArg ThreadpoolLoad.State.network heq
  have hclients : t.clients = (ThreadpoolLoad.nextStep setup s.clientSide i w).clients :=
    congrArg ThreadpoolLoad.State.clients heq
  refine ⟨t, hstep, ⟨clientStep_server hstep, by rw [hnetwork], fun j hj => ?_,
    fun k _ => by rw [hnetwork]⟩, by rw [hnetwork], ?_⟩
  · rw [hclients]
    exact ThreadpoolLoad.clients_nextStep_of_ne hj
  · rw [hclients, ThreadpoolLoad.clients_nextStep, hindex]
    exact congrArg (Thread.mk 1) (if_pos hmore)

/-- The thread reads the last byte, closes its connection and makes another. -/
theorem Poised.reconnect (h : Poised setup s i) (hpayload : 0 < setup.client.payloadSize)
    (hbacklog : 0 < setup.backlog) (hmore : 1 < setup.connections i)
    (hempty : s.network.backlog = [])
    (hs : (accepting setup maxClients listenFd toServer toClient).Reachable s) :
    ∃ t, (accepting setup maxClients listenFd toServer toClient).Reachable t ∧ Alone i s t ∧
      t.network.backlog = [(i, 1)] := by
  obtain ⟨w, s₁, hread, halone₁, hbacklog₁, hself₁, hclosed⟩ := h.finish
  obtain ⟨s₂, hnext, halone₂, hbacklog₂, hself₂⟩ := exists_next hclosed hself₁ hmore
  have hnobody : s₂.network.backlog = [] := hbacklog₂.trans (hbacklog₁.trans hempty)
  obtain ⟨t, hconnect, halone₃, hbacklog₃⟩ := exists_connect (congrArg Thread.pc hself₂)
    (show s₂.network.backlog.length < setup.backlog by rw [hnobody]; exact hbacklog)
  have hconn : s₂.clientSide.conn i = (i, 1) := Prod.ext rfl (congrArg Thread.connIndex hself₂)
  have hreachable := reachable_client hpayload
    (reachable_client hpayload (reachable_client hpayload hs hread) hnext) hconnect
  refine ⟨t, hreachable, (halone₁.trans halone₂).trans halone₃, ?_⟩
  rw [hbacklog₃, hnobody, hconn]
  rfl

/-- The only one that waits is accepted. -/
theorem exists_accepted (hpayload : 0 < setup.client.payloadSize)
    (hadmits : AlwaysAdmits setup maxClients listenFd toServer toClient) {k : Conn threads}
    (hs : (accepting setup maxClients listenFd toServer toClient).Reachable s)
    (hpc : s.server.pc = .accept) (hbacklog : s.network.backlog = [k]) :
    ∃ t fd, (accepting setup maxClients listenFd toServer toClient).Reachable t ∧
      t.server.pc = .accept ∧ t.clients = s.clients ∧ s.network.peer fd = none ∧
      t.network = { s.network with
        backlog := []
        peer := Function.update s.network.peer fd (some k) } := by
  obtain ⟨pool, hknown⟩ := reachable_known hpayload hs
  obtain ⟨e, t, hmove⟩ := exists_accept hknown hpc
  have hstep : step setup maxClients s (.server e) = some t := by
    rw [step_eq hknown.alive]
    exact hmove
  have hadmitted := hadmits s _ t hs hstep
  have ht := hs.step ⟨hstep, hadmitted⟩
  cases serverStep_served hknown.ready hknown.inv hmove with
  | poll hpoll =>
      rw [hpc] at hpoll
      cases hpoll
  | drained _ hempty =>
      rw [hbacklog] at hempty
      cases hempty
  | slot i y network hscan =>
      rw [hpc] at hscan
      cases hscan
  | refuse k' rest _ _ hfull =>
      obtain ⟨i, hi, him, hfree⟩ := hadmitted
      exact absurd (hfull i hi him) (Int.not_le.mpr hfree)
  | @accept fd k' rest i _ hcons hkernel _ _ _ heq =>
      subst heq
      rw [hbacklog] at hcons
      cases hcons
      refine ⟨_, fd, ht, hpc, rfl, ?_, rfl⟩
      rw [Option.eq_none_iff_forall_ne_some]
      intro k' hpeer
      have hopen := (hknown.sound.peers fd).mpr ⟨k', hpeer⟩
      change fd ∈ Transcript.clients setup.base pool.trace at hopen
      rw [hknown.mirrors.trace] at hopen
      exact not_mem_of_accept hkernel hopen

/-- `poll` reports that somebody has connected. -/
theorem exists_listening (hpayload : 0 < setup.client.payloadSize)
    (hs : (accepting setup maxClients listenFd toServer toClient).Reachable s)
    (hpc : s.server.pc = .poll ∨ s.server.pc = .accept) (hbacklog : s.network.backlog ≠ []) :
    ∃ t, (accepting setup maxClients listenFd toServer toClient).Reachable t ∧
      t.server.pc = .accept ∧ t.clients = s.clients ∧ t.network = s.network := by
  rcases hpc with hpc | hpc
  · obtain ⟨pool, hknown⟩ := reachable_known hpayload hs
    have hlistener : (s.polled 0).pollin = true := by
      rw [State.polled, if_pos rfl, hknown.ready.listener]
      simpa [PollServer.POLLIN] using hbacklog
    have hflags : s.polled 0 ≠ noFlags := by
      intro hnone
      rw [hnone] at hlistener
      cases hlistener
    obtain ⟨t, hmove⟩ := exists_poll hknown hpc ⟨0, Nat.zero_le _, hflags⟩
    have hstep : step setup maxClients s (.server .poll) = some t := by
      rw [step_eq hknown.alive]
      exact hmove
    cases serverStep_served hknown.ready hknown.inv hmove with
    | poll _ _ heq =>
        subst heq
        exact ⟨_, hs.step ⟨hstep, trivial⟩, if_pos hlistener, rfl, rfl⟩
  · exact ⟨s, hs, hpc, rfl, rfl⟩

end Reconnect

/-! ## All of them -/

/-- The threads in `again` have two connections with the server, the others are about to
close their first. -/
structure Crowd (setup : Setup threads) (s : State threads toServer toClient)
    (again : Finset (Fin threads)) : Prop where
  listening : s.server.pc = .poll ∨ s.server.pc = .accept
  backlog : s.network.backlog = []
  first : ∀ i, 0 < setup.connections i → ∃ fd, s.network.peer fd = some (i, 0)
  second : ∀ i ∈ again, ∃ fd, s.network.peer fd = some (i, 1)
  poised : ∀ i, i ∉ again → 0 < setup.connections i → Poised setup s i

section Crowd

variable {listenFd : Int} (hrequests : 0 < setup.client.requestsPerConnection)
  (hpayload : 0 < setup.client.payloadSize) (hserver : 0 < toServer) (hclient : 0 < toClient)
  (hbacklog : 0 < setup.backlog)
  (hfits : setup.client.payloadSize ≤ toServer + toClient + 1)
  (hadmits : AlwaysAdmits setup maxClients listenFd toServer toClient)

include hrequests hpayload hserver hclient hbacklog hfits hadmits in
/-- Nobody reads the last byte. -/
theorem exists_poised : ∃ s, (accepting setup maxClients listenFd toServer toClient).Reachable s ∧
    Crowd setup s ∅ := by
  let T := (accepting setup maxClients listenFd toServer toClient).restrict (Patient setup)
  have hstart : T.Reachable (initial setup listenFd) := .start rfl
  obtain ⟨es, s, hrun, hlast⟩ := System.exists_last_of_bounded (T := T)
    fun es t hrun => initial_length_le hpayload hrun.of_restrict
  have hpatient := hrun.reachable hstart
  have hs := hpatient.of_restrict
  have hfirst : First s := by
    refine hpatient.induct ?_ ?_
    · rintro s rfl i
      exact ⟨rfl, fun w hw => absurd hw (LoadClient.loopTest_not_connected _ _ _ w)⟩
    · intro s e t hs h hnext
      obtain ⟨pool, hknown⟩ := reachable_known hpayload hs.of_restrict
      exact h.step hrequests hknown
        (ThreadpoolLoad.reachable_threads hpayload hknown.reachable) hnext.1.1 hnext.2
  obtain ⟨pool, hknown⟩ := reachable_known hpayload hs
  have hstuck : ∀ e t, Patient setup s e → move setup maxClients s e ≠ some t := by
    intro e t hpatient ht
    rw [← step_eq hknown.alive] at ht
    exact hlast ⟨e, t, ⟨ht, hadmits s e t hs ht⟩, hpatient⟩
  have hwaits : ∀ e t, serverStep setup maxClients s e ≠ some t := fun e t =>
    hstuck (.server e) t trivial
  have hall : ∀ i, 0 < setup.connections i → Poised setup s i ∧
      ∃ fd, s.network.peer fd = some (i, 0) := fun i =>
    poised_of_stuck hpayload hserver hclient hbacklog hfits hknown hfirst hstuck
  exact ⟨s, hs, .inl (polling_of_stuck hknown hwaits),
    backlog_of_polled hknown.ready (nothing_polled hknown hwaits (Nat.zero_le _)),
    fun i hi => (hall i hi).2, fun i hi => absurd hi (Finset.notMem_empty i),
    fun i _ hi => (hall i hi).1⟩

include hpayload hbacklog hadmits in
/-- One more thread connects again. -/
theorem Crowd.insert {again : Finset (Fin threads)} {i : Fin threads} (h : Crowd setup s again)
    (hi : i ∉ again) (hmore : 1 < setup.connections i)
    (hs : (accepting setup maxClients listenFd toServer toClient).Reachable s) :
    ∃ t, (accepting setup maxClients listenFd toServer toClient).Reachable t ∧
      Crowd setup t (Insert.insert i again) := by
  obtain ⟨s₁, hs₁, halone, hbacklog₁⟩ :=
    (h.poised i hi (by omega)).reconnect hpayload hbacklog hmore h.backlog hs
  obtain ⟨s₂, hs₂, hpc₂, hclients₂, hnetwork₂⟩ := exists_listening hpayload hs₁
    (by rw [halone.server]; exact h.listening) (by rw [hbacklog₁]; exact List.cons_ne_nil _ _)
  obtain ⟨t, fd, ht, hpc, hclients, hnew, hnetwork⟩ := exists_accepted hpayload hadmits hs₂ hpc₂
    (by rw [hnetwork₂]; exact hbacklog₁)
  -- who was accepted before still is
  have hkept : ∀ k, (∃ fd', s.network.peer fd' = some k) → ∃ fd', t.network.peer fd' = some k := by
    rintro k ⟨fd', hfd'⟩
    have hbefore : s₂.network.peer fd' = some k := by
      rw [hnetwork₂, halone.peer]
      exact hfd'
    refine ⟨fd', ?_⟩
    rw [hnetwork]
    dsimp only
    rw [Function.update_of_ne]
    · exact hbefore
    · rintro rfl
      rw [hnew] at hbefore
      cases hbefore
  refine ⟨t, ht, .inr hpc, by rw [hnetwork], fun j hj => hkept _ (h.first j hj), fun j hj => ?_,
    fun j hj hconnections => ?_⟩
  · rcases Finset.mem_insert.mp hj with rfl | hj
    · refine ⟨fd, ?_⟩
      rw [hnetwork]
      exact Function.update_self _ _ _
    · exact hkept _ (h.second j hj)
  · obtain ⟨hji, hj⟩ := not_or.mp fun hmem => hj (Finset.mem_insert.mpr hmem)
    have hpoised := h.poised j hj hconnections
    have hclient : t.clients j = s.clients j := by
      rw [hclients, hclients₂]
      exact halone.clients j hji
    refine ⟨?_, ?_, ?_⟩
    · rw [hclient]
      exact hpoised.first
    · rw [hclient]
      exact hpoised.last
    · rw [hnetwork, hnetwork₂]
      dsimp only
      rw [halone.outbound (j, 0) hji]
      exact hpoised.ready

include hrequests hpayload hserver hclient hbacklog hfits hadmits in
/-- All the threads that have more than one connection have two at a time. -/
theorem exists_crowd (again : Finset (Fin threads))
    (hmore : ∀ i ∈ again, 1 < setup.connections i) :
    ∃ s, (accepting setup maxClients listenFd toServer toClient).Reachable s ∧
      Crowd setup s again := by
  induction again using Finset.induction_on with
  | empty => exact exists_poised hrequests hpayload hserver hclient hbacklog hfits hadmits
  | insert i again hi ih =>
      obtain ⟨s, hs, hcrowd⟩ := ih fun j hj => hmore j (Finset.mem_insert_of_mem hj)
      exact hcrowd.insert hpayload hbacklog hadmits hi (hmore i (Finset.mem_insert_self i again)) hs

include hrequests hpayload hserver hclient hbacklog hfits hadmits in
/-- If nobody is ever turned away there are as many slots as the threads need. -/
theorem slotsNeeded_le : slotsNeeded setup ≤ maxClients := by
  obtain ⟨s, hs, hcrowd⟩ := exists_crowd hrequests hpayload hserver hclient hbacklog hfits hadmits
    (Finset.univ.filter fun i => 1 < setup.connections i) fun i hi => (Finset.mem_filter.mp hi).2
  obtain ⟨pool, hknown⟩ := reachable_known hpayload hs
  let conns : Finset ((_ : Fin threads) × Nat) :=
    Finset.univ.sigma fun i => Finset.range (min 2 (setup.connections i))
  have hserves : ∀ k ∈ conns, ∃ j, Serves maxClients s j (k.1, k.2) := by
    rintro ⟨i, n⟩ hk
    have hn : n < min 2 (setup.connections i) := Finset.mem_range.mp (Finset.mem_sigma.mp hk).2
    obtain ⟨fd, hpeer⟩ : ∃ fd, s.network.peer fd = some (i, n) := by
      rcases Nat.le_one_iff_eq_zero_or_eq_one.mp (show n ≤ 1 by omega) with rfl | rfl
      · exact hcrowd.first i (by omega)
      · exact hcrowd.second i (Finset.mem_filter.mpr ⟨Finset.mem_univ i, by omega⟩)
    obtain ⟨j, hj, _⟩ := exists_serves hknown.inv hknown.mirrors hknown.sound hpeer
    exact ⟨j, hj⟩
  choose! slot hslot using hserves
  have hle : conns.card ≤ (Finset.Icc 1 maxClients).card := by
    refine Finset.card_le_card_of_injOn slot (fun k hk => ?_) fun k hk k' hk' heq => ?_
    · exact Finset.mem_coe.mpr (Finset.mem_Icc.mpr ⟨(hslot k hk).pos, (hslot k hk).le⟩)
    · have hpeer := (hslot k hk).peer
      rw [heq, (hslot k' hk').peer] at hpeer
      obtain ⟨i, n⟩ := k
      obtain ⟨i', n'⟩ := k'
      cases hpeer
      rfl
  have hcard : conns.card = slotsNeeded setup := by
    rw [Finset.card_sigma, slotsNeeded]
    exact Finset.sum_congr rfl fun i _ => Finset.card_range _
  rw [Nat.card_Icc, hcard] at hle
  omega

end Crowd

/-! ## When all requests are completed -/

/-- For any number of client threads with any numbers of connections against the `poll`
server: with two slots for each thread, or one for a thread with a single connection,
nobody is ever turned away, and no run has more steps than its connections cost.  And all
requests are completed in every run if and only if there are as many slots and a payload
fits into the two buffers of a connection with a byte to spare. -/
theorem poll_load_completes_iff (hrequests : 1 ≤ setup.client.requestsPerConnection)
    (hconnections : ∃ i, 1 ≤ setup.connections i) (hpayload : 1 ≤ setup.client.payloadSize)
    (hserver : 1 ≤ toServer) (hclient : 1 ≤ toClient) (hbacklog : 1 ≤ setup.backlog)
    (listenFd : Int) :
    (slotsNeeded setup ≤ maxClients →
      AlwaysAdmits setup maxClients listenFd toServer toClient ∧ ∀ es s,
        (system setup maxClients listenFd toServer toClient).Run (initial setup listenFd) es s →
        es.length ≤ (2 * maxClients + 4) * ((∑ i, setup.connections i) * (maxClients + 8 +
          4 * (setup.client.requestsPerConnection * setup.client.payloadSize)) +
          maxClients + 1)) ∧
    ((system setup maxClients listenFd toServer toClient).Completes (Completed setup maxClients) ↔
      setup.client.payloadSize ≤ toServer + toClient + 1 ∧ slotsNeeded setup ≤ maxClients) := by
  obtain ⟨i, hi⟩ := hconnections
  refine ⟨fun hslots => ?_, fun hcompletes => ?_, fun hboth => ?_⟩
  · have hadmits : AlwaysAdmits setup maxClients listenFd toServer toClient :=
      alwaysAdmits hrequests hpayload hslots listenFd
    refine ⟨hadmits, fun es s hrun => ?_⟩
    exact initial_length_le hpayload
      (System.Run.restrict_of_reachable hadmits (.start rfl) hrun)
  · have hadmits := alwaysAdmits_of_completes hrequests hpayload hcompletes
    have hfits : setup.client.payloadSize ≤ toServer + toClient + 1 := by
      by_contra hlong
      obtain ⟨s, hs, hstuck, hnot⟩ := exists_jam hrequests hi (Nat.lt_of_not_le hlong) hadmits
      exact hnot (hcompletes.ends s hs hstuck)
    exact ⟨hfits, slotsNeeded_le hrequests hpayload hserver hclient hbacklog hfits hadmits⟩
  · obtain ⟨hfits, hslots⟩ := hboth
    have hone : min 2 (setup.connections i) ≤ slotsNeeded setup :=
      Finset.single_le_sum (f := fun i => min 2 (setup.connections i))
        (fun _ _ => Nat.zero_le _) (Finset.mem_univ i)
    exact completes_of_fits (by omega) hpayload hserver hclient hbacklog
      (alwaysAdmits hrequests hpayload hslots listenFd) hfits

end Model

/-- Two clients, one of which connects twice: with three slots all their requests are
completed, with two they need not be. -/
theorem poll_load_completes_three :
    (system (⟨⟨3, 1⟩, fun i => 2 - i, 256, ∅⟩ : Setup 2) 3 3 1 1).Completes
      (Completed ⟨⟨3, 1⟩, fun i => 2 - i, 256, ∅⟩ 3) ∧
    ¬ (system (⟨⟨3, 1⟩, fun i => 2 - i, 256, ∅⟩ : Setup 2) 2 3 1 1).Completes
      (Completed ⟨⟨3, 1⟩, fun i => 2 - i, 256, ∅⟩ 2) := by
  have hone : 1 ≤ 1 := by decide
  have hpayload : 1 ≤ 3 := by decide
  have hbacklog : 1 ≤ 256 := by decide
  have hfits : 3 ≤ 1 + 1 + 1 := by decide
  have hslots : slotsNeeded (⟨⟨3, 1⟩, fun i => 2 - i, 256, ∅⟩ : Setup 2) = 3 := by decide
  constructor
  · exact (poll_load_completes_iff hone ⟨1, hone⟩ hpayload hone hone hbacklog 3).2.mpr
      ⟨hfits, by rw [hslots]⟩
  · intro hcompletes
    have hle := ((poll_load_completes_iff hone ⟨1, hone⟩ hpayload hone hone hbacklog 3).2.mp
      hcompletes).2
    rw [hslots] at hle
    omega

end SysLab.PartB.PollLoad
