import SysLab.PartB.ThreadpoolSound

/-!
# The load client and the thread-pool server never wait for each other

A worker stays with a connection until the client has closed it; meanwhile one of
the two can move.  When no worker serves anybody they all wait, so nobody is left in
the queue, the main thread is at `accept`, and whoever has connected is accepted.
-/

namespace SysLab.PartB.ThreadpoolLoad

open SysLab.Foundation
open SysLab.PartB.LoadClient (Config Thread ThreadPc Worker sendBuf)
open Transcript (clients mem_clients)

section Model

variable {threadCount threads toServer toClient : Nat} {setup : Setup threads}
  {s t : State threadCount threads toServer toClient}

/-- A step of a client thread, of a worker or of the main thread. -/
def State.CanStep (setup : Setup threads)
    (s : State threadCount threads toServer toClient) : Prop :=
  ∃ e t, (∀ w, e ≠ .server (.spurious w)) ∧ step setup s e = some t

/-- A step of the server whose calls the network answers. -/
theorem exists_serverStep {e : ThreadpoolServer.Event threadCount}
    {server : ThreadpoolServer.State threadCount} (calls : Trace)
    (hfaultless : faultless e = true)
    (hstep : ThreadpoolServer.step s.server e = some server)
    (hcalls : server.trace = calls ++ s.server.trace)
    (hkernel : KernelOk setup.base server.trace)
    (hanswers : ∃ network, s.network.answers s.isOpen calls = some network) :
    ∃ t, step setup s (.server e) = some t := by
  obtain ⟨network, hanswers⟩ := hanswers
  refine ⟨{ s with server := server, network := network }, ?_⟩
  have hnew : newCalls s.server.trace server.trace = calls := by
    rw [hcalls, newCalls_append]
  show serverStep setup s e = _
  rw [serverStep, if_pos hfaultless, hstep, Option.bind_some, if_pos hkernel, hnew, hanswers]
  rfl

theorem canStep_of_server {e : ThreadpoolServer.Event threadCount}
    (hspurious : ∀ w, e ≠ .spurious w) (hstep : ∃ t, step setup s (.server e) = some t) :
    s.CanStep setup := by
  obtain ⟨t, hstep⟩ := hstep
  refine ⟨.server e, t, ?_, hstep⟩
  rintro w ⟨⟩
  exact hspurious w rfl

theorem canStep_of_quiet (h : Sound setup s) {e : ThreadpoolServer.Event threadCount}
    {server : ThreadpoolServer.State threadCount} (hquiet : e.Quiet)
    (hspurious : ∀ w, e ≠ .spurious w)
    (hstep : ThreadpoolServer.step s.server e = some server) : s.CanStep setup := by
  have htrace := (ThreadpoolServer.step_quiet hquiet hstep).1
  have hfaultless : faultless e = true := by
    cases e with
    | accept res => cases hquiet
    | malloc node =>
        cases node with
        | none => cases hquiet
        | some node => rfl
    | push wake => rfl
    | pop w => rfl
    | spurious w => rfl
    | take w => rfl
    | read w res => cases hquiet
    | write w res => cases hquiet
  refine canStep_of_server hspurious (exists_serverStep [] hfaultless hstep htrace ?_ ⟨_, rfl⟩)
  rw [htrace]
  exact ThreadpoolServer.reachable_kernelOk h.server

/-- The main thread accepts whoever has connected. -/
theorem canStep_of_backlog (h : Sound setup s) (hpc : s.server.acceptor = .accept)
    (hbacklog : s.network.backlog ≠ []) : s.CanStep setup := by
  obtain ⟨fd, hfd⟩ := exists_fd (Transcript.openKeys setup.base s.server.trace)
  obtain ⟨k, rest, hcons⟩ := List.exists_cons_of_ne_nil hbacklog
  have hstep : ThreadpoolServer.step s.server (.accept (.ok fd)) =
      some (ThreadpoolServer.acceptStep s.server (.ok fd)) := by
    simp only [ThreadpoolServer.step, hpc]
  refine canStep_of_server (by simp) (exists_serverStep [.accept fd] rfl hstep rfl
    ⟨⟨Int.natCast_nonneg fd, hfd⟩, ThreadpoolServer.reachable_kernelOk h.server⟩
    ⟨{ s.network with
      backlog := rest
      peer := Function.update s.network.peer fd (some k) }, ?_⟩)
  show s.network.answer s.isOpen (.accept fd) = _
  simp only [Network.answer, hcons]

/-- A worker reads the first of the bytes that are there. -/
theorem exists_readStep (h : Sound setup s) {w : Fin threadCount} {fd : Int}
    {k : Conn threads} (hpc : (s.server.workers w).pc = .reading fd)
    (hpeer : s.network.peer fd = some k) (hin : 0 < (s.network.inbound k).length) :
    ∃ b t, step setup s (.server (.read w (.ok [b]))) = some t := by
  obtain ⟨bytes, inbound, hpop⟩ := Channel.exists_pop (n := 1) hin
  have hlength := (Channel.pop_some hpop).1
  obtain ⟨b, rfl⟩ := List.length_eq_one_iff.mp hlength
  have hstep : ThreadpoolServer.step s.server (.read w (.ok [b])) =
      some (ThreadpoolServer.readStep s.server w fd (.ok [b])) := by
    simp only [ThreadpoolServer.step, hpc]
  refine ⟨b, exists_serverStep [.read fd 4096 (.ok [b])] rfl hstep rfl
    ⟨show 1 ≤ 4096 by decide, ThreadpoolServer.reachable_kernelOk h.server⟩
    ⟨{ s.network with inbound := Function.update s.network.inbound k inbound }, ?_⟩⟩
  show (s.network.peer fd).bind (fun k => s.network.answerRead s.isOpen k [b]) = _
  rw [hpeer, Option.bind_some, Network.answerRead, if_neg (List.cons_ne_nil b []),
    List.length_singleton, hpop]
  exact if_pos rfl

theorem canStep_of_inbound (h : Sound setup s) {w : Fin threadCount} {fd : Int}
    {k : Conn threads} (hpc : (s.server.workers w).pc = .reading fd)
    (hpeer : s.network.peer fd = some k) (hin : 0 < (s.network.inbound k).length) :
    s.CanStep setup := by
  obtain ⟨b, hstep⟩ := exists_readStep h hpc hpeer hin
  exact canStep_of_server (by simp) hstep

/-- It sees the end of the stream when the client has gone. -/
theorem canStep_of_gone (h : Sound setup s) {w : Fin threadCount} {fd : Int}
    {k : Conn threads} (hpc : (s.server.workers w).pc = .reading fd)
    (hpeer : s.network.peer fd = some k) (hgone : s.isOpen k = false)
    (hin : (s.network.inbound k).length = 0) : s.CanStep setup := by
  have hstep : ThreadpoolServer.step s.server (.read w (.ok [])) =
      some (ThreadpoolServer.readStep s.server w fd (.ok [])) := by
    simp only [ThreadpoolServer.step, hpc]
  refine canStep_of_server (by simp)
    (exists_serverStep [.close fd, .read fd 4096 (.ok [])] rfl hstep rfl
    ⟨trivial, show 0 ≤ 4096 by decide, ThreadpoolServer.reachable_kernelOk h.server⟩
    ⟨{ s.network with
      peer := Function.update s.network.peer fd none
      dropped := Function.update s.network.dropped k true }, ?_⟩)
  have hread : s.network.answers s.isOpen [.read fd 4096 (.ok [])] = some s.network := by
    show (s.network.peer fd).bind (fun k => s.network.answerRead s.isOpen k []) = _
    rw [hpeer, Option.bind_some, Network.answerRead, if_pos rfl, if_pos ⟨hgone, hin⟩]
  rw [Network.answers, hread, Option.bind_some, Network.answer, hpeer]
  rfl

/-- It writes where there is room. -/
theorem canStep_of_outbound (h : Sound setup s) {w : Fin threadCount} {fd : Int}
    {n done : Nat} {k : Conn threads} (hpc : (s.server.workers w).pc = .writing fd n done)
    (hpeer : s.network.peer fd = some k) (hroom : (s.network.outbound k).length < toClient) :
    s.CanStep setup := by
  have htransfer := ThreadpoolServer.reachable_inTransfer h.server w
  have hwindow := ThreadpoolServer.length_window hpc htransfer
  have hmore := (htransfer fd n done (by rw [hpc]; rfl)).1
  have hchunk : 0 < 1 ∧ 1 ≤ ((s.server.workers w).buffer.window done n).length := by omega
  have htake : (((s.server.workers w).buffer.window done n).take 1).length = 1 :=
    List.length_take_of_le hchunk.2
  obtain ⟨outbound, hpush⟩ := Channel.exists_push (c := s.network.outbound k)
    (show _ + (((s.server.workers w).buffer.window done n).take 1).length ≤ toClient by omega)
  have hstep : ThreadpoolServer.step s.server (.write w (.ok 1)) =
      some (ThreadpoolServer.writeStep s.server w fd n done (.ok 1)) := by
    simp only [ThreadpoolServer.step, hpc]
  have hwrite : ThreadpoolServer.writeStep s.server w fd n done (.ok 1) = _ :=
    ThreadpoolServer.writeStep_ok Nat.one_pos hmore
  rw [hwrite] at hstep
  refine canStep_of_server (by simp) (exists_serverStep
    [.write fd ((s.server.workers w).buffer.window done n) (.ok 1)] rfl hstep rfl
    ⟨hchunk.2, ThreadpoolServer.reachable_kernelOk h.server⟩
    ⟨{ s.network with outbound := Function.update s.network.outbound k outbound }, ?_⟩)
  show (s.network.peer fd).bind (fun k => s.network.answerWrite k _ 1) = _
  rw [hpeer, Option.bind_some, Network.answerWrite, if_pos hchunk, hpush]
  rfl

/-- A client writes where there is room. -/
theorem canStep_of_sending {i : Fin threads} {w : Worker} {done : Nat}
    (hpc : (s.clients i).pc = .connected w) (hwrite : w.pc = .writeFull done)
    (hdone : done < setup.client.payloadSize)
    (hroom : (s.network.inbound (s.conn i)).length < toServer) : s.CanStep setup := by
  have hchunk : (((sendBuf setup.client).drop done).take 1).length = 1 :=
    LoadClient.length_chunk hdone
  obtain ⟨inbound, hpush⟩ := Channel.exists_push (c := s.network.inbound (s.conn i))
    (show _ + (((sendBuf setup.client).drop done).take 1).length ≤ toServer by omega)
  obtain ⟨t, ht⟩ : ∃ t, writeStep setup s i w done 1 = some t := by
    rw [writeStep, if_pos ⟨Nat.one_pos, hdone⟩, Network.send, hpush]
    exact ⟨_, rfl⟩
  refine ⟨.write i 1, t, by simp, ?_⟩
  simp only [step, hpc, hwrite, ht]

/-- A client reads what is there to read. -/
theorem canStep_of_receiving {i : Fin threads} {w : Worker} {done : Nat}
    (hpc : (s.clients i).pc = .connected w) (hread : w.pc = .readFull done)
    (hdone : done < setup.client.payloadSize)
    (hout : 0 < (s.network.outbound (s.conn i)).length) : s.CanStep setup := by
  obtain ⟨bytes, outbound, hpop⟩ := Channel.exists_pop (n := 1) hout
  obtain ⟨t, ht⟩ : ∃ t, readStep setup s i w done 1 = some t := by
    rw [readStep, if_pos ⟨Nat.one_pos, hdone⟩, Network.receive, hpop]
    exact ⟨_, rfl⟩
  refine ⟨.read i 1, t, by simp, ?_⟩
  simp only [step, hpc, hread, ht]

/-- The client is at the call that its phase says. -/
theorem Sound.phase_cases (h : Sound setup s) (k : Conn threads) :
    (∃ w done, (s.clients k.1).pc = .connected w ∧ k = s.conn k.1 ∧
      w.pc = .writeFull done ∧ (s.view k).phase = .sending done) ∨
    (∃ w done, (s.clients k.1).pc = .connected w ∧ k = s.conn k.1 ∧
      w.pc = .readFull done ∧ (s.view k).phase = .receiving done) ∨
    s.isOpen k = false ∧ (s.view k).phase = .finished := by
  rw [State.view, State.isOpen]
  cases hworker : s.worker k with
  | none => exact .inr (.inr ⟨rfl, rfl⟩)
  | some w =>
      obtain ⟨hpc, hconn⟩ := worker_of_some hworker
      rw [Option.elim_some]
      cases hw : w.pc with
      | writeFull done => exact .inl ⟨w, done, hpc, hconn, hw, rfl⟩
      | readFull done => exact .inr (.inl ⟨w, done, hpc, hconn, hw, rfl⟩)
      | closed => exact .inr (.inr ⟨by simp [hw], rfl⟩)
      | died message => exact absurd hw (h.alive k.1 w message hpc)

/-- A worker that reads or writes, or the client at the other end, can move, if a
payload fits into the two buffers with a byte to spare. -/
theorem canStep_of_fits (h : Sound setup s)
    (hserver : 0 < setup.client.payloadSize → 0 < toServer) (hclient : 0 < toClient)
    (hfits : setup.client.payloadSize ≤ toServer + toClient + 1)
    {w : Fin threadCount} {fd : Int}
    (hpc : (s.server.workers w).pc = .reading fd ∨
      ∃ n done, (s.server.workers w).pc = .writing fd n done) : s.CanStep setup := by
  have hserving : fd ∈ s.server.queue.serving (s.server.workers w).pc := by
    rcases hpc with hpc | ⟨n, done, hpc⟩
    · rw [hpc]
      exact List.mem_singleton_self fd
    · rw [hpc]
      exact List.mem_singleton_self fd
  obtain ⟨k, hpeer⟩ :=
    (h.peers fd).mp (ThreadpoolServer.reachable_serving h.server hserving).1
  have hbalanced := h.balanced k
  -- a worker that writes holds something
  have hreading : (s.view k).held = 0 → (s.server.workers w).pc = .reading fd := by
    intro hnone
    rcases hpc with hpc | ⟨n, done, hpc⟩
    · exact hpc
    · have hwriting : transfers s.server w = some (fd, n, done) := by
        rw [transfers, hpc]
        rfl
      have hle := heldFor_le s.network.peer k (transfers s.server) w
      rw [hwriting, heldFor, if_pos hpeer] at hle
      have hmore := (ThreadpoolServer.reachable_inTransfer h.server w fd n done hwriting).1
      change held s.network.peer k (transfers s.server) = 0 at hnone
      omega
  have hpassing : ((s.view k).held = 0 ∧ 0 < (s.view k).inbound) ∨
      (0 < (s.view k).held ∧ (s.view k).outbound < toClient) → s.CanStep setup := by
    rintro (⟨hheld, hin⟩ | ⟨hheld, hroom⟩)
    · exact canStep_of_inbound h (hreading hheld) hpeer hin
    · obtain ⟨v, fd', n, sent, hwriting, hpeer', _⟩ := exists_of_held_pos hheld
      exact canStep_of_outbound h (ThreadpoolServer.writing_of_transfer hwriting) hpeer' hroom
  rcases h.phase_cases k with ⟨w', done, hthread, hconn, hwrite, hphase⟩ |
    ⟨w', done, hthread, hconn, hread, hphase⟩ | ⟨hgone, hphase⟩
  · have hdone : done < setup.client.payloadSize := (hbalanced.sending done hphase).1
    rcases hbalanced.not_full (hserver (by omega)) hfits hphase with hroom | hpass
    · rw [hconn] at hroom
      exact canStep_of_sending hthread hwrite hdone hroom
    · exact hpassing hpass
  · have hdone := (hbalanced.receiving done hphase).1
    rcases hbalanced.on_the_way hclient hphase with hout | hpass
    · rw [hconn] at hout
      exact canStep_of_receiving hthread hread hdone hout
    · exact hpassing hpass
  · have hsum := hbalanced.finished hphase
    have hheld : (s.view k).held = 0 := by omega
    have hin : (s.view k).inbound = 0 := by omega
    exact canStep_of_gone h (hreading hheld) hpeer hgone hin

/-- So it is when it fits into the buffer to the server alone. -/
theorem canStep_of_serving (h : Sound setup s)
    (hserver : setup.client.payloadSize ≤ toServer) (hclient : 0 < toClient)
    {w : Fin threadCount} {fd : Int}
    (hpc : (s.server.workers w).pc = .reading fd ∨
      ∃ n done, (s.server.workers w).pc = .writing fd n done) : s.CanStep setup :=
  canStep_of_fits h (fun hpositive => Nat.lt_of_lt_of_le hpositive hserver) hclient
    (by omega) hpc

/-- When all the workers wait, the main thread or a client thread can move. -/
theorem canStep_of_waiting (h : Sound setup s) (hbacklog : 0 < setup.backlog)
    (hblocked : ThreadpoolServer.Blocked s.server)
    (hwaiting : ∃ w, (s.server.workers w).pc = .waiting)
    (hidle : ∀ w, (s.server.workers w).pc = .waiting) {i : Fin threads}
    (hreturned : ∀ bytes, (s.clients i).pc ≠ .returned bytes) : s.CanStep setup := by
  have hnobody : ∀ fd, s.network.peer fd = none := by
    intro fd
    rw [Option.eq_none_iff_forall_ne_some]
    intro k hk
    obtain ⟨w, hw⟩ := hblocked.serving h.server hwaiting ((h.peers fd).mpr ⟨k, hk⟩)
    rw [hidle w] at hw
    cases hw
  by_cases hempty : s.network.backlog = []
  · cases hpc : (s.clients i).pc with
    | connecting bytesCompleted =>
        have hroom : s.network.backlog.length < setup.backlog := by
          rw [hempty]
          exact hbacklog
        obtain ⟨t, ht⟩ : ∃ t, connectStep setup s i bytesCompleted = some t := by
          rw [connectStep, Network.connect, if_pos hroom]
          exact ⟨_, rfl⟩
        refine ⟨.connect i, t, by simp, ?_⟩
        simp only [step, hpc, ht]
    | connected w =>
        by_cases hclosed : w.pc = .closed
        · refine ⟨.next i, nextStep setup s i w, by simp, ?_⟩
          simp only [step, hpc, if_pos hclosed]
        · rcases h.placed i w hpc hclosed with hmem | ⟨fd, hfd⟩
          · rw [hempty] at hmem
            cases hmem
          · rw [hnobody fd] at hfd
            cases hfd
    | returned bytes => exact absurd hpc (hreturned bytes)
  · exact canStep_of_backlog h hblocked.acceptor hempty

/-- For any number of workers, client threads, connections and requests, while a
payload fits into either direction's buffer: in every reachable state in which a
client thread has a request to complete, a client thread, a worker or the main
thread can move. -/
theorem never_deadlocked (hworkers : 1 ≤ threadCount)
    (hpayload : 1 ≤ setup.client.payloadSize)
    (hserver : setup.client.payloadSize ≤ toServer)
    (hclient : setup.client.payloadSize ≤ toClient) (hbacklog : 1 ≤ setup.backlog)
    (hs : (system setup threadCount toServer toClient).Reachable s)
    (hincomplete : ∃ i, (s.clients i).completed setup.client <
      setup.connections i * setup.client.requestsPerConnection) :
    ∃ e t, (∀ w, e ≠ .server (.spurious w)) ∧
      (system setup threadCount toServer toClient).next s e t := by
  have h := reachable_sound hpayload hs
  obtain ⟨i, hi⟩ := hincomplete
  have hreturned : ∀ bytes, (s.clients i).pc ≠ .returned bytes := by
    intro bytes hpc
    have hindex := h.returned i bytes hpc
    rw [Thread.completed, hpc] at hi
    have hall := Nat.mul_le_mul_right setup.client.requestsPerConnection hindex
    dsimp only at hi
    omega
  rcases ThreadpoolServer.blocked_or_step h.server with
    hblocked | ⟨e, server, hquiet, hspurious, hstep⟩
  · by_cases hidle : ∀ w, (s.server.workers w).pc = .waiting
    · exact canStep_of_waiting h hbacklog hblocked ⟨⟨0, hworkers⟩, hidle _⟩ hidle hreturned
    · obtain ⟨w, hw⟩ := not_forall.mp hidle
      have hpositive : 0 < toClient := by omega
      rcases hblocked.workers w with hpc | ⟨fd, hpc⟩ | ⟨fd, n, done, hpc⟩
      · exact absurd hpc hw
      · exact canStep_of_serving h hserver hpositive (.inl hpc)
      · exact canStep_of_serving h hserver hpositive (.inr ⟨n, done, hpc⟩)
  · exact canStep_of_quiet h hquiet hspurious hstep

end Model

/-- One worker for two clients: it serves the first while the second is in the
queue. -/
theorem never_deadlocked_two_clients :
    ∃ s : State 1 2 1 1, s.network.peer 4 = some (0, 0) ∧ s.network.peer 5 = some (1, 0) ∧
      (s.server.workers 0).pc = .reading 4 ∧ s.server.queue.head = some 8 ∧
      ∃ e t, (∀ w, e ≠ .server (.spurious w)) ∧
        (system ⟨⟨1, 1⟩, fun _ => 1, 256, ∅⟩ 1 1 1).next s e t := by
  have h₀ : (system ⟨⟨1, 1⟩, fun _ : Fin 2 => 1, 256, ∅⟩ 1 1 1).Reachable
      (initial ⟨⟨1, 1⟩, fun _ => 1, 256, ∅⟩) := .start rfl
  have h₁ := h₀.step (e := Event.connect 0) rfl
  have h₂ := h₁.step (e := Event.connect 1) rfl
  have h₃ := h₂.step (e := Event.server (.accept (.ok 4))) rfl
  have h₄ := h₃.step (e := Event.server (.malloc (some 7))) rfl
  have h₅ := h₄.step (e := Event.server (.push ∅)) rfl
  have h₆ := h₅.step (e := Event.server (.pop 0)) rfl
  have h₇ := h₆.step (e := Event.server (.take 0)) rfl
  have h₈ := h₇.step (e := Event.server (.accept (.ok 5))) rfl
  have h₉ := h₈.step (e := Event.server (.malloc (some 8))) rfl
  have h₁₀ := h₉.step (e := Event.server (.push ∅)) rfl
  have hmoves := never_deadlocked (by decide) (by decide) (by decide) (by decide)
    (by decide) h₁₀ ⟨1, by decide⟩
  refine ⟨_, ?_, ?_, ?_, ?_, hmoves⟩
  · rfl
  · rfl
  · rfl
  · rfl

end SysLab.PartB.ThreadpoolLoad
