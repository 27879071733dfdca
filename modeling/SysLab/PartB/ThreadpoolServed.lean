import Mathlib.Algebra.Order.BigOperators.Group.Finset
import SysLab.PartB.ThreadpoolLoad

/-!
# One connection of the thread-pool server

Seen through one connection, client and server are a `Relay`: the client sends its
whole payload before it reads, and the workers hold what is read and not written
back (`State.view`).  `Served` is what a step of the server can be, together with
the network's answers to the calls in it.
-/

namespace SysLab.PartB.ThreadpoolLoad

open SysLab.Foundation
open SysLab.PartB.LoadClient (Config Thread ThreadPc Worker sendBuf)
open Transcript (clients mem_clients)

section Model

variable {threadCount threads toServer toClient : Nat} {setup : Setup threads}
  {s t : State threadCount threads toServer toClient}

/-! ## Bytes of one connection -/

/-- What each worker is writing. -/
def transfers (server : ThreadpoolServer.State threadCount) (w : Fin threadCount) :
    Option (Int × Nat × Nat) := (server.workers w).pc.transfer

/-- The bytes a worker has left to write to a connection. -/
def heldFor (peer : Int → Option (Conn threads)) (k : Conn threads) :
    Option (Int × Nat × Nat) → Nat
  | none => 0
  | some (fd, n, done) => if peer fd = some k then n - done else 0

/-- The bytes all the workers have left. -/
def held (peer : Int → Option (Conn threads)) (k : Conn threads)
    (writing : Fin threadCount → Option (Int × Nat × Nat)) : Nat :=
  ∑ w, heldFor peer k (writing w)

theorem serving_of_transfer {server : ThreadpoolServer.State threadCount}
    {w : Fin threadCount} {fd : Int} {n done : Nat}
    (h : transfers server w = some (fd, n, done)) :
    fd ∈ server.queue.serving (server.workers w).pc := by
  rw [ThreadpoolServer.writing_of_transfer h]
  exact List.mem_singleton_self fd

/-- Where the client stands on a connection, and the bytes in each place. -/
def State.view (s : State threadCount threads toServer toClient) (k : Conn threads) :
    Relay.State where
  phase := (s.worker k).elim .finished fun w => LockStep.phase w.pc
  count := (s.worker k).elim 0 Worker.req
  inbound := (s.network.inbound k).length
  held := held s.network.peer k (transfers s.server)
  outbound := (s.network.outbound k).length

/-- One worker goes on to other bytes. -/
theorem held_update (peer : Int → Option (Conn threads)) (k : Conn threads)
    (writing : Fin threadCount → Option (Int × Nat × Nat)) (w : Fin threadCount)
    (x : Option (Int × Nat × Nat)) :
    held peer k (Function.update writing w x) + heldFor peer k (writing w) =
      held peer k writing + heldFor peer k x := by
  have hnew := Finset.add_sum_erase Finset.univ
    (fun v => heldFor peer k (Function.update writing w x v)) (Finset.mem_univ w)
  have hold := Finset.add_sum_erase Finset.univ
    (fun v => heldFor peer k (writing v)) (Finset.mem_univ w)
  have hrest : ∑ v ∈ Finset.univ.erase w, heldFor peer k (Function.update writing w x v) =
      ∑ v ∈ Finset.univ.erase w, heldFor peer k (writing v) :=
    Finset.sum_congr rfl fun v hv => by
      rw [Function.update_of_ne (Finset.ne_of_mem_erase hv)]
  simp only [Function.update_self] at hnew
  unfold held
  omega

/-- The bytes of a connection stay with it while nobody who writes loses or changes
its peer. -/
theorem held_congr {peer peer' : Int → Option (Conn threads)} {k : Conn threads}
    {writing : Fin threadCount → Option (Int × Nat × Nat)}
    (hsame : ∀ w fd n done, writing w = some (fd, n, done) → peer' fd = peer fd) :
    held peer' k writing = held peer k writing := by
  refine Finset.sum_congr rfl fun w _ => ?_
  cases hw : writing w with
  | none => rfl
  | some x =>
      obtain ⟨fd, n, done⟩ := x
      simp only [heldFor, hsame w fd n done hw]

/-- A worker that holds bytes of a connection. -/
theorem exists_of_held_pos {peer : Int → Option (Conn threads)} {k : Conn threads}
    {writing : Fin threadCount → Option (Int × Nat × Nat)} (h : 0 < held peer k writing) :
    ∃ w fd n done, writing w = some (fd, n, done) ∧ peer fd = some k ∧ done < n := by
  obtain ⟨w, _, hw⟩ := Finset.exists_ne_zero_of_sum_ne_zero (Nat.pos_iff_ne_zero.mp h)
  cases hwriting : writing w with
  | none =>
      rw [hwriting] at hw
      exact absurd rfl hw
  | some x =>
      obtain ⟨fd, n, done⟩ := x
      rw [hwriting, heldFor] at hw
      split at hw
      · next hpeer => exact ⟨w, fd, n, done, hwriting, hpeer, by omega⟩
      · exact absurd rfl hw

/-- What one worker holds is among what all hold. -/
theorem heldFor_le (peer : Int → Option (Conn threads)) (k : Conn threads)
    (writing : Fin threadCount → Option (Int × Nat × Nat)) (w : Fin threadCount) :
    heldFor peer k (writing w) ≤ held peer k writing :=
  Finset.single_le_sum (f := fun v => heldFor peer k (writing v))
    (fun _ _ => Nat.zero_le _) (Finset.mem_univ w)

/-! ## What a step of the server looks like -/

/-- The server goes on to `server`, the network to `network`. -/
inductive Served (setup : Setup threads) (s : State threadCount threads toServer toClient)
    (server : ThreadpoolServer.State threadCount)
    (network : Network (Conn threads) toServer toClient) : Prop
  | quiet : server.trace = s.server.trace → transfers server = transfers s.server →
      network = s.network → Served setup s server network
  | accept (fd : Int) (k : Conn threads) (rest : List (Conn threads)) :
      server.trace = .accept fd :: s.server.trace → transfers server = transfers s.server →
      s.network.backlog = k :: rest →
      network = { s.network with
        backlog := rest
        peer := Function.update s.network.peer fd (some k) } → Served setup s server network
  | read (w : Fin threadCount) (fd : Int) (k : Conn threads) (bytes : List UInt8)
      (inbound : Channel UInt8 toServer) :
      (s.server.workers w).pc = .reading fd → s.network.peer fd = some k →
      0 < bytes.length →
      clients setup.base server.trace = clients setup.base s.server.trace →
      transfers server =
        Function.update (transfers s.server) w (some (fd, bytes.length, 0)) →
      (s.network.inbound k).pop bytes.length = some (bytes, inbound) →
      network = { s.network with
        inbound := Function.update s.network.inbound k inbound } →
      Served setup s server network
  | eof (w : Fin threadCount) (fd : Int) (k : Conn threads) :
      (s.server.workers w).pc = .reading fd → s.network.peer fd = some k →
      s.isOpen k = false →
      clients setup.base server.trace = (clients setup.base s.server.trace).erase fd →
      transfers server = transfers s.server →
      network = { s.network with
        peer := Function.update s.network.peer fd none
        dropped := Function.update s.network.dropped k true } → Served setup s server network
  | write (w : Fin threadCount) (fd : Int) (k : Conn threads) (n done m : Nat)
      (chunk : List UInt8) (outbound : Channel UInt8 toClient) :
      (s.server.workers w).pc = .writing fd n done → s.network.peer fd = some k →
      0 < m → done + m ≤ n → chunk.length = m →
      clients setup.base server.trace = clients setup.base s.server.trace →
      transfers server = Function.update (transfers s.server) w
        (if done + m < n then some (fd, n, done + m) else none) →
      (s.network.outbound k).push chunk = some outbound →
      network = { s.network with
        outbound := Function.update s.network.outbound k outbound } →
      Served setup s server network

theorem newCalls_append (calls before : Trace) : newCalls before (calls ++ before) = calls := by
  simp [newCalls]

/-- A step of the server and the network's answers to the calls in it. -/
theorem serverStep_some {e : ThreadpoolServer.Event threadCount}
    (h : serverStep setup s e = some t) :
    faultless e ∧ ∃ server network,
      ThreadpoolServer.step s.server e = some server ∧ KernelOk setup.base server.trace ∧
      s.network.answers s.isOpen (newCalls s.server.trace server.trace) = some network ∧
      t = { s with server := server, network := network } := by
  unfold serverStep at h
  split at h
  · next hfaultless =>
      obtain ⟨server, hstep, h⟩ := Option.bind_eq_some_iff.mp h
      split at h
      · next hkernel =>
          obtain ⟨network, hanswers, rfl⟩ := Option.map_eq_some_iff.mp h
          exact ⟨hfaultless, server, network, hstep, hkernel, hanswers, rfl⟩
      · cases h
  · cases h

/-- The network answers the calls made. -/
theorem answers_calls {net net' : Network (Conn threads) toServer toClient}
    {isOpen : Conn threads → Bool} {before after : Trace} (calls : Trace)
    (hafter : after = calls ++ before)
    (h : net.answers isOpen (newCalls before after) = some net') :
    net.answers isOpen calls = some net' := by
  rw [hafter, newCalls_append] at h
  exact h

/-- A worker's `read` that is answered returns bytes, or the client has gone. -/
theorem readStep_served {w : Fin threadCount} {fd : Int} {res : Except Errno (List UInt8)}
    {network : Network (Conn threads) toServer toClient}
    (hpc : (s.server.workers w).pc = .reading fd)
    (hanswers : s.network.answers s.isOpen (newCalls s.server.trace
      (ThreadpoolServer.readStep s.server w fd res).trace) = some network) :
    Served setup s (ThreadpoolServer.readStep s.server w fd res) network := by
  have hnone : transfers s.server w = none := by
    rw [transfers, hpc]
    rfl
  rcases res with e | bytes
  · -- no call fails
    exfalso
    rw [ThreadpoolServer.readStep] at hanswers
    split at hanswers
    · cases answers_calls [.read fd 4096 (.error e)] rfl hanswers
    · cases answers_calls [.close fd, .read fd 4096 (.error e)] rfl hanswers
  · cases bytes with
    | nil =>
        obtain ⟨net, hread, hclose⟩ := Option.bind_eq_some_iff.mp
          (answers_calls [.close fd, .read fd 4096 (.ok [])] rfl hanswers)
        obtain ⟨k, hpeer, hread⟩ := Option.bind_eq_some_iff.mp
          (show (s.network.peer fd).bind (fun k => s.network.answerRead s.isOpen k []) =
            some net from hread)
        rw [Network.answerRead, if_pos rfl] at hread
        split at hread
        · next hgone =>
            cases hread
            obtain ⟨k', hpeer', rfl⟩ := Option.map_eq_some_iff.mp
              (show (s.network.peer fd).map _ = some network from hclose)
            rw [hpeer] at hpeer'
            cases hpeer'
            refine .eof w fd k hpc hpeer hgone.1 Transcript.clients_close ?_ rfl
            funext v
            exact ThreadpoolServer.transfer_update hnone rfl v
        · cases hread
    | cons b bs =>
        obtain ⟨k, hpeer, hread⟩ := Option.bind_eq_some_iff.mp
          (show (s.network.peer fd).bind (fun k => s.network.answerRead s.isOpen k (b :: bs)) =
            some network from answers_calls [.read fd 4096 (.ok (b :: bs))] rfl hanswers)
        rw [Network.answerRead, if_neg (List.cons_ne_nil b bs)] at hread
        split at hread
        · cases hread
        · next taken inbound hpop =>
            split at hread
            · next htaken =>
                subst htaken
                cases hread
                refine .read w fd k (b :: bs) inbound hpc hpeer (Nat.succ_pos _) rfl ?_ hpop
                  rfl
                funext v
                by_cases hv : v = w
                · subst hv
                  rw [Function.update_self, transfers, ThreadpoolServer.readStep]
                  dsimp only
                  rw [Function.update_self]
                  rfl
                · rw [Function.update_of_ne hv, transfers, ThreadpoolServer.readStep]
                  dsimp only
                  rw [Function.update_of_ne hv]
                  rfl
            · cases hread

/-- After its `write` a worker may close the client, and makes no other call. -/
theorem writeStep_trace (server : ThreadpoolServer.State threadCount) (w : Fin threadCount)
    (fd : Int) (n done : Nat) (res : Except Errno Nat) :
    ∃ closing, (ThreadpoolServer.writeStep server w fd n done res).trace = closing ++
      [.write fd ((server.workers w).buffer.window done n) res] ++ server.trace := by
  rw [ThreadpoolServer.writeStep]
  split
  · exact ⟨[], rfl⟩
  · split
    · exact ⟨[], rfl⟩
    · exact ⟨[.close fd], rfl⟩
  · exact ⟨[.close fd], rfl⟩

/-- A worker's `write` that is answered takes bytes. -/
theorem writeStep_served (hs : (ThreadpoolServer.system threadCount setup.base).Reachable
      s.server) {w : Fin threadCount} {fd : Int} {n done : Nat} {res : Except Errno Nat}
    {network : Network (Conn threads) toServer toClient}
    (hpc : (s.server.workers w).pc = .writing fd n done)
    (hanswers : s.network.answers s.isOpen (newCalls s.server.trace
      (ThreadpoolServer.writeStep s.server w fd n done res).trace) = some network) :
    Served setup s (ThreadpoolServer.writeStep s.server w fd n done res) network := by
  have hwindow := ThreadpoolServer.length_window hpc
    (ThreadpoolServer.reachable_inTransfer hs w)
  obtain ⟨closing, htrace⟩ := writeStep_trace s.server w fd n done res
  obtain ⟨net, hwrite⟩ := Network.answers_append (answers_calls _ htrace hanswers)
  rcases res with e | m
  · cases hwrite
  · obtain ⟨k, hpeer, hwrite⟩ := Option.bind_eq_some_iff.mp
      (show (s.network.peer fd).bind (fun k => s.network.answerWrite k _ m) = some net
        from hwrite)
    unfold Network.answerWrite at hwrite
    split at hwrite
    · next hguard =>
        have hdone : done + m ≤ n := by omega
        have hstep : ThreadpoolServer.writeStep s.server w fd n done (.ok m) = _ :=
          ThreadpoolServer.writeStep_ok hguard.1 hdone
        rw [hstep] at hanswers ⊢
        have hanswer : s.network.answer s.isOpen (.write fd _ (.ok m)) = some network :=
          answers_calls [_] rfl hanswers
        obtain ⟨k', hpeer', hanswer⟩ := Option.bind_eq_some_iff.mp
          (show (s.network.peer fd).bind (fun k => s.network.answerWrite k _ m) =
            some network from hanswer)
        rw [hpeer] at hpeer'
        cases hpeer'
        rw [Network.answerWrite, if_pos hguard] at hanswer
        obtain ⟨outbound, hpush, rfl⟩ := Option.map_eq_some_iff.mp hanswer
        refine .write w fd k n done m _ outbound hpc hpeer hguard.1 hdone
          (List.length_take_of_le hguard.2) rfl ?_ hpush rfl
        funext v
        by_cases hv : v = w
        · subst hv
          rw [Function.update_self, transfers, ThreadpoolServer.State.setPc]
          dsimp only
          rw [Function.update_self]
          dsimp only
          split
          · rfl
          · rfl
        · rw [Function.update_of_ne hv, transfers, ThreadpoolServer.State.setPc]
          dsimp only
          rw [Function.update_of_ne hv]
          rfl
    · cases hwrite

/-- What the server and the network do in a step of the server. -/
theorem serverStep_served
    (hs : (ThreadpoolServer.system threadCount setup.base).Reachable s.server)
    {e : ThreadpoolServer.Event threadCount} (h : serverStep setup s e = some t) :
    ∃ server network, t = { s with server := server, network := network } ∧
      (ThreadpoolServer.system threadCount setup.base).next s.server e server ∧
      Served setup s server network := by
  obtain ⟨hfaultless, server, network, hstep, hkernel, hanswers, rfl⟩ := serverStep_some h
  refine ⟨server, network, rfl, ⟨hstep, hkernel⟩, ?_⟩
  by_cases hquiet : e.Quiet
  · obtain ⟨htrace, htransfers⟩ := ThreadpoolServer.step_quiet hquiet hstep
    have hnone : some s.network = some network := answers_calls [] htrace hanswers
    exact .quiet htrace (funext htransfers) (Option.some.inj hnone).symm
  · rcases ThreadpoolServer.Event.not_quiet hquiet with
      ⟨res, rfl⟩ | rfl | ⟨w, res, rfl⟩ | ⟨w, res, rfl⟩
    · rcases res with e | fd
      · cases hfaultless
      · simp only [ThreadpoolServer.step] at hstep
        split at hstep
        · cases hstep
          have haccept : s.network.answer s.isOpen (.accept fd) = some network :=
            answers_calls [.accept fd] rfl hanswers
          simp only [Network.answer] at haccept
          split at haccept
          · cases haccept
          · next k rest hbacklog =>
              cases haccept
              exact .accept fd k rest rfl rfl hbacklog rfl
        · cases hstep
    · cases hfaultless
    · simp only [ThreadpoolServer.step] at hstep
      split at hstep
      · next fd hpc =>
          cases hstep
          exact readStep_served hpc hanswers
      · cases hstep
    · simp only [ThreadpoolServer.step] at hstep
      split at hstep
      · next fd n done hpc =>
          cases hstep
          exact writeStep_served hs hpc hanswers
      · cases hstep

end Model

end SysLab.PartB.ThreadpoolLoad
