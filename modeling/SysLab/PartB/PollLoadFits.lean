import SysLab.PartB.PollLoadRuns

/-!
# A payload that does not fit, at the `poll` server

If the server reads a byte at a time and a client does not read before it has written
all of its request, a payload that is longer than the two buffers and a byte stops both
of them for good (`exists_jam`).
-/

namespace SysLab.PartB.PollLoad

open SysLab.Foundation
open SysLab.PartB.LoadClient (Thread ThreadPc)
open SysLab.PartB.ThreadpoolLoad (Setup Unread)

section Model

variable {threads toServer toClient maxClients : Nat} {setup : Setup threads}
  {s t : State threads toServer toClient} {pool : ThreadpoolServer.State maxClients}

/-- The server reads a byte at a time, and client `i` does not read. -/
def Slow (i : Fin threads) : Event threads → Prop
  | .server (.slot (.ok bytes) _) => bytes.length ≤ 1
  | .client (.read j _) => j ≠ i
  | _ => True

theorem slow_answers {i : Fin threads} {e : Event threads}
    {e' : ThreadpoolLoad.Event maxClients threads} (h : Slow i e) (hanswers : Answers e e') :
    ThreadpoolLoad.Slow i e' := by
  cases hanswers with
  | client e =>
      cases e with
      | read j n => exact h
      | connect j => trivial
      | write j n => trivial
      | eof j => trivial
      | next j => trivial
  | read rd wr w =>
      cases rd with
      | ok bytes => exact h
      | error err => trivial
  | other e e' hspurious hread =>
      cases e' with
      | read w res => exact absurd rfl (hread w res)
      | spurious w => exact absurd rfl (hspurious w)
      | accept res => trivial
      | malloc node => trivial
      | push wake => trivial
      | pop w => trivial
      | take w => trivial
      | write w res => trivial

/-- A server that can go on can do so with a byte. -/
theorem exists_slow_step (hknown : Known setup maxClients s pool) (i : Fin threads)
    {e : ServerEvent} (hstep : serverStep setup maxClients s e = some t) :
    ∃ e' u, Slow i (.server e') ∧ serverStep setup maxClients s e' = some u := by
  cases serverStep_served hknown.ready hknown.inv hstep with
  | poll => exact ⟨.poll, t, trivial, hstep⟩
  | @accept fd => exact ⟨.accept fd, t, trivial, hstep⟩
  | @refuse fd => exact ⟨.accept fd, t, trivial, hstep⟩
  | drained => exact ⟨.drained, t, trivial, hstep⟩
  | slot j y network hpc =>
      obtain ⟨rd, wr, u, hbytes, hu⟩ := exists_slot hknown hpc
      refine ⟨.slot rd wr, u, ?_, hu⟩
      cases rd with
      | ok bytes => exact hbytes bytes rfl
      | error err => trivial

/-- The client that does not read could not. -/
theorem not_reading {i : Fin threads} (hknown : Known setup maxClients s pool)
    (hunread : Unread i (s.beside pool)) {n : Nat} : clientStep setup s (.read i n) ≠ some t := by
  intro hstep
  have hbeside := clientStep_some pool hstep
  cases hknown.sound.stepped (e := .read i n) hbeside with
  | read hpc hread _ =>
      rcases hunread.pc with ⟨bytes, hpc'⟩ | ⟨w', done', hpc', hwrite⟩
      · rw [hpc] at hpc'
        cases hpc'
      · rw [hpc] at hpc'
        cases hpc'
        rw [hread] at hwrite
        cases hwrite

section Jam

variable {listenFd : Int} {i : Fin threads}

/-- A pool that is as slow. -/
theorem slow_paced (hpayload : 0 < setup.client.payloadSize) (listenFd : Int) (i : Fin threads) :
    System.Paced
      ((accepting setup maxClients listenFd toServer toClient).restrict fun _ e => Slow i e)
      ((ThreadpoolLoad.system setup maxClients toServer toClient).restrict
        fun _ e => ThreadpoolLoad.Slow i e)
      (Beside maxClients) Answers (State.pos maxClients) (2 * maxClients + 4) := by
  refine (paced hpayload listenFd).restrict ?_ fun _ _ => slow_answers
  rintro s rfl
  obtain ⟨es, hrun, hpops⟩ := ThreadpoolLoad.asleep_run toServer toClient setup
    (le_refl maxClients)
  refine ⟨_, (hrun.restrict fun e he _ => ?_).reachable (.start rfl),
    initial_beside setup listenFd⟩
  obtain ⟨w, rfl⟩ := hpops e he
  trivial

theorem reachable_unread (hrequests : 0 < setup.client.requestsPerConnection)
    (hconnections : 0 < setup.connections i)
    (hlong : toServer + toClient + 1 < setup.client.payloadSize)
    {u : ThreadpoolLoad.State maxClients threads toServer toClient}
    (hu : ((ThreadpoolLoad.system setup maxClients toServer toClient).restrict
      fun _ e => ThreadpoolLoad.Slow i e).Reachable u) : Unread i u := by
  refine hu.induct ?_ ?_
  · rintro u rfl
    exact ThreadpoolLoad.initial_unread hconnections
  · intro u e v hu h hnext
    exact h.step hrequests (by omega) hlong hu.of_restrict hnext.2 hnext.1

/-- A payload that does not fit may never be echoed. -/
theorem exists_jam (hrequests : 0 < setup.client.requestsPerConnection)
    (hconnections : 0 < setup.connections i)
    (hlong : toServer + toClient + 1 < setup.client.payloadSize)
    (hadmits : AlwaysAdmits setup maxClients listenFd toServer toClient) :
    ∃ s, (system setup maxClients listenFd toServer toClient).Reachable s ∧
      ¬ (system setup maxClients listenFd toServer toClient).Enabled s ∧
      ¬ Completed setup maxClients s := by
  have hpayload : 0 < setup.client.payloadSize := by omega
  let T := (accepting setup maxClients listenFd toServer toClient).restrict fun _ e => Slow i e
  have hstart : T.Reachable (initial setup listenFd) := .start rfl
  obtain ⟨es, s, hrun, hlast⟩ := System.exists_last_of_bounded (T := T)
    fun es t hrun => initial_length_le hpayload hrun.of_restrict
  have hs := hrun.reachable hstart
  obtain ⟨u, hu, hbeside⟩ := (slow_paced hpayload listenFd i).reachable hs
  have hunread := reachable_unread hrequests hconnections hlong hu
  obtain ⟨pool, rfl, hknown⟩ := hbeside.known hpayload hs.of_restrict.of_restrict hu.of_restrict
  refine ⟨s, hs.of_restrict.of_restrict, ?_, fun hcompleted => ?_⟩
  · rintro ⟨e, t, hstep⟩
    have hslow : ∀ e u, Slow i e → move setup maxClients s e ≠ some u := by
      intro e u hslow hu
      rw [← step_eq hknown.alive] at hu
      exact hlast ⟨e, u, ⟨hu, hadmits s e u hs.of_restrict hu⟩, hslow⟩
    obtain ⟨_, hmove⟩ := step_some hstep
    cases e with
    | server e =>
        obtain ⟨e', u, hslow', hu⟩ := exists_slow_step hknown i hmove
        exact hslow (.server e') u hslow' hu
    | client e =>
        cases e with
        | connect j => exact hslow (.client (.connect j)) t trivial hmove
        | write j n => exact hslow (.client (.write j n)) t trivial hmove
        | read j n =>
            by_cases hj : j = i
            · subst hj
              exact not_reading hknown hunread hmove
            · exact hslow (.client (.read j n)) t hj hmove
        | eof j => exact hslow (.client (.eof j)) t trivial hmove
        | next j => exact hslow (.client (.next j)) t trivial hmove
    | reset j => exact hslow (.reset j) t trivial hmove
  · have hreturned := congrArg Thread.pc (hcompleted.threads i)
    rcases hunread.pc with ⟨bytes, hpc⟩ | ⟨w, done, hpc, _⟩
    · change (s.clients i).pc = _ at hpc
      rw [hpc] at hreturned
      cases hreturned
    · change (s.clients i).pc = _ at hpc
      rw [hpc] at hreturned
      cases hreturned

end Jam

/-! ## When all requests are completed -/

/-- A payload that fits is always completed. -/
theorem completes_of_fits {listenFd : Int} (hslots : 1 ≤ maxClients)
    (hpayload : 0 < setup.client.payloadSize) (hserver : 0 < toServer) (hclient : 0 < toClient)
    (hbacklog : 0 < setup.backlog)
    (hadmits : AlwaysAdmits setup maxClients listenFd toServer toClient)
    (hfits : setup.client.payloadSize ≤ toServer + toClient + 1) :
    (system setup maxClients listenFd toServer toClient).Completes
      (Completed setup maxClients) where
  bounded s hs := by
    have hs' := System.Reachable.restrict hadmits hs
    obtain ⟨u, hu, hbeside⟩ := (paced hpayload listenFd).reachable hs'
    refine ⟨s.pos maxClients + (2 * maxClients + 4) * u.rank setup, fun es t hrun => ?_⟩
    exact Nat.le_trans (Nat.le_add_right _ _) (run_length_le hpayload hs' hu hbeside
      (System.Run.restrict_of_reachable hadmits hs hrun))
  ends t ht hstuck := by
    obtain ⟨pool, hknown⟩ := reachable_known hpayload (System.Reachable.restrict hadmits ht)
    exact completed_of_stuck hslots hpayload hserver hclient hbacklog hfits hknown hstuck

end Model

end SysLab.PartB.PollLoad
