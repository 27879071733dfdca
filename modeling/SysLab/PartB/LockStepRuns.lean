import SysLab.Foundation.RelayWork
import SysLab.PartB.LockStep

/-!
# Runs of the load client against the `poll` server

How long the pair of `LockStep` can go on, and where it stops.  Each byte of each
payload is moved four times: written by the client, read and written by the server,
and read by the client.
-/

namespace SysLab.PartB.LockStep

open SysLab.Foundation
open SysLab.PartB.LoadClient

/-- The bytes a step moves. -/
def Event.bytes : Event → Nat
  | .write n => n
  | .read n => n
  | .serve n => n

/-- All requests are complete and nothing is left of them. -/
structure Done {toServer toClient : Nat} (cfg : Config) (s : State toServer toClient) :
    Prop where
  closed : s.worker.pc = .closed
  requests : s.worker.req = cfg.requestsPerConnection
  inbound : s.inbound.length = 0
  drained : s.slot.conn.used = s.slot.conn.sent
  outbound : s.outbound.length = 0

section Model

variable {toServer toClient : Nat} {cfg : Config} {s t : State toServer toClient}

/-- A step is a move of as many bytes. -/
theorem step_bytes (h : Sound s) {e : Event} (hstep : step cfg s e = some t) :
    ∃ m : Relay.Move, m.bytes = e.bytes ∧
      Relay.step (relay cfg toServer toClient) s.counts m = some t.counts := by
  cases e with
  | write n =>
      simp only [step] at hstep
      split at hstep
      · next done hpc => exact ⟨.send n, rfl, (writeStep_counts h hpc hstep).2⟩
      · cases hstep
  | read n =>
      simp only [step] at hstep
      split at hstep
      · next done hpc => exact ⟨.receive n, rfl, (readStep_counts h hpc hstep).2⟩
      · cases hstep
  | serve n =>
      simp only [step] at hstep
      split at hstep
      · next hready => exact ⟨.fetch n, rfl, (fetchStep_counts h hready hstep).2⟩
      · split at hstep
        · next hready => exact ⟨.forward n, rfl, (forwardStep_counts h hready hstep).2⟩
        · cases hstep

/-- What is left to be done. -/
def work (cfg : Config) (s : State toServer toClient) : Nat :=
  Relay.work (relay cfg toServer toClient) s.counts

theorem work_step (hs : (system cfg toServer toClient).Reachable s) {e : Event}
    (hstep : step cfg s e = some t) : work cfg t + e.bytes = work cfg s ∧ 1 ≤ e.bytes := by
  have habs := abstracts cfg toServer toClient
  obtain ⟨m, hbytes, hmove⟩ := step_bytes (habs.inv hs) hstep
  rw [← hbytes]
  exact Relay.work_step (Relay.reachable_onTime (habs.reachable hs)) hmove

theorem work_init (hrequests : 1 ≤ cfg.requestsPerConnection)
    (hs : (system cfg toServer toClient).init s) :
    work cfg s = 4 * (cfg.requestsPerConnection * cfg.payloadSize) := by
  rw [work, Connected.counts hs]
  exact Relay.work_start hrequests

/-- A worker past `close` has all its requests behind it. -/
theorem done_of_closed (hpayload : 1 ≤ cfg.payloadSize)
    (hs : (system cfg toServer toClient).Reachable s) (hclosed : s.worker.pc = .closed) :
    Done cfg s ∧ work cfg s = 0 := by
  have habs := abstracts cfg toServer toClient
  have hsound := habs.inv hs
  have hu := habs.reachable hs
  have hfinished := hsound.phase_finished.mpr hclosed
  have hbalanced := Relay.reachable_balanced (c := relay cfg toServer toClient) hpayload hu
  have hrequests := (Relay.reachable_onTime hu).finished hfinished
  have hsum := hbalanced.finished hfinished
  simp only [State.counts] at hsum
  have hsent : s.slot.conn.sent ≤ s.slot.conn.used := by
    rcases hsound.slot.events with ⟨_, hused, hsent⟩ | ⟨_, hless, _⟩
    · omega
    · omega
  refine ⟨⟨hclosed, hrequests, by omega, by omega, by omega⟩, ?_⟩
  exact hbalanced.work_finished hfinished

/-- For every number of requests and every pair of capacities: no run of client and
server has more steps than it moves bytes, each byte of a payload being moved four
times at most.  Every run that cannot be continued has completed all requests, with
nothing left on the way, if and only if a payload fits into the two channels with a
byte to spare; and then each of its bytes has been moved four times. -/
theorem completes_iff (hpayload : 1 ≤ cfg.payloadSize)
    (hrequests : 1 ≤ cfg.requestsPerConnection) (hserver : 1 ≤ toServer)
    (hclient : 1 ≤ toClient) :
    (∀ s es t, (system cfg toServer toClient).init s →
      (system cfg toServer toClient).Run s es t →
        es.length ≤ System.spent Event.bytes es ∧
        System.spent Event.bytes es ≤ 4 * (cfg.requestsPerConnection * cfg.payloadSize)) ∧
    ((∀ s es t, (system cfg toServer toClient).init s →
      (system cfg toServer toClient).Run s es t →
      ¬ (system cfg toServer toClient).Enabled t →
        Done cfg t ∧ System.spent Event.bytes es =
          4 * (cfg.requestsPerConnection * cfg.payloadSize)) ↔
      cfg.payloadSize ≤ toServer + toClient + 1) := by
  have hstep : ∀ s e t, (system cfg toServer toClient).Reachable s →
      (system cfg toServer toClient).next s e t → work cfg t + e.bytes = work cfg s :=
    fun s e t hs hnext => (work_step hs hnext).1
  have habs := abstracts cfg toServer toClient
  have hblock : 0 < bufferSize := by decide
  have hlive := Relay.live_iff (c := relay cfg toServer toClient) hrequests
    hpayload hserver hclient hblock
  refine ⟨fun s es t hinit hrun => ?_, Iff.trans ?_ hlive⟩
  · have hspent := hrun.spent hstep (.start hinit)
    rw [work_init hrequests hinit] at hspent
    refine ⟨hrun.length_le_spent (fun s e t hs hnext => (work_step hs hnext).2) (.start hinit), ?_⟩
    omega
  · constructor
    · intro hends u hu hphase
      obtain ⟨s, hs, rfl⟩ := habs.reachable_lift hu
      by_contra hstuck
      obtain ⟨s₀, es, hinit, hrun⟩ := hs.exists_run
      have hlast : ¬ (system cfg toServer toClient).Enabled s := fun hmoves =>
        hstuck ((habs.enabled_iff hs).mp hmoves)
      have hclosed := (hends s₀ es s hinit hrun hlast).1.closed
      exact hphase ((habs.inv hs).phase_finished.mpr hclosed)
    · intro hmoves s es t hinit hrun hlast
      have ht := hrun.reachable (.start hinit)
      have hfinished : t.counts.phase = .finished := by
        by_contra hphase
        exact hlast ((habs.enabled_iff ht).mpr (hmoves _ (habs.reachable ht) hphase))
      have hclosed := (habs.inv ht).phase_finished.mp hfinished
      obtain ⟨hdone, hnone⟩ := done_of_closed hpayload ht hclosed
      have hspent := hrun.spent hstep (.start hinit)
      rw [work_init hrequests hinit, hnone] at hspent
      exact ⟨hdone, by omega⟩

end Model

/-- Two requests of three bytes on channels of one are complete after twenty-four
bytes moved, in whatever order. -/
theorem completes_two : 3 ≤ 1 + 1 + 1 ∧
    ∀ s es t, (system ⟨3, 2⟩ 1 1).init s → (system ⟨3, 2⟩ 1 1).Run s es t →
      ¬ (system ⟨3, 2⟩ 1 1).Enabled t → Done ⟨3, 2⟩ t ∧ System.spent Event.bytes es = 24 := by
  have hfits : 3 ≤ 1 + 1 + 1 := by decide
  have hpayload : 1 ≤ (⟨3, 2⟩ : Config).payloadSize := by decide
  have hrequests : 1 ≤ (⟨3, 2⟩ : Config).requestsPerConnection := by decide
  have hone : 1 ≤ 1 := by decide
  exact ⟨hfits, (completes_iff hpayload hrequests hone hone).2.mpr hfits⟩

end SysLab.PartB.LockStep
