import SysLab.Foundation.Termination
import SysLab.PartB.ThreadpoolProgress

/-!
# How long the threads of the server go on by themselves

`State.rank` bounds the steps that the main thread and the workers have left until
they all wait for the kernel.  Only a client that is accepted and a worker woken
without a signal add to it; a `read` or `write` that moves bytes leaves it as it is.
-/

namespace SysLab.PartB.ThreadpoolServer

open SysLab.Foundation
open Transcript (clients)

variable {threadCount : Nat}

/-- The steps a worker has left before it waits for its client or for another. -/
def WorkerPc.rank : WorkerPc → Nat
  | .waiting => 0
  | .lock => 1
  | .woken => 1
  | .reading _ => 2
  | .writing _ _ _ => 2
  | .popped _ => 3

/-- A client on its way to the queue may wake every worker. -/
def AcceptorPc.rank (threadCount : Nat) : AcceptorPc → Nat
  | .accept => 0
  | .lock _ => threadCount + 4
  | .malloc _ => threadCount + 5

/-- Each client in the queue will be popped, taken and closed. -/
def State.rank (s : State threadCount) : Nat :=
  s.acceptor.rank threadCount + ∑ w, (s.workers w).pc.rank +
    3 * (s.pushes.length - s.pops.length)

/-- What a step does to the rank, and to the calls made. -/
inductive Spends (s : State threadCount) (e : Event threadCount) (t : State threadCount) : Prop
  | down : t.rank + 1 ≤ s.rank → Spends s e t
  | spurious (w : Fin threadCount) : e = .spurious w → t.rank + 1 ≤ s.rank + 2 →
      t.trace = s.trace → Spends s e t
  | accepted (fd : Int) : t.trace = .accept fd :: s.trace →
      t.rank ≤ s.rank + (threadCount + 5) → Spends s e t
  | moved (c : Syscall) : t.trace = c :: s.trace →
      (∀ base, clients base t.trace = clients base s.trace) → t.rank ≤ s.rank → Spends s e t

section Steps

variable {base : Finset Int} {s t : State threadCount} {w : Fin threadCount}

theorem rank_worker {workers : Fin threadCount → Worker} (worker : Worker) {a b : Nat}
    (h : worker.pc.rank + a ≤ (workers w).pc.rank + b) :
    ∑ v, (Function.update workers w worker v).pc.rank + a ≤
      ∑ v, (workers v).pc.rank + b := by
  refine System.sum_add_le w ?_ fun v hv => ?_
  · rw [Function.update_self]
    exact h
  · rw [Function.update_of_ne hv]

theorem rank_setPc {pc : WorkerPc} {a b : Nat} (h : pc.rank + a ≤ (s.workers w).pc.rank + b) :
    (s.setPc w pc).rank + a ≤ s.rank + b := by
  have hworker := rank_worker ⟨pc, (s.workers w).buffer⟩ h
  simp only [State.rank, State.setPc]
  omega

/-- A signal wakes each worker once at most. -/
theorem rank_wakeUp (workers : Fin threadCount → Worker) (wake : Finset (Fin threadCount)) :
    ∑ v, (wakeUp workers wake v).pc.rank ≤ ∑ v, (workers v).pc.rank + threadCount := by
  have hone : ∀ v, (wakeUp workers wake v).pc.rank ≤ (workers v).pc.rank + 1 := by
    intro v
    unfold wakeUp
    split
    · exact Nat.le_add_left 1 _
    · exact Nat.le_succ _
  have hsum := Finset.sum_le_sum fun v (_ : v ∈ Finset.univ) => hone v
  rw [Finset.sum_add_distrib] at hsum
  simpa using hsum

/-- Only what has been pushed is popped. -/
theorem reachable_pops_le (hs : (system threadCount base).Reachable s) :
    s.pops.length ≤ s.pushes.length := by
  obtain ⟨a, ha, h⟩ := (simulates_workQueue threadCount base).reachable hs
  rw [h.pushed, h.popped, WorkQueue.reachable_fifo ha, List.length_append, List.length_map]
  exact Nat.le_add_right _ _

theorem Queue.length_fdOf_le (q : Queue) (node : Nat) : (q.fdOf node).length ≤ 1 := by
  unfold fdOf
  cases q.heap node with
  | none => exact Nat.zero_le 1
  | some n => exact le_refl 1

theorem pushStep_spends {node : Nat} {wake : Finset (Fin threadCount)}
    (hpc : s.acceptor = .lock node) (hstep : pushStep s node wake = some t) :
    t.rank + 1 ≤ s.rank := by
  unfold pushStep at hstep
  split at hstep
  · obtain ⟨queue, _, rfl⟩ := Option.map_eq_some_iff.mp hstep
    have hwake := rank_wakeUp s.workers wake
    have hnode := s.queue.length_fdOf_le node
    simp only [State.rank, AcceptorPc.rank, hpc, List.length_append]
    omega
  · cases hstep

theorem popStep_spends (hpc : (s.workers w).pc = .lock ∨ (s.workers w).pc = .woken)
    (hstep : popStep s w = some t) (hle : t.pops.length ≤ t.pushes.length) :
    t.rank + 1 ≤ s.rank := by
  have hone : (s.workers w).pc.rank = 1 := by
    rcases hpc with hpc | hpc
    · rw [hpc]
      rfl
    · rw [hpc]
      rfl
  unfold popStep at hstep
  split at hstep
  · cases hstep
    exact rank_setPc (b := 0) (by rw [hone]; exact le_refl 1)
  · obtain ⟨⟨node, queue⟩, hunlink, rfl⟩ := Option.map_eq_some_iff.mp hstep
    have hworker := rank_worker (w := w) (a := 0) (b := 2)
      ⟨.popped node, (s.workers w).buffer⟩ (by rw [hone]; exact le_refl 3)
    have hfd : (s.queue.fdOf node).length = 1 := by
      unfold Queue.unlink at hunlink
      split at hunlink
      · cases hunlink
      · split at hunlink
        · cases hunlink
        · next first hnode =>
            cases hunlink
            rw [Queue.fdOf, hnode]
            rfl
    simp only [State.setPc, List.length_append, List.length_map, hfd] at hle
    simp only [State.rank, State.setPc, List.length_append, List.length_map, hfd]
    omega

theorem takeStep_spends {node : Nat} (hpc : (s.workers w).pc = .popped node)
    (hstep : takeStep s w node = some t) : t.rank + 1 ≤ s.rank := by
  unfold takeStep at hstep
  split at hstep
  · cases hstep
  · next popped _ =>
      cases hstep
      have hreading : (s.setPc w (.reading popped.fd)).rank + 1 ≤ s.rank + 0 :=
        rank_setPc (by rw [hpc]; exact le_refl 3)
      exact hreading

/-- A worker that closes its client has a step less. -/
theorem closeClient_spends (fd : Int) (trace : Trace) (hpc : (s.workers w).pc.rank = 2) :
    (closeClient { s with trace := trace } w fd).rank + 1 ≤ s.rank := by
  have hlock : (s.setPc w .lock).rank + 1 ≤ s.rank + 0 :=
    rank_setPc (by rw [hpc]; exact le_refl 2)
  exact hlock

theorem readStep_spends {fd : Int} {res : Except Errno (List UInt8)}
    (hpc : (s.workers w).pc = .reading fd) :
    Spends s (.read w res) (readStep s w fd res) := by
  have htwo : (s.workers w).pc.rank = 2 := by
    rw [hpc]
    rfl
  rcases res with e | bytes
  · rw [readStep]
    split
    · exact .moved _ rfl (fun _ => rfl) (le_refl _)
    · exact .down (closeClient_spends fd _ htwo)
  · cases bytes with
    | nil => exact .down (closeClient_spends fd _ htwo)
    | cons b bs =>
        have hworker := rank_worker (w := w) (a := 0) (b := 0)
          ⟨.writing fd (b :: bs).length 0, (s.workers w).buffer.store (b :: bs)⟩
          (by rw [htwo]; exact le_refl 2)
        refine .moved _ rfl (fun _ => rfl) ?_
        simp only [State.rank, readStep]
        omega

theorem writeStep_spends {fd : Int} {n done : Nat} {res : Except Errno Nat}
    (hpc : (s.workers w).pc = .writing fd n done) :
    Spends s (.write w res) (writeStep s w fd n done res) := by
  have htwo : (s.workers w).pc.rank = 2 := by
    rw [hpc]
    rfl
  rw [writeStep]
  split
  · exact .moved _ rfl (fun _ => rfl)
      (rank_setPc (a := 0) (b := 0) (by rw [htwo]; exact le_refl 2))
  · split
    · exact .moved _ rfl (fun _ => rfl)
        (rank_setPc (a := 0) (b := 0) (by rw [htwo]; exact le_refl 2))
    · exact .down (closeClient_spends fd _ htwo)
  · exact .down (closeClient_spends fd _ htwo)

/-- A step of the server that is no failed `accept`. -/
theorem step_spends (hs : (system threadCount base).Reachable s) {e : Event threadCount}
    (hnext : (system threadCount base).next s e t) (haccept : ∀ err, e ≠ .accept (.error err)) :
    Spends s e t := by
  have hstep := hnext.1
  cases e with
  | accept res =>
      rcases res with err | fd
      · exact absurd rfl (haccept err)
      · simp only [step] at hstep
        split at hstep
        · next hpc =>
            cases hstep
            refine .accepted fd rfl ?_
            simp only [State.rank, acceptStep, AcceptorPc.rank, hpc]
            omega
        · cases hstep
  | malloc node =>
      simp only [step] at hstep
      split at hstep
      · next fd hpc =>
          cases node with
          | none =>
              cases hstep
              refine .down ?_
              simp only [State.rank, AcceptorPc.rank, hpc]
              omega
          | some node =>
              simp only [mallocStep] at hstep
              split at hstep
              · cases hstep
                refine .down ?_
                simp only [State.rank, AcceptorPc.rank, hpc]
                omega
              · cases hstep
      · cases hstep
  | push wake =>
      simp only [step] at hstep
      split at hstep
      · next node hpc => exact .down (pushStep_spends hpc hstep)
      · cases hstep
  | pop w =>
      have hle := reachable_pops_le (hs.step hnext)
      simp only [step] at hstep
      split at hstep
      · next hpc => exact .down (popStep_spends (.inl hpc) hstep hle)
      · next hpc => exact .down (popStep_spends (.inr hpc) hstep hle)
      · cases hstep
  | spurious w =>
      simp only [step] at hstep
      split at hstep
      · cases hstep
        have hwoken : (s.setPc w .woken).rank + 0 ≤ s.rank + 1 :=
          rank_setPc (Nat.le_add_left 1 _)
        exact .spurious w rfl (Nat.add_le_add_right hwoken 1) rfl
      · cases hstep
  | take w =>
      simp only [step] at hstep
      split at hstep
      · next node hpc => exact .down (takeStep_spends hpc hstep)
      · cases hstep
  | read w res =>
      simp only [step] at hstep
      split at hstep
      · next fd hpc =>
          cases hstep
          exact readStep_spends hpc
      · cases hstep
  | write w res =>
      simp only [step] at hstep
      split at hstep
      · next fd n done hpc =>
          cases hstep
          exact writeStep_spends hpc
      · cases hstep

end Steps

end SysLab.PartB.ThreadpoolServer
