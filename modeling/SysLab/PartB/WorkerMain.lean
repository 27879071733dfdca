import SysLab.PartB.FullPrefix
import SysLab.PartB.ThreadpoolServer

/-!
# One worker of the thread-pool server

`worker_main` of `threadpool_server.c` by itself: whatever clients `queue_pop`
returns and whatever `read` and `write` answer, the worker echoes each client to
itself.  In its log a client popped is an `accept`, so that what was received
from a client and echoed to it counts from there, also when a later client comes
with the same descriptor.
-/

namespace SysLab.PartB.WorkerMain

open SysLab.Foundation
open Transcript (received echoed Conserved HalfDuplex Lawful openKeys accepts closes)

/-! ## The loop -/

/-- In `queue_pop`, at `read`, or at the `write` of `write_full` with `done` of `n`
bytes written. -/
inductive Pc
  | queuePop
  | reading (fd : Int)
  | writing (fd : Int) (n done : Nat)
  deriving DecidableEq, Repr

/-- The stack buffer, and the clients popped and calls made. -/
structure State where
  pc : Pc
  buffer : Buffer UInt8 4096
  log : Trace

/-- `queue_pop`, `read` or `write` returns. -/
inductive Event
  | pop (fd : Int)
  | read (res : Except Errno (List UInt8))
  | write (res : Except Errno Nat)

/-- `close(fd)`, and back to `queue_pop`. -/
def State.closed (s : State) (fd : Int) : State :=
  { s with pc := .queuePop, log := .close fd :: s.log }

/-- `fd = queue_pop(queue)`. -/
def popStep (s : State) (fd : Int) : State :=
  { s with pc := .reading fd, log := .accept fd :: s.log }

/-- `read` returns. -/
def readStep (s : State) (fd : Int) (res : Except Errno (List UInt8)) : State :=
  let t := { s with log := .read fd 4096 res :: s.log }
  match res with
  | .error e => if e = .EINTR then t else t.closed fd
  | .ok [] => t.closed fd
  | .ok (b :: bs) =>
      { t with
        pc := .writing fd (b :: bs).length 0
        buffer := t.buffer.store (b :: bs) }

/-- The `write` in `write_full` returns. -/
def writeStep (s : State) (fd : Int) (n done : Nat) (res : Except Errno Nat) : State :=
  let t := { s with log := .write fd (s.buffer.window done n) res :: s.log }
  match writeFull n done res with
  | .running done' => { t with pc := .writing fd n done' }
  | .returned (.ok m) => if m = n then { t with pc := .reading fd } else t.closed fd
  | .returned (.error _) => t.closed fd

/-- It is what `write_full` does with the buffer. -/
theorem writeStep_eq (s : State) (fd : Int) {n done : Nat} {w : FullTransfer.WriteFull}
    (hw : w.transfer = .running done) (res : Except Errno Nat) :
    writeStep s fd n done res =
      let t := { s with
        log := .write fd (FullTransfer.chunk s.buffer.cells n done) res :: s.log }
      match (w.wrote s.buffer.cells n res).transfer with
      | .running done' => { t with pc := .writing fd n done' }
      | .returned (.ok m) => if m = n then { t with pc := .reading fd } else t.closed fd
      | .returned (.error _) => t.closed fd := by
  have hchunk : s.buffer.window done n = FullTransfer.chunk s.buffer.cells n done :=
    List.drop_take
  rw [writeStep, hchunk, FullTransfer.WriteFull.wrote, hw]

/-- One step; `none` when the worker is not at that point. -/
def step (s : State) : Event → Option State
  | .pop fd =>
      match s.pc with
      | .queuePop => some (popStep s fd)
      | _ => none
  | .read res =>
      match s.pc with
      | .reading fd => some (readStep s fd res)
      | _ => none
  | .write res =>
      match s.pc with
      | .writing fd n done => some (writeStep s fd n done res)
      | _ => none

/-- The thread begins; its buffer holds anything. -/
def started (buffer : Buffer UInt8 4096) : State := ⟨.queuePop, buffer, []⟩

/-- The worker with any queue, and any kernel that moves no more than it is asked
to. -/
def system : System State Event where
  init s := ∃ buffer, s = started buffer
  next s e t := step s e = some t ∧ Transcript.Always (fun c _ => c.Sane) t.log

/-! ## The invariant -/

/-- The client that is served. -/
def Pc.client : Pc → Finset Int
  | .queuePop => ∅
  | .reading fd => {fd}
  | .writing fd _ _ => {fd}

/-- What has been read from the client and is still in the buffer. -/
def State.Pending (s : State) : Prop :=
  match s.pc with
  | .queuePop => True
  | .reading fd => Conserved s.log fd []
  | .writing fd n done =>
      Conserved s.log fd (s.buffer.window done n) ∧ done < n ∧ n ≤ 4096

/-- A client is popped when no other is open. -/
def AloneCall (c : Syscall) (h : Trace) : Prop := c.opens = true → openKeys ∅ h = ∅

/-- The log of a worker whose client is in `client`. -/
structure LogOk (log : Trace) (client : Finset Int) : Prop where
  halfDuplex : HalfDuplex log
  lawful : Lawful ∅ log
  client : openKeys ∅ log = client
  alone : Transcript.Always AloneCall log

/-- What holds at every moment. -/
structure Inv (s : State) : Prop where
  pending : s.Pending
  log : LogOk s.log s.pc.client

section Steps

variable {s t : State} {log : Trace} {fd : Int}

theorem LogOk.pop (h : LogOk log ∅) : LogOk (.accept fd :: log) {fd} := by
  refine ⟨⟨trivial, h.halfDuplex⟩, ⟨?_, h.lawful⟩, ?_, ⟨fun _ => h.client, h.alone⟩⟩
  · show fd ∉ openKeys ∅ log
    rw [h.client]
    exact Finset.notMem_empty fd
  · show insert fd (openKeys ∅ log) = {fd}
    rw [h.client]
    rfl

theorem LogOk.mem (h : LogOk log {fd}) : fd ∈ openKeys ∅ log := by
  rw [h.client]
  exact Finset.mem_singleton_self fd

theorem LogOk.read (h : LogOk log {fd}) (hpending : Conserved log fd [])
    (res : Except Errno (List UInt8)) : LogOk (.read fd 4096 res :: log) {fd} :=
  ⟨⟨hpending, h.halfDuplex⟩, ⟨h.mem, h.lawful⟩, h.client,
    fun hopens => absurd hopens Bool.false_ne_true, h.alone⟩

theorem LogOk.write {chunk : List UInt8} (h : LogOk log {fd})
    (hpending : Conserved log fd chunk) (res : Except Errno Nat) :
    LogOk (.write fd chunk res :: log) {fd} :=
  ⟨⟨hpending, h.halfDuplex⟩, ⟨h.mem, h.lawful⟩, h.client,
    fun hopens => absurd hopens Bool.false_ne_true, h.alone⟩

theorem LogOk.close (h : LogOk log {fd}) : LogOk (.close fd :: log) ∅ := by
  refine ⟨⟨trivial, h.halfDuplex⟩, ⟨⟨h.mem, Finset.notMem_empty fd⟩, h.lawful⟩, ?_,
    fun hopens => absurd hopens Bool.false_ne_true, h.alone⟩
  show (openKeys ∅ log).erase fd = ∅
  rw [h.client]
  exact Finset.erase_singleton fd

/-- The client is closed. -/
theorem inv_closed (h : LogOk s.log {fd}) : Inv (s.closed fd) := ⟨trivial, h.close⟩

theorem Inv.pop (h : Inv s) (hpc : s.pc = .queuePop) : Inv (popStep s fd) := by
  have hlog : LogOk s.log ∅ := by
    have hlog := h.log
    rwa [hpc] at hlog
  exact ⟨Conserved.accept s.log fd, hlog.pop⟩

theorem Inv.read {res : Except Errno (List UInt8)} (h : Inv s) (hpc : s.pc = .reading fd)
    (hsane : (Call.read fd 4096 res : Syscall).Sane) : Inv (readStep s fd res) := by
  obtain ⟨hpending, hlog⟩ := h
  rw [State.Pending, hpc] at hpending
  rw [hpc] at hlog
  have hread := hlog.read hpending res
  rcases res with e | _ | ⟨b, bs⟩
  · rw [readStep]
    split
    · refine ⟨?_, ?_⟩
      · simp only [State.Pending, hpc]
        exact hpending.idle rfl rfl rfl
      · show LogOk _ s.pc.client
        rw [hpc]
        exact hread
    · exact inv_closed hread
  · exact inv_closed hread
  · refine ⟨⟨?_, Nat.succ_pos _, hsane⟩, hread⟩
    have hnew := hpending.read 4096 (b :: bs)
    rw [List.nil_append] at hnew
    show Conserved _ fd ((s.buffer.store (b :: bs)).window 0 (b :: bs).length)
    rw [Buffer.window_store _ hsane]
    exact hnew

theorem Inv.write {n done : Nat} {res : Except Errno Nat} (h : Inv s)
    (hpc : s.pc = .writing fd n done)
    (hsane : (Call.write fd (s.buffer.window done n) res : Syscall).Sane) :
    Inv (writeStep s fd n done res) := by
  obtain ⟨hpending, hlog⟩ := h
  rw [State.Pending, hpc] at hpending
  rw [hpc] at hlog
  obtain ⟨hpending, hdone, hn⟩ := hpending
  have hwrite := hlog.write hpending res
  rcases res with e | k
  · by_cases he : e = .EINTR
    · have hagain : writeFull n done (.error e) = .running done := by
        simp [writeFull, transferStep, Transfer.resume, he, hdone]
      rw [writeStep, hagain]
      exact ⟨⟨hpending.idle rfl rfl rfl, hdone, hn⟩, hwrite⟩
    · have hfailed : writeFull n done (.error e) = .returned (.error e) := by
        simp [writeFull, transferStep, he]
      rw [writeStep, hfailed]
      exact inv_closed hwrite
  · cases k with
    | zero =>
        have hshort : writeFull n done (.ok 0) = .returned (.ok done) := rfl
        rw [writeStep, hshort]
        dsimp only
        rw [if_neg hdone.ne]
        exact inv_closed hwrite
    | succ k =>
        have hk : k + 1 ≤ n - done := by
          have hle : k + 1 ≤ (s.buffer.window done n).length := hsane
          rwa [s.buffer.length_window hn] at hle
        have hwritten := hpending.write (k + 1)
        rw [Buffer.drop_window] at hwritten
        have hmoved : writeFull n done (.ok (k + 1)) = .resume n (done + (k + 1)) :=
          transferStep_ok (Nat.succ_pos k)
        rw [writeStep, hmoved, Transfer.resume]
        by_cases hmore : done + (k + 1) < n
        · rw [if_pos hmore]
          exact ⟨⟨hwritten, hmore, hn⟩, hwrite⟩
        · have hall : done + (k + 1) = n := by omega
          rw [hall, Buffer.window_self] at hwritten
          rw [if_neg hmore]
          dsimp only
          rw [if_pos hall]
          exact ⟨hwritten, hwrite⟩

/-! The call that a step makes is in the log. -/

theorem readStep_log (s : State) (fd : Int) (res : Except Errno (List UInt8)) :
    .read fd 4096 res :: s.log <:+ (readStep s fd res).log := by
  rcases res with e | _ | ⟨b, bs⟩
  · rw [readStep]
    split
    · exact List.suffix_refl _
    · exact List.suffix_cons _ _
  · exact List.suffix_cons _ _
  · exact List.suffix_refl _

theorem writeStep_log (s : State) (fd : Int) (n done : Nat) (res : Except Errno Nat) :
    .write fd (s.buffer.window done n) res :: s.log <:+ (writeStep s fd n done res).log := by
  rw [writeStep]
  split
  · exact List.suffix_refl _
  · split
    · exact List.suffix_refl _
    · exact List.suffix_cons _ _
  · exact List.suffix_cons _ _

/-- Every step keeps the invariant. -/
theorem Inv.step {e : Event} (h : Inv s) (hnext : system.next s e t) : Inv t := by
  obtain ⟨hstep, hsane⟩ := hnext
  cases e with
  | pop fd =>
      simp only [WorkerMain.step] at hstep
      split at hstep
      · next hpc =>
          cases hstep
          exact h.pop hpc
      · cases hstep
  | read res =>
      simp only [WorkerMain.step] at hstep
      split at hstep
      · next fd hpc =>
          cases hstep
          exact h.read hpc (hsane.of_suffix (readStep_log s fd res)).1
      · cases hstep
  | write res =>
      simp only [WorkerMain.step] at hstep
      split at hstep
      · next fd n done hpc =>
          cases hstep
          exact h.write hpc (hsane.of_suffix (writeStep_log s fd n done res)).1
      · cases hstep

end Steps

theorem reachable_inv {s : State} (hs : system.Reachable s) : Inv s := by
  refine hs.induct ?_ ?_
  · rintro s ⟨buffer, rfl⟩
    exact ⟨trivial, trivial, trivial, rfl, trivial⟩
  · intro s e t _ h hnext
    exact h.step hnext

/-- The worker echoes each client to itself.  What was written to a client is at
every moment a prefix of what was read from it, and all of it at each `read`,
the one that ends the input among them; a `write` offers what was read from the
same client and not written yet; no descriptor is closed but by one that serves
it, and when a client is popped every earlier one has been closed, as often as
it was popped. -/
theorem worker_echoes {s : State} (hs : system.Reachable s) :
    (∀ h, h <:+ s.log → ∀ fd, echoed h fd <+: received h fd) ∧
    (∀ fd, s.pc = .reading fd → echoed s.log fd = received s.log fd) ∧
    (∀ fd asked res h, .read fd asked res :: h <:+ s.log →
      echoed h fd = received h fd) ∧
    (∀ fd chunk res h, .write fd chunk res :: h <:+ s.log →
      echoed h fd ++ chunk = received h fd) ∧
    Lawful ∅ s.log ∧
    (∀ fd h, .accept fd :: h <:+ s.log →
      openKeys ∅ h = ∅ ∧ ∀ k, closes k h = accepts k h) := by
  obtain ⟨hpending, hlog⟩ := reachable_inv hs
  refine ⟨?_, ?_, ?_, ?_, hlog.lawful, ?_⟩
  · intro h hsuffix
    have hduplex : HalfDuplex h := hlog.halfDuplex.of_suffix hsuffix
    exact hduplex.isPrefix
  · intro fd hpc
    rw [State.Pending, hpc] at hpending
    exact hpending.eq_of_nil
  · intro fd asked res h hsuffix
    have hcall : Conserved h fd [] := (hlog.halfDuplex.of_suffix hsuffix).1
    exact hcall.eq_of_nil
  · intro fd chunk res h hsuffix
    exact (hlog.halfDuplex.of_suffix hsuffix).1
  · intro fd h hsuffix
    have hopen : openKeys ∅ h = ∅ := (hlog.alone.of_suffix hsuffix).1 rfl
    have hlawful : Lawful ∅ (.accept fd :: h) := hlog.lawful.of_suffix hsuffix
    refine ⟨hopen, fun k => ?_⟩
    have hledger := Lawful.accepts_eq hlawful.2 (Finset.notMem_empty k)
    rw [hopen, if_neg (Finset.notMem_empty k), Nat.add_zero] at hledger
    exact hledger.symm

/-- Two clients on one descriptor.  The first `write` takes one byte of two and
the second fails; nothing of this client reaches the next one. -/
theorem worker_echoes_two : ∃ s, system.Reachable s ∧ s.pc = .reading 4 ∧
    accepts 4 s.log = 2 ∧ closes 4 s.log = 1 ∧ received s.log 4 = [67] ∧
      echoed s.log 4 = received s.log 4 := by
  have h₀ : system.Reachable (started (.fill 4096 0)) := .start ⟨_, rfl⟩
  have h₁ := h₀.step (e := Event.pop 4) ⟨rfl, by decide⟩
  have h₂ := h₁.step (e := Event.read (.ok [65, 66])) ⟨rfl, by decide⟩
  have h₃ := h₂.step (e := Event.write (.ok 1)) ⟨rfl, by decide⟩
  have h₄ := h₃.step (e := Event.write (.error (.other 32))) ⟨rfl, by decide⟩
  have h₅ := h₄.step (e := Event.pop 4) ⟨rfl, by decide⟩
  have h₆ := h₅.step (e := Event.read (.ok [67])) ⟨rfl, by decide⟩
  have h₇ := h₆.step (e := Event.write (.ok 1)) ⟨rfl, by decide⟩
  exact ⟨_, h₇, rfl, by decide, by decide, by decide, (worker_echoes h₇).2.1 4 rfl⟩

end SysLab.PartB.WorkerMain
