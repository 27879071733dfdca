import SysLab.PartB.EpollServerTable

/-!
# Conservation and armed masks of the `epoll` server

For every client, in every reachable state: the two cursors stay inside the
buffer, what was written followed by what is buffered is what was read, and
the registered mask says which of the two branches has work to do.  An event
the mask admits therefore always makes the handler call the kernel; a
connection is never left armed for an event nobody acts upon.
-/

namespace SysLab.PartB.EpollServer

open SysLab.Foundation
open SysLab.Foundation.Transcript

/-- An event that asks for something to be done: the connection is broken, or
a condition the mask was armed for is there. -/
def EpollFlags.Calls (mask revents : EpollFlags) : Prop :=
  revents.broken = true ∨ (mask.epollin = true ∧ revents.epollin = true) ∨
    (mask.epollout = true ∧ revents.epollout = true)

/-! ## An admitted event is acted upon -/

/-- Entered for input with an empty buffer, the read branch reads. -/
theorem readBranch_reads {x : Slot} {it : EpollEvent}
    (hreg : x.interest x.conn.fd = some it) {revents : EpollFlags}
    (hin : revents.epollin = true) (hempty : x.conn.used = x.conn.sent)
    (rd : Except Errno (List UInt8)) :
    (x.withRead rd).trace <:+ (readBranch x revents rd).2.trace := by
  have houtcome := readBranch_outcome hreg revents rd
  revert houtcome
  generalize readBranch x revents rd = out
  intro houtcome
  cases houtcome with
  | skipped hnot => exact absurd ⟨hin, hempty⟩ hnot
  | blocked e _ _ _ _ => exact List.suffix_refl _
  | closed _ _ _ => exact closeConnection_suffix _ (List.suffix_refl _)
  | filled bytes _ _ _ _ => exact List.suffix_refl _

/-- Entered for output with bytes to send, the write branch writes. -/
theorem writeBranch_writes {x : Slot} {it : EpollEvent}
    (hreg : x.interest x.conn.fd = some it) {revents : EpollFlags}
    (hout : revents.epollout = true) (hpending : x.conn.sent < x.conn.used)
    (wr : Except Errno Nat) :
    (x.withWrite wr).trace <:+ (writeBranch x revents wr).2.trace := by
  have houtcome := writeBranch_outcome hreg revents wr
  revert houtcome
  generalize writeBranch x revents wr = out
  intro houtcome
  cases houtcome with
  | skipped hnot => exact absurd ⟨hout, hpending⟩ hnot
  | blocked e _ _ _ _ => exact List.suffix_refl _
  | closed _ _ _ => exact closeConnection_suffix _ (List.suffix_refl _)
  | drained n _ _ _ _ => exact List.suffix_refl _
  | advanced n _ _ _ _ => exact List.suffix_refl _

/-- The event body keeps all the calls of its read branch. -/
theorem handleEvent_after_read {x : Slot} {it : EpollEvent}
    (hreg : x.interest x.conn.fd = some it) {revents : EpollFlags}
    (hbroken : revents.broken = false) (rd : Except Errno (List UInt8))
    (wr : Except Errno Nat) :
    (readBranch x revents rd).2.trace <:+
      (handleEvent x revents rd wr).2.trace := by
  have houtcome := readBranch_outcome hreg revents rd
  unfold handleEvent
  rw [hbroken, if_neg Bool.false_ne_true]
  rcases hread : readBranch x revents rd with ⟨flow, y⟩
  rw [hread] at houtcome
  cases flow with
  | fallThrough =>
      obtain ⟨it', hy⟩ := houtcome.registered hreg
      exact writeBranch_suffix hy revents wr
  | continueBatch => exact List.suffix_refl _
  | exits why => exact List.suffix_refl _

/-- Whatever the kernel reports on a live connection within its registered
mask, the handler makes at least one call on the connection's descriptor. -/
theorem handleEvent_calls {x : Slot} (hx : SlotOk x) (hfd : 0 ≤ x.conn.fd)
    {it : EpollEvent} (hit : x.interest x.conn.fd = some it)
    {revents : EpollFlags} (hcalls : it.events.Calls revents)
    (rd : Except Errno (List UInt8)) (wr : Except Errno Nat) :
    ∃ c : Syscall, c.key = x.conn.fd ∧
      c :: x.trace <:+ (handleEvent x revents rd wr).2.trace := by
  by_cases hbroken : revents.broken = true
  · refine ⟨.close x.conn.fd, rfl, ?_⟩
    simp [handleEvent, hbroken, closeConnection, hfd]
  have hwhole : revents.broken = false := by simpa using hbroken
  rcases hx.busy hfd with ⟨hreg, hused, hsent⟩ | ⟨hreg, hpending, _⟩
  · rw [hreg] at hit
    cases hit
    have hin : revents.epollin = true := by
      simpa [EpollFlags.Calls, armedForInput, hwhole] using hcalls
    have hempty : x.conn.used = x.conn.sent := by omega
    exact ⟨.read x.conn.fd bufferSize rd, rfl,
      (readBranch_reads hreg hin hempty rd).trans
        (handleEvent_after_read hreg hwhole rd wr)⟩
  · rw [hreg] at hit
    cases hit
    have hout : revents.epollout = true := by
      simpa [EpollFlags.Calls, armedForOutput, hwhole] using hcalls
    have hskip : readBranch x revents rd = (.fallThrough, x) := by
      have hbusy : ¬ x.conn.used = x.conn.sent := by omega
      simp [readBranch, hbusy]
    refine ⟨.write x.conn.fd x.conn.pending wr, rfl, ?_⟩
    simp only [handleEvent, hwhole, hskip]
    exact writeBranch_writes hreg hout hpending wr

/-! ## In every reachable state -/

/-- The mask tells the two states of a connection apart. -/
theorem SlotOk.mask_iff {x : Slot} (hx : SlotOk x) (hfd : 0 ≤ x.conn.fd) :
    ∃ mask, x.interest x.conn.fd = some ⟨mask, some x.index⟩ ∧
      (mask = armedForInput ↔ x.conn.used = 0 ∧ x.conn.sent = 0) ∧
      (mask = armedForOutput ↔ x.conn.sent < x.conn.used) := by
  rcases hx.busy hfd with ⟨hreg, hused, hsent⟩ | ⟨hreg, hlt, _⟩
  · refine ⟨armedForInput, hreg, ?_, ?_⟩
    · simp [hused, hsent]
    · simp [armedForInput, armedForOutput, hused]
  · refine ⟨armedForOutput, hreg, ?_, ?_⟩
    · have hbusy : x.conn.used ≠ 0 := by omega
      simp [armedForInput, armedForOutput, hbusy]
    · simp [hlt]

/-- Conservation and interest agreement over all runs, for every descriptor
accepted and not closed.  A slot holds nothing until something has been read
from its present owner. -/
theorem interest_agrees {maxClients : Nat} {inherited : Finset Int}
    {listenFd epfd : Int} {s : State}
    (hs : (system maxClients inherited listenFd epfd).Reachable s) :
    ∀ fd ∈ clients (startFds inherited listenFd epfd) s.trace,
      ∃ i, i < maxClients ∧ (s.conns i).fd = fd ∧
        (s.conns i).sent ≤ (s.conns i).used ∧ (s.conns i).used ≤ bufferSize ∧
        echoed s.trace fd ++
            (s.conns i).buffer.window (s.conns i).sent (s.conns i).used =
          received s.trace fd ∧
        (received s.trace fd = [] → (s.conns i).pending = []) ∧
        ∃ mask, s.interest fd = some ⟨mask, some i⟩ ∧
          (mask = armedForInput ↔
            (s.conns i).used = 0 ∧ (s.conns i).sent = 0) ∧
          (mask = armedForOutput ↔ (s.conns i).sent < (s.conns i).used) ∧
          ∀ revents, mask.Calls revents → ∀ rd wr,
            ∃ c : Syscall, c.key = fd ∧
              c :: s.trace <:+
                (handleEvent (s.slot i) revents rd wr).2.trace := by
  have hinv := reachable_inv hs
  intro fd hfd
  obtain ⟨i, hi, hlive, hkey⟩ :=
    hinv.core.table.exists_slot (Finset.mem_coe.mpr hfd)
  subst hkey
  have hslot := hinv.core.slots i hi
  obtain ⟨hsent, hused⟩ := hslot.cursors hlive
  obtain ⟨mask, hreg, hinput, houtput⟩ := hslot.mask_iff hlive
  have hcons := hslot.conserved hlive
  refine ⟨i, hi, rfl, hsent, hused, hcons, ?_, mask, hreg, hinput, houtput, ?_⟩
  · intro hnothing
    exact (List.append_eq_nil_iff.mp (hcons.trans hnothing)).2
  · intro revents hcalls rd wr
    exact handleEvent_calls hslot hlive hreg hcalls rd wr

/-- One client sends two bytes and takes one of them back. -/
theorem partial_echo_reachable :
    ∃ s, (system 1 {0, 1, 2} 3 4).Reachable s ∧
      s.trace = [.write 5 [65, 66] (.ok 1), .read 5 4096 (.ok [65, 66]), .accept 5] ∧
      (s.conns 0).fd = 5 ∧ (s.conns 0).pending = [66] := by
  have h₀ : (system 1 {0, 1, 2} 3 4).Reachable (initial 3) := .start rfl
  have h₁ := h₀.step (e := .wait (.ok [⟨3, EPOLLIN, none⟩]))
    ⟨rfl, by decide, by decide⟩
  have h₂ := h₁.step (e := .accept (.ok 5) none) ⟨rfl, by decide, by decide⟩
  have h₃ := h₂.step (e := .accept (.error .EAGAIN) none)
    ⟨rfl, by decide, by decide⟩
  have h₄ := h₃.step (e := .wait (.ok [⟨5, EPOLLIN, some 0⟩]))
    ⟨rfl, by decide, by decide⟩
  have h₅ := h₄.step (e := .conn (.ok [65, 66]) (.ok 0))
    ⟨rfl, by decide, by decide⟩
  have h₆ := h₅.step
    (e := .wait (.ok [⟨5, { epollout := true }, some 0⟩]))
    ⟨rfl, by decide, by decide⟩
  have h₇ := h₆.step (e := .conn (.ok []) (.ok 1)) ⟨rfl, by decide, by decide⟩
  exact ⟨_, h₇, rfl, rfl, by decide⟩

/-- `interest_agrees` in that state: the connection is armed for output. -/
theorem interest_agrees_partial :
    ∃ s, (system 1 {0, 1, 2} 3 4).Reachable s ∧
      ∃ i, i < 1 ∧ (s.conns i).fd = 5 ∧
        echoed s.trace 5 ++
            (s.conns i).buffer.window (s.conns i).sent (s.conns i).used =
          received s.trace 5 ∧
        received s.trace 5 = [65, 66] ∧ echoed s.trace 5 = [65] := by
  obtain ⟨s, hs, htrace, _⟩ := partial_echo_reachable
  have hclient : (5 : Int) ∈ clients (startFds {0, 1, 2} 3 4) s.trace := by
    rw [htrace]
    decide
  obtain ⟨i, hi, hfd, _, _, hcons, _, _⟩ := interest_agrees hs 5 hclient
  refine ⟨s, hs, i, hi, hfd, hcons, ?_, ?_⟩
  · rw [htrace]
    rfl
  · rw [htrace]
    rfl

end SysLab.PartB.EpollServer
