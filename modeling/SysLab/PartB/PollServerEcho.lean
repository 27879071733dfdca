import SysLab.PartB.PollServerTable

/-!
# The `poll` server echoes

Conservation for every client, in every reachable state, whatever the
readiness flags, read sizes, partial writes and slot reuses were: what was
written to it, followed by what its slot still holds, is what was read from
it.  An end of input is only ever seen with nothing pending, so a connection
closed on it has been answered in full.
-/

namespace SysLab.PartB.PollServer

open SysLab.Foundation
open SysLab.Foundation.Transcript

/-- Echo correctness over all runs.  Every connection still open sits in one
slot, whose `buffer[sent .. used)` makes up the difference between what was
written and what was read; output is a prefix of input on every connection,
open or closed; and when `read` returned `0` everything read before had been
written back. -/
theorem echo_conserved {maxClients : Nat} {base : Finset Int}
    {listenFd : Int} {s : State}
    (hs : (system maxClients base listenFd).Reachable s) :
    (∀ fd ∈ clients base s.trace, ∃ i, 1 ≤ i ∧ i ≤ maxClients ∧
      (s.conns i).fd = fd ∧
      echoed s.trace fd ++
          (s.conns i).buffer.window (s.conns i).sent (s.conns i).used =
        received s.trace fd) ∧
    (∀ fd, echoed s.trace fd <+: received s.trace fd) ∧
    (∀ fd asked h, .close fd :: .read fd asked (.ok []) :: h <:+ s.trace →
      echoed h fd = received h fd) := by
  have hinv := reachable_inv hs
  refine ⟨?_, hinv.halfDuplex.isPrefix, ?_⟩
  · intro fd hfd
    obtain ⟨i, ⟨hi, him⟩, hlive, hkey⟩ :=
      hinv.table.exists_slot (Finset.mem_coe.mpr hfd)
    have hcons := (hinv.slots i hi him).conserved hlive
    subst hkey
    exact ⟨i, hi, him, rfl, hcons⟩
  · intro fd asked h hsuf
    have hread : .read fd asked (.ok []) :: h <:+ s.trace :=
      (List.suffix_cons _ _).trans hsuf
    exact (always_iff.mp hinv.halfDuplex _ _ hread).eq_of_nil

/-- One client connects, sends two bytes and takes one of them back. -/
theorem partial_echo_reachable :
    ∃ s, (system 1 {0, 1, 2, 3} 3).Reachable s ∧
      s.trace = [.write 4 [65, 66] (.ok 1), .read 4 4096 (.ok [65, 66]), .accept 4] ∧
      (s.conns 1).fd = 4 ∧ (s.conns 1).pending = [66] := by
  have h₀ : (system 1 {0, 1, 2, 3} 3).Reachable (initial 3) := .start rfl
  have h₁ := h₀.step (e := .poll (.ok fun i => if i = 0 then POLLIN else noFlags))
    ⟨rfl, by decide⟩
  have h₂ := h₁.step (e := .accept (.ok 4)) ⟨rfl, by decide⟩
  have h₃ := h₂.step (e := .accept (.error .EAGAIN)) ⟨rfl, by decide⟩
  have h₄ := h₃.step (e := .slot (.ok []) (.ok 0)) ⟨rfl, by decide⟩
  have h₅ := h₄.step
    (e := .poll (.ok fun i =>
      if i = 0 then noFlags else { pollin := true, pollout := true }))
    ⟨rfl, by decide⟩
  have h₆ := h₅.step (e := .slot (.ok [65, 66]) (.ok 1)) ⟨rfl, by decide⟩
  exact ⟨_, h₆, rfl, rfl, by decide⟩

/-- `echo_conserved` in that state: one byte is out, the other is pending. -/
theorem echo_conserved_partial :
    ∃ s, (system 1 {0, 1, 2, 3} 3).Reachable s ∧ (s.conns 1).pending = [66] ∧
      ∃ i, 1 ≤ i ∧ i ≤ 1 ∧ (s.conns i).fd = 4 ∧
        echoed s.trace 4 ++
            (s.conns i).buffer.window (s.conns i).sent (s.conns i).used =
          received s.trace 4 := by
  obtain ⟨s, hs, _, hfd, hpending⟩ := partial_echo_reachable
  have hclient : (4 : Int) ∈ clients {0, 1, 2, 3} s.trace := by
    have hmem := (reachable_inv hs).mem_clients (Nat.le_refl 1) (Nat.le_refl 1)
      (by rw [hfd]; decide)
    rwa [hfd] at hmem
  exact ⟨s, hs, hpending, (echo_conserved hs).1 4 hclient⟩

end SysLab.PartB.PollServer
