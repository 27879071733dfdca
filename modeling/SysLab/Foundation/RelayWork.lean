import Mathlib.Tactic.Ring
import SysLab.Foundation.Relay
import SysLab.Foundation.Termination

/-!
# How long a relay goes on

Every byte of a message makes four moves, and no others: it is sent, fetched,
forwarded and received.  `work` counts the moves that are still to be made, byte by
byte, and a move of `n` bytes takes exactly `n` off it.
-/

namespace SysLab.Foundation.Relay

/-- The bytes a move moves. -/
def Move.bytes : Move → Nat
  | .send n => n
  | .receive n => n
  | .fetch n => n
  | .forward n => n

/-- Bytes the client has not sent yet. -/
def unsent (c : Config) (s : State) : Nat :=
  match s.phase with
  | .sending done => (c.messages - s.count) * c.message - done
  | .receiving _ => (c.messages - s.count - 1) * c.message
  | .finished => 0

/-- What is left for each byte to do. -/
def work (c : Config) (s : State) : Nat :=
  4 * unsent c s + 3 * s.inbound + 2 * s.held + s.outbound

/-- A client that is not finished has a message to go on with, and one that is has had
them all. -/
structure OnTime (c : Config) (s : State) : Prop where
  going : s.phase ≠ .finished → s.count < c.messages
  finished : s.phase = .finished → s.count = c.messages

section Work

variable {c : Config} {s t : State}

theorem start_onTime (c : Config) : OnTime c (start c) := by
  unfold start
  split
  · next hmore => exact ⟨fun _ => hmore, fun h => by cases h⟩
  · next hnone =>
      refine ⟨fun h => absurd rfl h, fun _ => ?_⟩
      dsimp only
      omega

/-- A client that goes on with the same message, or the first move of the next. -/
theorem OnTime.move (h : OnTime c s) {m : Move} (hstep : step c s m = some t) :
    OnTime c t := by
  cases m with
  | send n =>
      rcases hphase : s.phase with done | done | _
      · have hmore := h.going (by simp [hphase])
        simp only [step, hphase] at hstep
        split at hstep
        · cases hstep
          refine ⟨fun _ => hmore, fun hfinished => ?_⟩
          simp only [afterSend] at hfinished
          split at hfinished
          · cases hfinished
          · cases hfinished
        · cases hstep
      · simp [step, hphase] at hstep
      · simp [step, hphase] at hstep
  | receive n =>
      rcases hphase : s.phase with done | done | _
      · simp [step, hphase] at hstep
      · have hmore := h.going (by simp [hphase])
        simp only [step, hphase] at hstep
        split at hstep
        · cases hstep
          simp only [afterReceive]
          split
          · exact ⟨fun _ => hmore, fun hfinished => by cases hfinished⟩
          · split
            · next hnext => exact ⟨fun _ => hnext, fun hfinished => by cases hfinished⟩
            · refine ⟨fun hgoing => absurd rfl hgoing, fun _ => ?_⟩
              dsimp only
              omega
        · cases hstep
      · simp [step, hphase] at hstep
  | fetch n =>
      simp only [step] at hstep
      split at hstep
      · cases hstep
        exact ⟨h.going, h.finished⟩
      · cases hstep
  | forward n =>
      simp only [step] at hstep
      split at hstep
      · cases hstep
        exact ⟨h.going, h.finished⟩
      · cases hstep

/-- Bytes that are sent are no longer to be sent. -/
theorem unsent_send (hmessages : s.count < c.messages) (inbound : Nat) {done n : Nat}
    (hphase : s.phase = .sending done) (hn : done + n ≤ c.message) :
    unsent c { s with phase := afterSend c (done + n), inbound := inbound } + n =
      unsent c s := by
  obtain ⟨k, hk⟩ := Nat.exists_eq_add_of_lt hmessages
  have hleft : c.messages - s.count = k + 1 := by omega
  have hsum : (k + 1) * c.message = k * c.message + c.message := by ring
  unfold unsent afterSend
  rw [hphase, hleft]
  dsimp only
  split
  · next heq =>
      split at heq
      · cases heq
        omega
      · cases heq
  · next heq =>
      split at heq
      · cases heq
      · rw [Nat.add_sub_cancel]
        omega
  · next heq =>
      split at heq
      · cases heq
      · cases heq

/-- What is received has been sent. -/
theorem unsent_receive (hmessages : s.count < c.messages) (n outbound : Nat) {done : Nat}
    (hphase : s.phase = .receiving done) :
    unsent c { s with
      phase := (afterReceive c s.count (done + n)).1
      count := (afterReceive c s.count (done + n)).2
      outbound := outbound } = unsent c s := by
  unfold afterReceive
  split
  · simp only [unsent, hphase]
  · split
    · simp only [unsent, hphase, Nat.sub_zero, Nat.sub_add_eq]
    · next hlast =>
        have hnone : c.messages - s.count - 1 = 0 := by omega
        simp only [unsent, hphase, hnone, Nat.zero_mul]

/-- A move takes as much off the work as it moves bytes, and moves some. -/
theorem work_step (h : OnTime c s) {m : Move} (hstep : step c s m = some t) :
    work c t + m.bytes = work c s ∧ 1 ≤ m.bytes := by
  cases m with
  | send n =>
      rcases hphase : s.phase with done | done | _
      · have hmore := h.going (by simp [hphase])
        simp only [step, hphase] at hstep
        split at hstep
        · next hguard =>
            cases hstep
            have hsent := unsent_send hmore (s.inbound + n) hphase hguard.2.1
            refine ⟨?_, hguard.1⟩
            simp only [work, Move.bytes]
            omega
        · cases hstep
      · simp [step, hphase] at hstep
      · simp [step, hphase] at hstep
  | receive n =>
      rcases hphase : s.phase with done | done | _
      · simp [step, hphase] at hstep
      · have hmore := h.going (by simp [hphase])
        simp only [step, hphase] at hstep
        split at hstep
        · next hguard =>
            cases hstep
            have hsent := unsent_receive hmore n (s.outbound - n) hphase
            refine ⟨?_, hguard.1⟩
            simp only [work, Move.bytes]
            omega
        · cases hstep
      · simp [step, hphase] at hstep
  | fetch n =>
      simp only [step] at hstep
      split at hstep
      · next hguard =>
          cases hstep
          refine ⟨?_, hguard.2.1⟩
          have hsame : unsent c { s with inbound := s.inbound - n, held := n } =
            unsent c s := rfl
          simp only [work, Move.bytes, hsame]
          omega
      · cases hstep
  | forward n =>
      simp only [step] at hstep
      split at hstep
      · next hguard =>
          cases hstep
          refine ⟨?_, hguard.1⟩
          have hsame : unsent c { s with
            held := s.held - n, outbound := s.outbound + n } = unsent c s := rfl
          simp only [work, Move.bytes, hsame]
          omega
      · cases hstep

/-- What is taken in and passed on comes off the work. -/
theorem Passes.work {n m : Nat} (h : Passes s t n m) : work c t + (n + m) = work c s := by
  have hin := h.inbound
  have hheld := h.held
  have hout := h.outbound
  have hunsent : unsent c t = unsent c s := by
    rw [unsent, unsent, h.phase, h.count]
  simp only [Relay.work, hunsent]
  omega

theorem work_start (hmessages : 0 < c.messages) :
    work c (start c) = 4 * (c.messages * c.message) := by
  simp [work, unsent, start, hmessages]

theorem work_start_le (c : Config) : work c (start c) ≤ 4 * (c.messages * c.message) := by
  by_cases hmessages : 0 < c.messages
  · exact Nat.le_of_eq (work_start hmessages)
  · simp [work, unsent, start, hmessages]

/-- A client that is finished has left no byte anywhere. -/
theorem Balanced.work_finished (h : Balanced c s) (hphase : s.phase = .finished) :
    work c s = 0 := by
  have hsum := h.finished hphase
  simp only [work, unsent, hphase]
  omega

theorem reachable_onTime (hs : (system c).Reachable s) : OnTime c s := by
  apply hs.induct
  · rintro s rfl
    exact start_onTime c
  · intro s m t _ h hstep
    exact h.move hstep

end Work

end SysLab.Foundation.Relay
