import SysLab.Foundation.Transition

/-!
# A message relayed over two bounded channels

A client sends a whole message before it takes the first byte of the echo; a
relay holds one block at a time, and takes the next only when the last has been
forwarded.  `Relay.State` counts the bytes in each place: in the channel to the
relay, in the relay, and in the channel back.

The client and the relay wait for each other for ever exactly when both
channels are full and the relay holds a byte while the client still has one to
send (`stuck_iff`); so the pair never gets stuck if and only if a message fits
into both channels with one byte to spare for the relay (`live_iff`).
-/

namespace SysLab.Foundation.Relay

/-- Length and number of the messages, room in the two channels, and the block
the relay takes at most. -/
structure Config where
  message : Nat
  messages : Nat
  inbound : Nat
  outbound : Nat
  block : Nat

/-- Where the client stands within a message. -/
inductive Phase
  | sending (done : Nat)
  | receiving (done : Nat)
  | finished
  deriving DecidableEq, Repr

/-- The bytes in each place, and the messages that have come back. -/
structure State where
  phase : Phase
  count : Nat
  inbound : Nat
  held : Nat
  outbound : Nat
  deriving DecidableEq, Repr

/-- `n` bytes move. -/
inductive Move
  | send (n : Nat)
  | receive (n : Nat)
  | fetch (n : Nat)
  | forward (n : Nat)
  deriving DecidableEq, Repr

/-- `done` bytes have been sent. -/
def afterSend (c : Config) (done : Nat) : Phase :=
  if done < c.message then .sending done else .receiving 0

/-- `done` bytes have come back, of the message after `count` others. -/
def afterReceive (c : Config) (count done : Nat) : Phase × Nat :=
  if done < c.message then (.receiving done, count)
  else if count + 1 < c.messages then (.sending 0, count + 1)
  else (.finished, count + 1)

/-- One move, where there are the bytes and the room for it. -/
def step (c : Config) (s : State) : Move → Option State
  | .send n =>
      match s.phase with
      | .sending done =>
          if 0 < n ∧ done + n ≤ c.message ∧ s.inbound + n ≤ c.inbound then
            some { s with
              phase := afterSend c (done + n)
              inbound := s.inbound + n }
          else none
      | _ => none
  | .receive n =>
      match s.phase with
      | .receiving done =>
          if 0 < n ∧ done + n ≤ c.message ∧ n ≤ s.outbound then
            some { s with
              phase := (afterReceive c s.count (done + n)).1
              count := (afterReceive c s.count (done + n)).2
              outbound := s.outbound - n }
          else none
      | _ => none
  | .fetch n =>
      if s.held = 0 ∧ 0 < n ∧ n ≤ c.block ∧ n ≤ s.inbound then
        some { s with inbound := s.inbound - n, held := n }
      else none
  | .forward n =>
      if 0 < n ∧ n ≤ s.held ∧ s.outbound + n ≤ c.outbound then
        some { s with held := s.held - n, outbound := s.outbound + n }
      else none

/-- Nothing sent yet. -/
def start (c : Config) : State where
  phase := if 0 < c.messages then .sending 0 else .finished
  count := 0
  inbound := 0
  held := 0
  outbound := 0

def system (c : Config) : System State Move where
  init s := s = start c
  next s m t := step c s m = some t

/-! ## Every byte sent is somewhere -/

/-- Within a message the bytes sent and not yet back are in one of the three
places; between two messages there are none. -/
structure Balanced (c : Config) (s : State) : Prop where
  inbound : s.inbound ≤ c.inbound
  outbound : s.outbound ≤ c.outbound
  sending : ∀ done, s.phase = .sending done →
    done < c.message ∧ s.inbound + s.held + s.outbound = done
  receiving : ∀ done, s.phase = .receiving done →
    done < c.message ∧ s.inbound + s.held + s.outbound + done = c.message
  finished : s.phase = .finished → s.inbound + s.held + s.outbound = 0

section Balanced

variable {c : Config} {s t : State}

theorem start_balanced (hmessage : 0 < c.message) : Balanced c (start c) := by
  by_cases hmessages : 0 < c.messages
  · constructor <;> simp [start, hmessages, hmessage]
  · constructor <;> simp [start, hmessages]

/-- Within the phase bytes may shift between the places. -/
theorem Balanced.shift (h : Balanced c s) (hphase : t.phase = s.phase)
    (hsum : t.inbound + t.held + t.outbound = s.inbound + s.held + s.outbound)
    (hin : t.inbound ≤ c.inbound) (hout : t.outbound ≤ c.outbound) :
    Balanced c t := by
  refine ⟨hin, hout, ?_, ?_, ?_⟩
  · rw [hphase, hsum]
    exact h.sending
  · rw [hphase, hsum]
    exact h.receiving
  · rw [hphase, hsum]
    exact h.finished

/-- The relay has taken `n` bytes in and passed `m` on. -/
structure Passes (s t : State) (n m : Nat) : Prop where
  phase : t.phase = s.phase
  count : t.count = s.count
  inbound : t.inbound + n = s.inbound
  held : t.held + m = s.held + n
  outbound : t.outbound = s.outbound + m

theorem Balanced.passes (h : Balanced c s) {n m : Nat} (hpasses : Passes s t n m)
    (hin : t.inbound ≤ c.inbound) (hout : t.outbound ≤ c.outbound) : Balanced c t := by
  refine h.shift hpasses.phase ?_ hin hout
  have hinbound := hpasses.inbound
  have hheld := hpasses.held
  have houtbound := hpasses.outbound
  omega

/-- A client that is done starts again. -/
theorem Balanced.restart (h : Balanced c s) (hmessage : 0 < c.message)
    (hfinished : s.phase = .finished) (messages : Nat) :
    Balanced c { s with phase := if 0 < messages then .sending 0 else .finished } := by
  have hsum := h.finished hfinished
  by_cases hmore : 0 < messages
  · rw [if_pos hmore]
    refine ⟨h.inbound, h.outbound, ?_, by simp, by simp⟩
    rintro _ ⟨⟩
    exact ⟨hmessage, hsum⟩
  · rw [if_neg hmore]
    exact ⟨h.inbound, h.outbound, by simp, by simp, fun _ => hsum⟩

/-- The client sends. -/
theorem Balanced.send (h : Balanced c s) {done n : Nat}
    (hphase : s.phase = .sending done) (hdone : done + n ≤ c.message)
    (hroom : s.inbound + n ≤ c.inbound) :
    Balanced c { s with
      phase := afterSend c (done + n)
      inbound := s.inbound + n } := by
  have hout := h.outbound
  have hsending := h.sending done hphase
  by_cases hmore : done + n < c.message
  · rw [afterSend, if_pos hmore]
    refine ⟨hroom, hout, ?_, by simp, by simp⟩
    rintro _ ⟨⟩
    exact ⟨hmore, by dsimp only; omega⟩
  · rw [afterSend, if_neg hmore]
    refine ⟨hroom, hout, by simp, ?_, by simp⟩
    rintro _ ⟨⟩
    exact ⟨by omega, by dsimp only; omega⟩

/-- The client receives. -/
theorem Balanced.receive (h : Balanced c s) {done n : Nat}
    (hphase : s.phase = .receiving done)
    (hdone : done + n ≤ c.message) (hbytes : n ≤ s.outbound) :
    Balanced c { s with
      phase := (afterReceive c s.count (done + n)).1
      count := (afterReceive c s.count (done + n)).2
      outbound := s.outbound - n } := by
  have hin := h.inbound
  have hout : s.outbound - n ≤ c.outbound := Nat.le_trans (Nat.sub_le _ _) h.outbound
  have hreceiving := h.receiving done hphase
  by_cases hmore : done + n < c.message
  · simp only [afterReceive, if_pos hmore]
    refine ⟨hin, hout, by simp, ?_, by simp⟩
    rintro _ ⟨⟩
    exact ⟨hmore, by dsimp only; omega⟩
  · -- the message is complete, and nothing of it is left anywhere
    by_cases hnext : s.count + 1 < c.messages
    · simp only [afterReceive, if_neg hmore, if_pos hnext]
      refine ⟨hin, hout, ?_, by simp, by simp⟩
      rintro _ ⟨⟩
      exact ⟨by omega, by dsimp only; omega⟩
    · simp only [afterReceive, if_neg hmore, if_neg hnext]
      refine ⟨hin, hout, by simp, by simp, ?_⟩
      intro _
      dsimp only
      omega

/-- A move takes bytes from one place to the next. -/
theorem Balanced.step (h : Balanced c s) {m : Move}
    (hstep : step c s m = some t) : Balanced c t := by
  have hin := h.inbound
  have hout := h.outbound
  cases m with
  | send n =>
      rcases hphase : s.phase with done | done | _
      · simp only [Relay.step, hphase] at hstep
        split at hstep
        · rename_i hguard
          cases hstep
          exact h.send hphase hguard.2.1 hguard.2.2
        · cases hstep
      · simp [Relay.step, hphase] at hstep
      · simp [Relay.step, hphase] at hstep
  | receive n =>
      rcases hphase : s.phase with done | done | _
      · simp [Relay.step, hphase] at hstep
      · simp only [Relay.step, hphase] at hstep
        split at hstep
        · rename_i hguard
          cases hstep
          exact h.receive hphase hguard.2.1 hguard.2.2
        · cases hstep
      · simp [Relay.step, hphase] at hstep
  | fetch n =>
      simp only [Relay.step] at hstep
      split at hstep
      · cases hstep
        apply h.shift
        · rfl
        · dsimp only
          omega
        · dsimp only
          omega
        · exact hout
      · cases hstep
  | forward n =>
      simp only [Relay.step] at hstep
      split at hstep
      · rename_i hguard
        cases hstep
        apply h.shift
        · rfl
        · dsimp only
          omega
        · exact hin
        · exact hguard.2.2
      · cases hstep

theorem reachable_balanced (hmessage : 0 < c.message)
    (hs : (system c).Reachable s) : Balanced c s := by
  apply hs.induct
  · rintro s rfl
    exact start_balanced hmessage
  · intro s m t _ h hstep
    exact h.step hstep

end Balanced

/-! ## Getting stuck -/

/-- Both channels are full, and the relay cannot take what the client has still
to send. -/
structure Stuck (c : Config) (s : State) : Prop where
  sending : ∃ done, s.phase = .sending done
  inbound : s.inbound = c.inbound
  held : 0 < s.held
  outbound : s.outbound = c.outbound

section Stuck

variable {c : Config} {s : State}

theorem Stuck.not_enabled (h : Stuck c s) : ¬ (system c).Enabled s := by
  obtain ⟨done, hphase⟩ := h.sending
  have hin := h.inbound
  have hheld := h.held
  have hout := h.outbound
  rintro ⟨m, t, hstep⟩
  replace hstep : step c s m = some t := hstep
  cases m with
  | send n =>
      simp only [step, hphase] at hstep
      split at hstep
      · omega
      · cases hstep
  | receive n =>
      simp [step, hphase] at hstep
  | fetch n =>
      simp only [step] at hstep
      split at hstep
      · omega
      · cases hstep
  | forward n =>
      simp only [step] at hstep
      split at hstep
      · omega
      · cases hstep

/-- A client that sends is blocked by full channels only. -/
theorem enabled_of_sending (hinbound : 0 < c.inbound) (hblock : 0 < c.block)
    (h : Balanced c s) {done : Nat} (hphase : s.phase = .sending done)
    (hstuck : ¬ Stuck c s) : (system c).Enabled s := by
  have hsending := h.sending done hphase
  by_cases hroom : s.inbound < c.inbound
  · have hguard : 0 < 1 ∧ done + 1 ≤ c.message ∧ s.inbound + 1 ≤ c.inbound := by
      omega
    have hstep : step c s (.send 1) = some { s with
        phase := afterSend c (done + 1), inbound := s.inbound + 1 } := by
      simp only [step, hphase, if_pos hguard]
    exact ⟨_, _, hstep⟩
  · have hin := h.inbound
    by_cases hheld : s.held = 0
    · have hguard : s.held = 0 ∧ 0 < 1 ∧ 1 ≤ c.block ∧ 1 ≤ s.inbound := by
        omega
      exact ⟨.fetch 1, _, if_pos hguard⟩
    · have hout := h.outbound
      by_cases hspace : s.outbound < c.outbound
      · have hguard : 0 < 1 ∧ 1 ≤ s.held ∧ s.outbound + 1 ≤ c.outbound := by
          omega
        exact ⟨.forward 1, _, if_pos hguard⟩
      · exact absurd ⟨⟨done, hphase⟩, by omega, by omega, by omega⟩ hstuck

/-- While a client sends a message that fits, it has room to, or the relay can move. -/
theorem Balanced.not_full (h : Balanced c s) (hinbound : 0 < c.inbound)
    (hfits : c.message ≤ c.inbound + c.outbound + 1) {done : Nat}
    (hphase : s.phase = .sending done) :
    s.inbound < c.inbound ∨ (s.held = 0 ∧ 0 < s.inbound) ∨
      (0 < s.held ∧ s.outbound < c.outbound) := by
  have hsending := h.sending done hphase
  have hin := h.inbound
  omega

/-- While a client receives, its bytes are on their way. -/
theorem Balanced.on_the_way (h : Balanced c s) (houtbound : 0 < c.outbound) {done : Nat}
    (hphase : s.phase = .receiving done) :
    0 < s.outbound ∨ (s.held = 0 ∧ 0 < s.inbound) ∨
      (0 < s.held ∧ s.outbound < c.outbound) := by
  have hreceiving := h.receiving done hphase
  omega

/-- A client that receives is never blocked for good. -/
theorem enabled_of_receiving (houtbound : 0 < c.outbound) (hblock : 0 < c.block)
    (h : Balanced c s) {done : Nat} (hphase : s.phase = .receiving done) :
    (system c).Enabled s := by
  have hreceiving := h.receiving done hphase
  rcases h.on_the_way houtbound hphase with hbytes | ⟨hheld, hin⟩ | ⟨hheld, hroom⟩
  · have hguard : 0 < 1 ∧ done + 1 ≤ c.message ∧ 1 ≤ s.outbound := by
      omega
    have hstep : step c s (.receive 1) = some { s with
        phase := (afterReceive c s.count (done + 1)).1
        count := (afterReceive c s.count (done + 1)).2
        outbound := s.outbound - 1 } := by
      simp only [step, hphase, if_pos hguard]
    exact ⟨_, _, hstep⟩
  · have hguard : s.held = 0 ∧ 0 < 1 ∧ 1 ≤ c.block ∧ 1 ≤ s.inbound := by
      omega
    exact ⟨.fetch 1, _, if_pos hguard⟩
  · have hguard : 0 < 1 ∧ 1 ≤ s.held ∧ s.outbound + 1 ≤ c.outbound := by
      omega
    exact ⟨.forward 1, _, if_pos hguard⟩

/-- Nobody can move exactly in a stuck state. -/
theorem stuck_iff (hinbound : 0 < c.inbound) (houtbound : 0 < c.outbound)
    (hblock : 0 < c.block) (h : Balanced c s) (hphase : s.phase ≠ .finished) :
    ¬ (system c).Enabled s ↔ Stuck c s := by
  constructor
  · intro hnone
    by_contra hstuck
    rcases hp : s.phase with done | done | _
    · exact hnone (enabled_of_sending hinbound hblock h hp hstuck)
    · exact hnone (enabled_of_receiving houtbound hblock h hp)
    · exact hphase hp
  · exact Stuck.not_enabled

/-- The bytes of a stuck state belong to a message that does not fit. -/
theorem Stuck.message_gt (h : Stuck c s) (hbalanced : Balanced c s) :
    c.inbound + c.outbound + 1 < c.message := by
  obtain ⟨done, hdone⟩ := h.sending
  have hsending := hbalanced.sending done hdone
  have hin := h.inbound
  have hheld := h.held
  have hout := h.outbound
  omega

/-! ## A message that does not fit -/

/-- `k` bytes are in the channel back, and none elsewhere. -/
def returned (k : Nat) : State := ⟨.sending k, 0, 0, 0, k⟩

/-- The channel back is full, the relay holds a byte, and `j` wait for it. -/
def jammed (c : Config) (j : Nat) : State :=
  ⟨.sending (c.outbound + 1 + j), 0, j, 1, c.outbound⟩

/-- A client that has more to send may send one byte. -/
theorem send_one {done inbound held outbound : Nat} (hmore : done + 1 < c.message)
    (hroom : inbound < c.inbound) :
    (system c).next ⟨.sending done, 0, inbound, held, outbound⟩ (.send 1)
      ⟨.sending (done + 1), 0, inbound + 1, held, outbound⟩ := by
  have hguard : 0 < 1 ∧ done + 1 ≤ c.message ∧ inbound + 1 ≤ c.inbound := by
    omega
  show step c _ (.send 1) = some _
  simp only [step, if_pos hguard, afterSend, if_pos hmore]

/-- The relay may fetch a byte. -/
theorem fetch_one (hblock : 0 < c.block) {done outbound : Nat} :
    (system c).next ⟨.sending done, 0, 1, 0, outbound⟩ (.fetch 1)
      ⟨.sending done, 0, 0, 1, outbound⟩ := by
  have hguard : 0 = 0 ∧ 0 < 1 ∧ 1 ≤ c.block ∧ 1 ≤ 1 := by
    omega
  exact if_pos hguard

/-- The channel back can be filled byte by byte. -/
theorem returned_reachable (hmessages : 0 < c.messages) (hinbound : 0 < c.inbound)
    (hblock : 0 < c.block) (k : Nat) (hk : k ≤ c.outbound)
    (hmessage : k < c.message) : (system c).Reachable (returned k) := by
  induction k with
  | zero =>
      apply System.Reachable.start
      simp [system, start, returned, hmessages]
  | succ k ih =>
      have hforwarded : (system c).next ⟨.sending (k + 1), 0, 0, 1, k⟩ (.forward 1)
          (returned (k + 1)) := by
        have hguard : 0 < 1 ∧ 1 ≤ 1 ∧ k + 1 ≤ c.outbound := by
          omega
        exact if_pos hguard
      have hbefore := ih (by omega) (by omega)
      have hsent := hbefore.step (send_one (by omega) hinbound)
      exact (hsent.step (fetch_one hblock)).step hforwarded

/-- After that the relay jams, and the channel to it can be filled. -/
theorem jammed_reachable (hmessages : 0 < c.messages) (hinbound : 0 < c.inbound)
    (hblock : 0 < c.block) (j : Nat) (hj : j ≤ c.inbound)
    (hmessage : c.outbound + 1 + j < c.message) :
    (system c).Reachable (jammed c j) := by
  induction j with
  | zero =>
      have hfull := returned_reachable hmessages hinbound hblock c.outbound
        (Nat.le_refl _) (by omega)
      have hsent := hfull.step (send_one (by omega) hinbound)
      exact hsent.step (fetch_one hblock)
  | succ j ih =>
      have hbefore := ih (by omega) (by omega)
      exact hbefore.step (send_one (by omega) (by omega))

/-- The client and the relay always get on, exactly when a message fits into the
two channels with a byte to spare. -/
theorem live_iff (hmessages : 0 < c.messages) (hmessage : 0 < c.message)
    (hinbound : 0 < c.inbound) (houtbound : 0 < c.outbound)
    (hblock : 0 < c.block) :
    (∀ s, (system c).Reachable s → s.phase ≠ .finished → (system c).Enabled s) ↔
      c.message ≤ c.inbound + c.outbound + 1 := by
  constructor
  · intro hlive
    by_contra hlong
    have hreach := jammed_reachable hmessages hinbound hblock c.inbound
      (Nat.le_refl _) (by omega)
    have hstuck : Stuck c (jammed c c.inbound) :=
      ⟨⟨_, rfl⟩, rfl, Nat.one_pos, rfl⟩
    exact hstuck.not_enabled (hlive _ hreach (by simp [jammed]))
  · intro hfits s hs hphase
    by_contra hnone
    have hbalanced := reachable_balanced hmessage hs
    have hstuck := (stuck_iff hinbound houtbound hblock hbalanced hphase).mp hnone
    have hgt := hstuck.message_gt hbalanced
    omega

end Stuck

end SysLab.Foundation.Relay
