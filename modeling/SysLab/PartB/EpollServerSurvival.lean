import SysLab.PartB.EpollServerTable

/-!
# What ends the `epoll` server

With a healthy `epoll_wait` the only way out of the event loop is
`die_errno("accept")`, and clients can take it: a connection aborted before it
is accepted makes `accept` fail with `ECONNABORTED`, a descriptor table they
have filled makes it fail with `EMFILE`.  A run survives exactly when none of
its `accept`s failed with an error the loop does not retry.  What the loop does
for one client never shows in the slot, the buffer or the mask of another.
-/

namespace SysLab.PartB.EpollServer

open SysLab.Foundation
open SysLab.Foundation.Transcript

/-- `epoll_wait` fails at most by being interrupted. -/
def Event.WaitHealthy : Event → Prop
  | .wait (.error e) => e = .EINTR
  | _ => True

/-- If this is a failed `accept`, it failed with an error the loop goes on
after: `EAGAIN`, `EWOULDBLOCK` or `EINTR`. -/
def Event.AcceptRetried : Event → Prop
  | .accept (.error e) _ => e.wouldBlock = true ∨ e = .EINTR
  | _ => True

instance : (e : Event) → Decidable e.WaitHealthy
  | .wait (.ok _) => isTrue trivial
  | .wait (.error e) => inferInstanceAs (Decidable (e = .EINTR))
  | .accept _ _ => isTrue trivial
  | .conn _ _ => isTrue trivial

/-! ## Exits -/

section Exits

variable {maxClients : Nat} {inherited : Finset Int} {listenFd epfd : Int}
  {s t : State}

/-- A server that has exited takes no step. -/
theorem no_step_after_exit {base : Finset Int} {e : Event} {why : Exit}
    (hpc : s.pc = .exited why) : step maxClients base s e = none := by
  cases e with
  | wait res => simp [step, hpc]
  | accept res refused => simp [step, hpc]
  | conn rd wr => simp [step, hpc]

/-- A step exits exactly when it is an `accept` that failed for good. -/
theorem step_exits_iff {e : Event}
    (hs : (system maxClients inherited listenFd epfd).Reachable s)
    (hnext : (system maxClients inherited listenFd epfd).next s e t)
    (hwait : e.WaitHealthy) :
    (∃ why, t.pc = .exited why) ↔ ¬ e.AcceptRetried := by
  obtain ⟨hstep, hk, _⟩ := hnext
  have hinv := reachable_inv hs
  constructor
  · rintro ⟨why, hexit⟩ hretried
    rcases exited_cases hinv hstep hk hexit with
      ⟨errno, rfl, hintr, _⟩ | ⟨errno, refused, rfl, hblock, hintr, _⟩
    · exact hintr hwait
    · rcases hretried with hwould | heq
      · rw [hblock] at hwould
        cases hwould
      · exact hintr heq
  · intro hfatal
    cases e with
    | wait res => exact absurd trivial hfatal
    | conn rd wr => exact absurd trivial hfatal
    | accept res refused =>
        rcases res with errno | fd
        · obtain ⟨hblock, hintr⟩ := not_or.mp hfatal
          obtain ⟨_, _, rfl⟩ := step_accept hstep
          exact ⟨⟨"accept", errno⟩, by simp [acceptStep, hblock, hintr]⟩
        · exact absurd trivial hfatal

/-- From a running server: a run ends in an exit exactly when one of its
`accept`s failed for good. -/
theorem run_exits_iff {es : List Event}
    (hrun : (system maxClients inherited listenFd epfd).Run s es t)
    (hs : (system maxClients inherited listenFd epfd).Reachable s)
    (hwait : ∀ e ∈ es, e.WaitHealthy) (hlive : ∀ why, s.pc ≠ .exited why) :
    (∀ why, t.pc ≠ .exited why) ↔ ∀ e ∈ es, e.AcceptRetried := by
  induction hrun with
  | nil s =>
      constructor
      · intro _ e he
        exact absurd he List.not_mem_nil
      · intro _
        exact hlive
  | @cons s u t e es hnext hrest ih =>
      have hexits := step_exits_iff hs hnext (hwait e List.mem_cons_self)
      by_cases hretried : e.AcceptRetried
      · have hu : ∀ why, u.pc ≠ .exited why := fun why hpc =>
          hexits.mp ⟨why, hpc⟩ hretried
        have hwait' : ∀ e' ∈ es, e'.WaitHealthy := fun e' he' =>
          hwait e' (List.mem_cons_of_mem e he')
        rw [ih (hs.step hnext) hwait' hu, List.forall_mem_cons]
        exact (and_iff_right hretried).symm
      · obtain ⟨why, hpc⟩ := hexits.mpr hretried
        have hsame : u = t := by
          cases hrest with
          | nil => rfl
          | cons hnext' _ =>
              have hstuck := hnext'.1
              rw [no_step_after_exit hpc] at hstuck
              cases hstuck
        constructor
        · intro ht
          rw [← hsame] at ht
          exact absurd hpc (ht why)
        · intro hall
          exact absurd (hall e List.mem_cons_self) hretried

end Exits

/-! ## Isolation -/

/-- The event loop is not about to handle an event of slot `j`. -/
def Idle (j : Nat) (s : State) (_ : Event) : Prop :=
  ∀ ev rest, s.pc ≠ .event j ev rest

/-- While no event of its own is handled, a live connection keeps its slot,
its buffer and its registration. -/
theorem run_isolates {maxClients : Nat} {inherited : Finset Int}
    {listenFd epfd : Int} {s t : State} {es : List Event} {j : Nat}
    (hrun : ((system maxClients inherited listenFd epfd).restrict (Idle j)).Run
      s es t)
    (hs : (system maxClients inherited listenFd epfd).Reachable s)
    (hj : j < maxClients) (hlive : 0 ≤ (s.conns j).fd) :
    t.conns j = s.conns j ∧
      t.interest (s.conns j).fd = s.interest (s.conns j).fd := by
  induction hrun with
  | nil s => exact ⟨rfl, rfl⟩
  | @cons s u t e es hnext hrest ih =>
      obtain ⟨hstep, hidle⟩ := hnext
      have hinv := reachable_inv hs
      obtain ⟨hconn, hmask⟩ := (step_moves hinv hstep.1 hstep.2.1).frame
        hinv.core hj hlive hidle
      have hlive' : 0 ≤ (u.conns j).fd := by
        rw [hconn]
        exact hlive
      obtain ⟨hconn', hmask'⟩ := ih (hs.step hstep) hlive'
      rw [hconn] at hconn' hmask'
      exact ⟨hconn', hmask'.trans hmask⟩

/-- The event loop survives a run, `epoll_wait` being healthy, exactly when
every failed `accept` of it failed with `EAGAIN`, `EWOULDBLOCK` or `EINTR`;
and whatever the other clients do, a live connection keeps its slot, buffer
and mask until an event of its own is handled. -/
theorem survives_iff {maxClients : Nat} {inherited : Finset Int}
    {listenFd epfd : Int} {s : State} {es : List Event}
    (hrun : (system maxClients inherited listenFd epfd).Run
      (initial listenFd) es s)
    (hwait : ∀ e ∈ es, e.WaitHealthy) :
    ((∀ why, s.pc ≠ .exited why) ↔ ∀ e ∈ es, e.AcceptRetried) ∧
    ∀ j t fs, j < maxClients → 0 ≤ (s.conns j).fd →
      ((system maxClients inherited listenFd epfd).restrict (Idle j)).Run
        s fs t →
      t.conns j = s.conns j ∧
        t.interest (s.conns j).fd = s.interest (s.conns j).fd := by
  have h₀ : (system maxClients inherited listenFd epfd).Reachable
      (initial listenFd) := .start rfl
  constructor
  · apply run_exits_iff hrun h₀ hwait
    intro why hpc
    cases hpc
  · intro j t fs hj hlive hfs
    exact run_isolates hfs (hrun.reachable h₀) hj hlive

/-- A client connects and a second one aborts before it is accepted. -/
def abortedEvents : List Event :=
  [.wait (.ok [⟨3, EPOLLIN, none⟩]), .accept (.ok 5) none,
    .accept (.error .ECONNABORTED) none]

/-- The first client alone. -/
def acceptedEvents : List Event :=
  [.wait (.ok [⟨3, EPOLLIN, none⟩]), .accept (.ok 5) none,
    .accept (.error .EAGAIN) none]

/-- `survives_iff` on a run that retries: the server stays up. -/
theorem survives_accepted :
    ∃ s, (system 2 {0, 1, 2} 3 4).Run (initial 3) acceptedEvents s ∧
      ∀ why, s.pc ≠ .exited why := by
  have hrun : (system 2 {0, 1, 2} 3 4).Run (initial 3) acceptedEvents _ :=
    .cons ⟨rfl, by decide, by decide⟩
      (.cons ⟨rfl, by decide, by decide⟩
        (.cons ⟨rfl, by decide, by decide⟩ (.nil _)))
  refine ⟨_, hrun, (survives_iff hrun (by decide)).1.mpr ?_⟩
  intro e he
  simp only [acceptedEvents, List.mem_cons, List.not_mem_nil, or_false] at he
  rcases he with rfl | rfl | rfl
  · trivial
  · trivial
  · exact .inl rfl

/-- An aborted connection ends the server while another client is served. -/
theorem aborted_connection_exits :
    ∃ s, (system 2 {0, 1, 2} 3 4).Run (initial 3) abortedEvents s ∧
      (∀ e ∈ abortedEvents, e.WaitHealthy) ∧ (s.conns 0).fd = 5 ∧
      s.pc = .exited ⟨"accept", .ECONNABORTED⟩ := by
  have hrun : (system 2 {0, 1, 2} 3 4).Run (initial 3) abortedEvents _ :=
    .cons ⟨rfl, by decide, by decide⟩
      (.cons ⟨rfl, by decide, by decide⟩
        (.cons ⟨rfl, by decide, by decide⟩ (.nil _)))
  exact ⟨_, hrun, by decide, rfl, rfl⟩

end SysLab.PartB.EpollServer
