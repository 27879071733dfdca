import SysLab.Foundation.Twin
import SysLab.PartB.PollServerActions
import SysLab.PartB.EpollServerActions

/-!
# Transient failures of `read` and `write`

A run of a server is disturbed by inserting calls on ready connections that fail
with `EINTR`, `EAGAIN` or `EWOULDBLOCK`.  The servers take the last two as "not
yet"; `EINTR` they take for a broken connection, which they close.  So a
disturbed run shows what the undisturbed one shows exactly as long as no inserted
call is interrupted.
-/

namespace SysLab.PartB

open SysLab.Foundation
open SysLab.Foundation.Transcript

/-! ## Insertions and observations -/

/-- A `read` or `write` that fails with `EINTR`, `EAGAIN` or `EWOULDBLOCK`. -/
def Action.Transient {α : Type} : Action α → Prop
  | .read _ (.error e) => e = .EINTR ∨ e.wouldBlock = true
  | .write _ (.error e) => e = .EINTR ∨ e.wouldBlock = true
  | _ => False

/-- A `read` or `write` that fails with `EINTR`. -/
def Action.Interrupted {α : Type} : Action α → Prop
  | .read _ (.error e) => e = .EINTR
  | .write _ (.error e) => e = .EINTR
  | _ => False

/-- The same bytes were read from and written to every connection, and the same
connections were closed in the same order. -/
structure SameObserved (h h' : Trace) : Prop where
  received : ∀ fd, received h fd = received h' fd
  echoed : ∀ fd, echoed h fd = echoed h' fd
  closings : closings h = closings h'

theorem SameObserved.of_settled {h h' : Trace} (heq : settled h = settled h') :
    SameObserved h h' where
  received fd := by
    rw [← (streams_settled h fd).1, heq, (streams_settled h' fd).1]
  echoed fd := by
    rw [← (streams_settled h fd).2, heq, (streams_settled h' fd).2]
  closings := by rw [← closings_settled h, heq, closings_settled]

/-- A connection more was closed: this shows. -/
theorem not_sameObserved_close {h h' : Trace} (heq : settled h = settled h')
    {c : Syscall} (hc : c.failed = true) (fd : Int) :
    ¬ SameObserved h (.close fd :: c :: h') := by
  intro hsame
  have hlaw := hsame.closings
  have hcall : settled (c :: h') = settled h := by rw [settled_cons_failed hc, heq]
  have hbefore : Transcript.closings (c :: h') = Transcript.closings h := by
    rw [← closings_settled (c :: h'), hcall, closings_settled]
  rw [show Transcript.closings (.close fd :: c :: h') = fd :: Transcript.closings (c :: h')
    from rfl, hbefore] at hlaw
  exact List.cons_ne_self fd _ hlaw.symm

/-- The runs with and without the insertions show the same at every point. -/
def Undisturbed {σ α : Type} (T : System σ (Action α)) (trace : σ → Trace) (s : σ)
    (es : List (Twin (Action α))) : Prop :=
  ∀ past, past <+: es → ∀ u v, T.Run s (Twin.plain past) u →
    T.Run s (Twin.disturbed past) v → SameObserved (trace u) (trace v)

/-- The insertions that both servers tolerate. -/
def Action.Quiet {α : Type} (a : Action α) : Prop := a.Transient ∧ ¬ a.Interrupted

/-- A quiet insertion is a call that would have blocked. -/
theorem Action.Quiet.cases {α : Type} {a : Action α} (h : a.Quiet) :
    ∃ i e, e.wouldBlock = true ∧ (a = .read i (.error e) ∨ a = .write i (.error e)) := by
  obtain ⟨htransient, hnot⟩ := h
  cases a with
  | accepted res => exact absurd htransient id
  | read i rd =>
      rcases rd with e | bytes
      · rcases htransient with hintr | hblock
        · exact absurd hintr hnot
        · exact ⟨i, e, hblock, .inl rfl⟩
      · exact absurd htransient id
  | write i wr =>
      rcases wr with e | n
      · rcases htransient with hintr | hblock
        · exact absurd hintr hnot
        · exact ⟨i, e, hblock, .inr rfl⟩
      · exact absurd htransient id
  | broken i => exact absurd htransient id

/-- An insertion that is not quiet is an interrupted call. -/
theorem Action.Transient.cases {α : Type} {a : Action α} (h : a.Transient)
    (hloud : ¬ a.Quiet) :
    ∃ i, a = .read i (.error .EINTR) ∨ a = .write i (.error .EINTR) := by
  have hintr : a.Interrupted := by
    by_contra hnot
    exact hloud ⟨h, hnot⟩
  cases a with
  | accepted res => exact absurd hintr id
  | read i rd =>
      rcases rd with e | bytes
      · exact ⟨i, .inl (congrArg (fun e => Action.read i (.error e)) hintr)⟩
      · exact absurd hintr id
  | write i wr =>
      rcases wr with e | n
      · exact ⟨i, .inr (congrArg (fun e => Action.write i (.error e)) hintr)⟩
      · exact absurd hintr id
  | broken i => exact absurd hintr id

/-- Where quiet insertions are tolerated and interrupted ones show, the absence of
the latter is the exact condition. -/
theorem undisturbed_iff {σ α : Type} {T : System σ (Action α)} {R : σ → σ → Prop}
    {trace : σ → Trace} (h : T.Tolerates R Action.Quiet)
    (hsame : ∀ s t, R s t → SameObserved (trace s) (trace t))
    (hloud : ∀ s t a t', R s t → a.Transient → ¬ a.Quiet → T.next t a t' →
      ¬ SameObserved (trace s) (trace t'))
    {s p q : σ} (hs : R s s) {es : List (Twin (Action α))}
    (hes : Twin.Inserts Action.Transient es) (hplain : T.Run s (Twin.plain es) p)
    (hdisturbed : T.Run s (Twin.disturbed es) q) :
    Undisturbed T trace s es ↔ Twin.Inserts (fun a => ¬ a.Interrupted) es := by
  have hiff := h.agree_iff (fun s t => SameObserved (trace s) (trace t)) hsame hloud hes hs
    hplain hdisturbed
  refine hiff.trans ⟨fun hquiet a ha => (hquiet a ha).2, fun hnot a ha => ?_⟩
  exact ⟨hes a ha, hnot a ha⟩

/-! ## The `poll` server -/

namespace PollServer

section Poll

variable {maxClients : Nat} {base : Finset Int} {listenFd : Int} {s t t' : State}

/-- Two servers that have done the same but for calls that failed. -/
abbrev Level (s t : State) : Prop := s.Alike (fun h h' => settled h = settled h') t

/-- A call that would block leaves the server as it was. -/
theorem quiet_level (h : Level s t) {a : Action Int} (ha : a.Quiet)
    (hnext : (actions maxClients base listenFd).next t a t') : Level s t' := by
  obtain ⟨hperforms, rfl, _⟩ := hnext
  obtain ⟨i, e, hblock, rfl | rfl⟩ := ha.cases
  · have hread : (readBranch (t.ready i POLLIN) (.error e)).2 =
        { t.ready i POLLIN with
          trace := .read (t.conns i).fd bufferSize (.error e) :: t.trace } := by
      have hguard : (t.ready i POLLIN).pfd.revents.pollin = true ∧
          (t.ready i POLLIN).conn.used = (t.ready i POLLIN).conn.sent := ⟨rfl, hperforms.2⟩
      rw [readBranch, if_pos hguard]
      simp only [hblock, if_true]
      rfl
    refine ⟨?_, ?_⟩
    · show s.conns = Function.update t.conns i (readBranch (t.ready i POLLIN) _).2.conn
      rw [hread, h.conns]
      exact (Function.update_eq_self i t.conns).symm
    · show settled s.trace = settled (readBranch (t.ready i POLLIN) _).2.trace
      rw [hread, settled_cons_failed rfl]
      exact h.trace
  · have hwrite : writeBranch (t.ready i POLLOUT) (.error e) =
        { t.ready i POLLOUT with
          trace := .write (t.conns i).fd (t.conns i).pending (.error e) :: t.trace } := by
      have hguard : (t.ready i POLLOUT).pfd.revents.pollout = true ∧
          (t.ready i POLLOUT).conn.sent < (t.ready i POLLOUT).conn.used := ⟨rfl, hperforms.2⟩
      rw [writeBranch, if_pos hguard]
      simp only [hblock, if_true]
      rfl
    refine ⟨?_, ?_⟩
    · show s.conns = Function.update t.conns i (writeBranch (t.ready i POLLOUT) _).conn
      rw [hwrite, h.conns]
      exact (Function.update_eq_self i t.conns).symm
    · show settled s.trace = settled (writeBranch (t.ready i POLLOUT) _).trace
      rw [hwrite, settled_cons_failed rfl]
      exact h.trace

/-- An interrupted call closes the connection. -/
theorem interrupted_shows (h : Level s t) {a : Action Int} (htransient : a.Transient)
    (hloud : ¬ a.Quiet) (hnext : (actions maxClients base listenFd).next t a t') :
    ¬ SameObserved s.trace t'.trace := by
  obtain ⟨hperforms, rfl, _⟩ := hnext
  obtain ⟨i, rfl | rfl⟩ := htransient.cases hloud
  · obtain ⟨hholds, hempty⟩ := hperforms
    have htrace : (perform maxClients base t (.read i (.error .EINTR))).trace =
        .close (t.conns i).fd ::
          .read (t.conns i).fd bufferSize (.error .EINTR) :: t.trace := by
      have hguard : (t.ready i POLLIN).pfd.revents.pollin = true ∧
          (t.ready i POLLIN).conn.used = (t.ready i POLLIN).conn.sent := ⟨rfl, hempty⟩
      show (readBranch (t.ready i POLLIN) (.error .EINTR)).2.trace = _
      rw [readBranch, if_pos hguard]
      exact if_pos hholds.fd
    rw [htrace]
    exact not_sameObserved_close h.trace rfl _
  · obtain ⟨hholds, hless⟩ := hperforms
    have htrace : (perform maxClients base t (.write i (.error .EINTR))).trace =
        .close (t.conns i).fd ::
          .write (t.conns i).fd (t.conns i).pending (.error .EINTR) :: t.trace := by
      have hguard : (t.ready i POLLOUT).pfd.revents.pollout = true ∧
          (t.ready i POLLOUT).conn.sent < (t.ready i POLLOUT).conn.used := ⟨rfl, hless⟩
      show (writeBranch (t.ready i POLLOUT) (.error .EINTR)).trace = _
      rw [writeBranch, if_pos hguard]
      exact if_pos hholds.fd
    rw [htrace]
    exact not_sameObserved_close h.trace rfl _

theorem tolerates : (actions maxClients base listenFd).Tolerates Level Action.Quiet where
  shared s t a s' t' h hs ht := by
    obtain ⟨_, rfl, _⟩ := hs
    obtain ⟨_, rfl, _⟩ := ht
    exact perform_alike maxClients (looksAlike_settled base) h a
  follow s t a s' h hs := by
    obtain ⟨t', ht, _⟩ := actions_follow (looksAlike_settled base) h hs
    exact ⟨t', ht⟩
  inserted s t a t' h ha ht := quiet_level h ha ht

end Poll

end PollServer

/-! ## The `epoll` server -/

namespace EpollServer

section Epoll

variable {maxClients : Nat} {base : Finset Int} {listenFd : Int} {s t t' : State}

/-- Two servers that have done the same but for calls that failed. -/
abbrev Level (s t : State) : Prop := s.Alike (fun h h' => settled h = settled h') t

/-- A call that would block leaves the server as it was. -/
theorem quiet_level (h : Level s t) {a : Action (Int × Option Errno)} (ha : a.Quiet)
    (hnext : (actions maxClients base listenFd).next t a t') : Level s t' := by
  obtain ⟨hperforms, rfl, _⟩ := hnext
  obtain ⟨i, e, hblock, rfl | rfl⟩ := ha.cases
  · have hread : (readBranch (t.slot i) EPOLLIN (.error e)).2 =
        (t.slot i).withRead (.error e) := by
      have hguard : EPOLLIN.epollin = true ∧
          (t.slot i).conn.used = (t.slot i).conn.sent := ⟨rfl, hperforms.2⟩
      rw [readBranch, if_pos hguard]
      simp only [hblock, if_true]
      rfl
    refine ⟨?_, ?_, ?_⟩
    · show s.conns = Function.update t.conns _ (readBranch (t.slot i) EPOLLIN _).2.conn
      rw [hread, h.conns]
      exact (Function.update_eq_self i t.conns).symm
    · show s.interest = (readBranch (t.slot i) EPOLLIN _).2.interest
      rw [hread]
      exact h.interest
    · show settled s.trace = settled (readBranch (t.slot i) EPOLLIN _).2.trace
      rw [hread, Slot.withRead, settled_cons_failed rfl]
      exact h.trace
  · have hwrite : (writeBranch (t.slot i) EPOLLOUT (.error e)).2 =
        (t.slot i).withWrite (.error e) := by
      have hguard : EPOLLOUT.epollout = true ∧
          (t.slot i).conn.sent < (t.slot i).conn.used := ⟨rfl, hperforms.2⟩
      rw [writeBranch, if_pos hguard]
      simp only [hblock, if_true]
      rfl
    refine ⟨?_, ?_, ?_⟩
    · show s.conns = Function.update t.conns _ (writeBranch (t.slot i) EPOLLOUT _).2.conn
      rw [hwrite, h.conns]
      exact (Function.update_eq_self i t.conns).symm
    · show s.interest = (writeBranch (t.slot i) EPOLLOUT _).2.interest
      rw [hwrite]
      exact h.interest
    · show settled s.trace = settled (writeBranch (t.slot i) EPOLLOUT _).2.trace
      rw [hwrite, Slot.withWrite, settled_cons_failed rfl]
      exact h.trace

/-- An interrupted call closes the connection. -/
theorem interrupted_shows (h : Level s t) {a : Action (Int × Option Errno)}
    (htransient : a.Transient) (hloud : ¬ a.Quiet)
    (hnext : (actions maxClients base listenFd).next t a t') :
    ¬ SameObserved s.trace t'.trace := by
  obtain ⟨hperforms, rfl, _⟩ := hnext
  obtain ⟨i, rfl | rfl⟩ := htransient.cases hloud
  · obtain ⟨hholds, hempty⟩ := hperforms
    have htrace : (perform maxClients base t (.read i (.error .EINTR))).trace =
        .close (t.conns i).fd ::
          .read (t.conns i).fd bufferSize (.error .EINTR) :: t.trace := by
      have hguard : EPOLLIN.epollin = true ∧
          (t.slot i).conn.used = (t.slot i).conn.sent := ⟨rfl, hempty⟩
      show (readBranch (t.slot i) EPOLLIN (.error .EINTR)).2.trace = _
      rw [readBranch, if_pos hguard]
      exact if_pos hholds.fd
    rw [htrace]
    exact not_sameObserved_close h.trace rfl _
  · obtain ⟨hholds, hless⟩ := hperforms
    have htrace : (perform maxClients base t (.write i (.error .EINTR))).trace =
        .close (t.conns i).fd ::
          .write (t.conns i).fd (t.conns i).pending (.error .EINTR) :: t.trace := by
      have hguard : EPOLLOUT.epollout = true ∧
          (t.slot i).conn.sent < (t.slot i).conn.used := ⟨rfl, hless⟩
      show (writeBranch (t.slot i) EPOLLOUT (.error .EINTR)).2.trace = _
      rw [writeBranch, if_pos hguard]
      exact if_pos hholds.fd
    rw [htrace]
    exact not_sameObserved_close h.trace rfl _

theorem tolerates : (actions maxClients base listenFd).Tolerates Level Action.Quiet where
  shared s t a s' t' h hs ht := by
    obtain ⟨_, rfl, _⟩ := hs
    obtain ⟨_, rfl, _⟩ := ht
    exact perform_alike maxClients (looksAlike_settled base) h a
  follow s t a s' h hs := by
    obtain ⟨t', ht, _⟩ := actions_follow (looksAlike_settled base) h hs
    exact ⟨t', ht⟩
  inserted s t a t' h ha ht := quiet_level h ha ht

end Epoll

end EpollServer

/-! ## Exactly the interrupted calls show -/

/-- Take a run of either server and insert reads and writes on ready connections
that fail with `EINTR`, `EAGAIN` or `EWOULDBLOCK`.  What is read from and written
to every connection, and the connections closed in their order, stay at every
point as they were exactly when no inserted call fails with `EINTR`; then the
disturbed server can also take every step the other one can. -/
theorem transient_iff (maxClients : Nat) (base : Finset Int) (listenFd : Int) :
    (∀ es p q, Twin.Inserts Action.Transient es →
      (PollServer.actions maxClients base listenFd).Run (PollServer.initial listenFd)
        (Twin.plain es) p →
      (PollServer.actions maxClients base listenFd).Run (PollServer.initial listenFd)
        (Twin.disturbed es) q →
      (Undisturbed (PollServer.actions maxClients base listenFd) PollServer.State.trace
        (PollServer.initial listenFd) es ↔ Twin.Inserts (fun a => ¬ a.Interrupted) es) ∧
      (Twin.Inserts (fun a => ¬ a.Interrupted) es → ∀ a p',
        (PollServer.actions maxClients base listenFd).next p a p' →
        ∃ q', (PollServer.actions maxClients base listenFd).next q a q')) ∧
    ∀ es p q, Twin.Inserts Action.Transient es →
      (EpollServer.actions maxClients base listenFd).Run (EpollServer.initial listenFd)
        (Twin.plain es) p →
      (EpollServer.actions maxClients base listenFd).Run (EpollServer.initial listenFd)
        (Twin.disturbed es) q →
      (Undisturbed (EpollServer.actions maxClients base listenFd) EpollServer.State.trace
        (EpollServer.initial listenFd) es ↔ Twin.Inserts (fun a => ¬ a.Interrupted) es) ∧
      (Twin.Inserts (fun a => ¬ a.Interrupted) es → ∀ a p',
        (EpollServer.actions maxClients base listenFd).next p a p' →
        ∃ q', (EpollServer.actions maxClients base listenFd).next q a q') := by
  refine ⟨fun es p q hes hp hq => ⟨?_, fun hnot a p' hnext => ?_⟩,
    fun es p q hes hp hq => ⟨?_, fun hnot a p' hnext => ?_⟩⟩
  · exact undisturbed_iff PollServer.tolerates (fun s t h => .of_settled h.trace)
      (fun s t a t' h ha hloud => PollServer.interrupted_shows h ha hloud) ⟨rfl, rfl⟩
      hes hp hq
  · have hquiet : Twin.Inserts Action.Quiet es := fun a ha => ⟨hes a ha, hnot a ha⟩
    exact PollServer.tolerates.follow _ _ _ _
      (PollServer.tolerates.run hquiet ⟨rfl, rfl⟩ hp hq) hnext
  · exact undisturbed_iff EpollServer.tolerates (fun s t h => .of_settled h.trace)
      (fun s t a t' h ha hloud => EpollServer.interrupted_shows h ha hloud)
      ⟨rfl, rfl, rfl⟩ hes hp hq
  · have hquiet : Twin.Inserts Action.Quiet es := fun a ha => ⟨hes a ha, hnot a ha⟩
    exact EpollServer.tolerates.follow _ _ _ _
      (EpollServer.tolerates.run hquiet ⟨rfl, rfl, rfl⟩ hp hq) hnext

/-- A client is accepted, sends a byte, and the write that is to echo it fails with
`e` where it did not fail before. -/
def failedWrite {α : Type} (res : α) (i : Nat) (e : Errno) : List (Twin (Action α)) :=
  [.shared (.accepted res), .shared (.read i (.ok [65])), .inserted (.write i (.error e))]

theorem failedWrite_inserts {α : Type} {P : Action α → Prop} {res : α} {i : Nat} {e : Errno}
    (h : P (.write i (.error e))) : Twin.Inserts P (failedWrite res i e) := by
  intro a ha
  simp only [failedWrite, List.mem_cons, reduceCtorEq, Twin.inserted.injEq, false_or,
    List.not_mem_nil, or_false] at ha
  exact ha ▸ h

/-- Where a list of actions leads the `poll` server. -/
def PollServer.after (as : List (Action Int)) : PollServer.State :=
  as.foldl (PollServer.perform 1 {3}) (PollServer.initial 3)

/-- Where it leads the `epoll` server. -/
def EpollServer.after (as : List (Action (Int × Option Errno))) : EpollServer.State :=
  as.foldl (EpollServer.perform 1 {3}) (EpollServer.initial 3)

theorem PollServer.failedWrite_runs {e : Errno}
    (hk : KernelOk {3} (after (Twin.disturbed (failedWrite 4 1 e))).trace) :
    (actions 1 {3} 3).Run (initial 3) (Twin.plain (failedWrite 4 1 e))
        (after (Twin.plain (failedWrite 4 1 e))) ∧
      (actions 1 {3} 3).Run (initial 3) (Twin.disturbed (failedWrite 4 1 e))
        (after (Twin.disturbed (failedWrite 4 1 e))) := by
  have haccept : (actions 1 {3} 3).next (initial 3) (.accepted 4) (after [.accepted 4]) :=
    ⟨trivial, rfl, by decide⟩
  have hread : (actions 1 {3} 3).next (after [.accepted 4]) (.read 1 (.ok [65]))
      (after [.accepted 4, .read 1 (.ok [65])]) :=
    ⟨⟨⟨by decide, by decide, by decide⟩, by decide⟩, rfl, by decide⟩
  have hwrite : (actions 1 {3} 3).next (after [.accepted 4, .read 1 (.ok [65])])
      (.write 1 (.error e)) (after (Twin.disturbed (failedWrite 4 1 e))) :=
    ⟨⟨⟨by decide, by decide, by decide⟩, by decide⟩, rfl, hk⟩
  exact ⟨.cons haccept (.cons hread (.nil _)),
    .cons haccept (.cons hread (.cons hwrite (.nil _)))⟩

theorem EpollServer.failedWrite_runs {e : Errno}
    (hk : KernelOk {3} (after (Twin.disturbed (failedWrite (4, none) 0 e))).trace) :
    (actions 1 {3} 3).Run (initial 3) (Twin.plain (failedWrite (4, none) 0 e))
        (after (Twin.plain (failedWrite (4, none) 0 e))) ∧
      (actions 1 {3} 3).Run (initial 3) (Twin.disturbed (failedWrite (4, none) 0 e))
        (after (Twin.disturbed (failedWrite (4, none) 0 e))) := by
  have haccept : (actions 1 {3} 3).next (initial 3) (.accepted (4, none))
      (after [.accepted (4, none)]) :=
    ⟨trivial, rfl, by decide⟩
  have hread : (actions 1 {3} 3).next (after [.accepted (4, none)]) (.read 0 (.ok [65]))
      (after [.accepted (4, none), .read 0 (.ok [65])]) :=
    ⟨⟨⟨by decide, by decide, by decide⟩, by decide⟩, rfl, by decide⟩
  have hwrite : (actions 1 {3} 3).next (after [.accepted (4, none), .read 0 (.ok [65])])
      (.write 0 (.error e)) (after (Twin.disturbed (failedWrite (4, none) 0 e))) :=
    ⟨⟨⟨by decide, by decide, by decide⟩, by decide⟩, rfl, hk⟩
  exact ⟨.cons haccept (.cons hread (.nil _)),
    .cons haccept (.cons hread (.cons hwrite (.nil _)))⟩

/-- An inserted write that fails with `EAGAIN` does not show. -/
theorem transient_iff_blocked :
    Undisturbed (PollServer.actions 1 {3} 3) PollServer.State.trace (PollServer.initial 3)
        (failedWrite 4 1 .EAGAIN) ∧
      Undisturbed (EpollServer.actions 1 {3} 3) EpollServer.State.trace
        (EpollServer.initial 3) (failedWrite (4, none) 0 .EAGAIN) := by
  obtain ⟨hpoll, hepoll⟩ := transient_iff 1 {3} 3
  obtain ⟨hp, hp'⟩ := PollServer.failedWrite_runs (e := .EAGAIN) (by decide)
  obtain ⟨he, he'⟩ := EpollServer.failedWrite_runs (e := .EAGAIN) (by decide)
  constructor
  · exact (hpoll _ _ _ (failedWrite_inserts (.inr rfl)) hp hp').1.mpr
      (failedWrite_inserts (fun h => by cases h))
  · exact (hepoll _ _ _ (failedWrite_inserts (.inr rfl)) he he').1.mpr
      (failedWrite_inserts (fun h => by cases h))

/-- One that fails with `EINTR` loses the client in both servers, its byte not
echoed. -/
theorem interrupted_write_closes :
    (¬ ∀ es p q, Twin.Inserts Action.Transient es →
      (PollServer.actions 1 {3} 3).Run (PollServer.initial 3) (Twin.plain es) p →
      (PollServer.actions 1 {3} 3).Run (PollServer.initial 3) (Twin.disturbed es) q →
      SameObserved p.trace q.trace) ∧
    ¬ ∀ es p q, Twin.Inserts Action.Transient es →
      (EpollServer.actions 1 {3} 3).Run (EpollServer.initial 3) (Twin.plain es) p →
      (EpollServer.actions 1 {3} 3).Run (EpollServer.initial 3) (Twin.disturbed es) q →
      SameObserved p.trace q.trace := by
  constructor
  · intro hlaw
    obtain ⟨hp, hp'⟩ := PollServer.failedWrite_runs (e := .EINTR) (by decide)
    have hclosings := (hlaw _ _ _ (failedWrite_inserts (.inl rfl)) hp hp').closings
    exact absurd hclosings (by decide)
  · intro hlaw
    obtain ⟨he, he'⟩ := EpollServer.failedWrite_runs (e := .EINTR) (by decide)
    have hclosings := (hlaw _ _ _ (failedWrite_inserts (.inl rfl)) he he').closings
    exact absurd hclosings (by decide)

end SysLab.PartB
