import Mathlib.Data.Fintype.EquivFin
import SysLab.PartB.IoUringOwnership

/-!
# The completion queue of the `io_uring` server

Every connection has one operation outstanding, and the listener one.  The
queue's room is given back a whole batch at a time, so what is outstanding or
unreleased is counted by the connections and by the completions the current
batch has handled.  While that many entries fit, nothing overflows; nothing in
the source compares the two numbers, and a crowd of clients exceeds any ring.
-/

namespace SysLab.PartB.IoUringServer

open SysLab.Foundation
open SysLab.Foundation.Transcript

/-! ## Counting -/

/-- Completions in the ring that `cq_head` does not release yet. -/
def State.unreleased (s : State) : Nat := s.cq.length + s.handled

/-- Requests whose completion is not in the ring. -/
def State.outstanding (s : State) : Nat := s.inflight.length + s.overflow.length

/-- Connection objects allocated. -/
def State.live (s : State) : Nat := (openKeys ∅ s.connLog).card

/-- What a partial function does not map is what satisfies `p`. -/
theorem card_filterMap_add {α β : Type*} {f : α → Option β} {p : α → Prop}
    [DecidablePred p] {m : Multiset α} (h : ∀ a ∈ m, p a ↔ f a = none) :
    (m.filterMap f).card + m.countP p = m.card := by
  induction m using Multiset.induction_on with
  | empty => rfl
  | cons a m ih =>
      have hrec := ih fun x hx => h x (Multiset.mem_cons_of_mem hx)
      have ha := h a (Multiset.mem_cons_self a m)
      rw [filterMap_cons_toList, Multiset.card_add, Multiset.countP_cons,
        Multiset.card_cons, ← hrec]
      by_cases hpa : p a
      · simp [ha.mp hpa, hpa]
        omega
      · obtain ⟨b, hb⟩ := Option.ne_none_iff_exists'.mp (mt ha.mpr hpa)
        simp [hb, hpa]
        omega

section Counting

variable {base : Finset Int} {s : State}

/-- One operation for the listener, and one for each connection. -/
theorem Inv.card_ops (h : Inv base s) : s.ops.card = 1 + s.live := by
  have hmapped : ∀ op ∈ s.ops, op.opcode = .accept ↔ op.addr = none := by
    intro op hop
    have hback := h.backed op hop
    constructor
    · exact hback.accept
    · intro hnone
      by_contra hclient
      obtain ⟨c, k, haddr, _⟩ := hback.client hclient
      rw [haddr] at hnone
      cases hnone
  have hsplit := card_filterMap_add hmapped
  have hconns := congrArg Multiset.card h.conns
  rw [zero_add] at hconns
  have hacceptor := h.acceptor
  have hlive : s.live = (openKeys ∅ s.connLog).val.card := rfl
  omega

/-- Unreleased and outstanding together: one for the listener, one for each
connection, and one for each completion handled since the last release. -/
theorem Inv.accounted (h : Inv base s) :
    s.unreleased + s.outstanding = 1 + s.live + s.handled := by
  have hcard := h.card_ops
  rw [State.ops, State.queued, Multiset.card_add, Multiset.card_map,
    Multiset.card_add, Multiset.coe_card, Multiset.coe_card,
    Multiset.coe_card] at hcard
  rw [State.unreleased, State.outstanding]
  omega

end Counting

/-! ## What a step does to the ring -/

/-- The two states agree on the ring and the overflow list. -/
structure SameQueue (s t : State) : Prop where
  cq : t.cq = s.cq
  handled : t.handled = s.handled
  overflow : t.overflow = s.overflow

section Steps

variable {s t : State} {listenFd : Int} {cqe : Cqe} {calloc : Option Nat}
  {enter : Option Errno}

/-- Handling a completion posts none. -/
theorem Handled.sameQueue (h : Handled listenFd s cqe calloc enter (.ok t)) :
    SameQueue s t := by
  cases h with
  | accept op _ _ _ _ => exact ⟨rfl, rfl, rfl⟩
  | closed c k _ _ _ _ hpos _ =>
      rw [closeConnection, if_pos hpos]
      exact ⟨rfl, rfl, rfl⟩
  | received c k op _ _ _ _ _ _ _ _ _ _ => exact ⟨rfl, rfl, rfl⟩
  | sent c k op _ _ _ _ _ _ _ _ _ _ => exact ⟨rfl, rfl, rfl⟩

theorem Connected.sameQueue {req : Nat} {result : Int} {callocConn : Option Nat}
    (h : Connected s req result callocConn calloc enter (.ok t)) :
    SameQueue s t := by
  cases h with
  | nobody _ => exact ⟨rfl, rfl, rfl⟩
  | refused _ _ => exact ⟨rfl, rfl, rfl⟩
  | connected c op _ _ _ _ _ _ => exact ⟨rfl, rfl, rfl⟩

theorem Performed.sameQueue {op : Sqe} {out : Outcome} {res : Int}
    (h : Performed s op out (t, res)) : SameQueue s t := by
  cases h with
  | opened fd _ _ => exact ⟨rfl, rfl, rfl⟩
  | declined e _ _ => exact ⟨rfl, rfl, rfl⟩
  | read c k bytes _ _ _ _ _ => exact ⟨rfl, rfl, rfl⟩
  | readFailed e _ _ => exact ⟨rfl, rfl, rfl⟩
  | wrote c k n _ _ _ _ _ => exact ⟨rfl, rfl, rfl⟩
  | writeFailed c k e _ _ _ _ _ => exact ⟨rfl, rfl, rfl⟩

end Steps

/-! ## While everything fits -/

/-- `io_uring_enter` refused a submission. -/
def State.Refused (s : State) : Prop :=
  s.halt = some (.die ⟨"io_uring_enter submit", .EBUSY⟩)

/-- The ring has an entry for the listener, for every connection and for every
completion handled since the last release. -/
def Fits (cqEntries : Nat) (s : State) (_ : Event) : Prop :=
  1 + s.live + s.handled ≤ cqEntries

instance (cqEntries : Nat) (s : State) (e : Event) :
    Decidable (Fits cqEntries s e) := inferInstanceAs (Decidable (_ ≤ _))

/-- Nothing overflowed, and nothing was refused. -/
def Calm (s : State) : Prop := s.overflow = [] ∧ ¬ s.Refused

section Calm

variable {base : Finset Int} {s t : State} {cqEntries : Nat} {listenFd : Int}
  {e : Event}

/-- A completion is posted to the ring only where there is room. -/
theorem post_unreleased (h : s.unreleased ≤ cqEntries) (cqe : Cqe) :
    (post cqEntries s cqe).unreleased ≤ cqEntries := by
  unfold post
  split
  · rename_i hroom
    have hlt := hroom.1
    simp only [State.unreleased, List.length_append, List.length_singleton]
    omega
  · exact h

theorem SameQueue.unreleased (h : SameQueue s t) :
    t.unreleased = s.unreleased := by
  rw [State.unreleased, State.unreleased, h.cq, h.handled]

/-- The ring never holds more than it has entries. -/
theorem step_unreleased (hinv : Inv base s) (h : s.unreleased ≤ cqEntries)
    (hstep : step cqEntries listenFd s e = some t) : t.unreleased ≤ cqEntries := by
  cases (step_stepped hinv hstep).2 with
  | completed n out op u res _ _ hperformed =>
      apply post_unreleased
      rw [hperformed.sameQueue.unreleased]
      exact h
  | flushed cqe rest _ hroom =>
      simp only [State.unreleased, List.length_append, List.length_singleton]
      omega
  | waited enter _ _ =>
      rcases enter with _ | errno
      · exact h
      · exact h
  | entered _ _ => exact h
  | published _ hcq =>
      simp [State.unreleased, hcq]
  | handled cqe rest calloc enter out _ hcq hhandled =>
      rcases out with halt | u
      · exact h
      · have hpop : (s.popCqe rest).unreleased = s.unreleased := by
          simp only [State.unreleased, State.popCqe, hcq, List.length_cons]
          omega
        show u.unreleased ≤ cqEntries
        rw [hhandled.sameQueue.unreleased, hpop]
        exact h
  | connected req result callocConn calloc enter out _ hconnected =>
      rcases out with halt | u
      · exact h
      · show u.unreleased ≤ cqEntries
        rw [hconnected.sameQueue.unreleased]
        exact h

/-- A submission that fails although nothing has overflowed was not refused. -/
theorem not_refused {calloc : Option Nat} {enter : Option Errno} {why : Exit}
    (hwhy : (calloc = none ∧ why = ⟨"calloc", .ENOMEM⟩) ∨
      ∃ e, enter = some e ∧ why = ⟨"io_uring_enter submit", e⟩)
    (hbusy : enter ≠ some .EBUSY) :
    ¬ ({ s with halt := some (.die why) } : State).Refused := by
  intro hrefused
  have hexit : why = ⟨"io_uring_enter submit", .EBUSY⟩ := by
    have heq := Option.some.inj hrefused
    injection heq
  rcases hwhy with ⟨_, rfl⟩ | ⟨e, henter, rfl⟩
  · exact absurd (congrArg Exit.message hexit) (by decide)
  · injection hexit with _ herrno
    rw [herrno] at henter
    exact hbusy henter

theorem not_refused_of_running (h : s.halt = none) : ¬ s.Refused := by
  intro hrefused
  rw [State.Refused, h] at hrefused
  cases hrefused

/-- Where everything fits an operation in flight finds room for its
completion. -/
theorem hasRoom_of_fits (hinv : Inv base s) (hoverflow : s.overflow = [])
    (hfits : Fits cqEntries s e) (hpos : 0 < s.inflight.length) :
    s.hasRoom cqEntries := by
  have haccounted := hinv.accounted
  rw [State.unreleased, State.outstanding, hoverflow, List.length_nil]
    at haccounted
  rw [Fits] at hfits
  constructor
  · show s.cq.length + s.handled < cqEntries
    omega
  · exact hoverflow

/-- Where everything fits a step overflows nothing and is not refused. -/
theorem step_calm (hinv : Inv base s) (h : Calm s) (hfits : Fits cqEntries s e)
    (hstep : step cqEntries listenFd s e = some t) (hans : Answer s e) :
    Calm t := by
  obtain ⟨hhalt, hstepped⟩ := step_stepped hinv hstep
  obtain ⟨hoverflow, hrefused⟩ := h
  cases hstepped with
  | completed n out op u res hn _ hperformed =>
      have hpos : 0 < s.inflight.length :=
        List.length_pos_of_mem (List.mem_of_getElem? hn)
      obtain ⟨hless, _⟩ := hasRoom_of_fits hinv hoverflow hfits hpos
      have hsame := hperformed.sameQueue
      have hroom : u.hasRoom cqEntries := by
        refine ⟨?_, hsame.overflow.trans hoverflow⟩
        rw [hsame.cq, hsame.handled]
        exact hless
      rw [post, if_pos hroom]
      exact ⟨hroom.2, not_refused_of_running (hperformed.halt.trans hhalt)⟩
  | flushed cqe rest hcons _ =>
      rw [hoverflow] at hcons
      cases hcons
  | waited enter _ _ =>
      rcases enter with _ | errno
      · exact ⟨hoverflow, hrefused⟩
      · refine ⟨hoverflow, ?_⟩
        intro hbusy
        have heq := Option.some.inj hbusy
        injection heq with hexit
        injection hexit with hmessage
        exact absurd hmessage (by decide)
  | entered _ _ => exact ⟨hoverflow, hrefused⟩
  | published _ _ => exact ⟨hoverflow, hrefused⟩
  | handled cqe rest calloc enter out _ hcq hhandled =>
      rcases out with halt | u
      · refine ⟨hoverflow, ?_⟩
        cases hhandled with
        | failed why hwhy =>
            exact not_refused hwhy (fun hbusy => hans.2 hbusy hoverflow)
      · exact ⟨hhandled.sameQueue.overflow.trans hoverflow,
          not_refused_of_running (hhandled.halt.trans hhalt)⟩
  | connected req result callocConn calloc enter out _ hconnected =>
      rcases out with halt | u
      · refine ⟨hoverflow, ?_⟩
        cases hconnected with
        | failed why hwhy =>
            exact not_refused hwhy (fun hbusy => hans.2.2 hbusy hoverflow)
      · exact ⟨hconnected.sameQueue.overflow.trans hoverflow,
          not_refused_of_running (hconnected.halt.trans hhalt)⟩

end Calm

theorem reachable_unreleased {cqEntries : Nat} {base : Finset Int}
    {listenFd : Int} {s : State}
    (hs : (system cqEntries base listenFd).Reachable s) :
    s.unreleased ≤ cqEntries := by
  apply hs.induct
  · rintro s ⟨a, ha⟩
    obtain ⟨op, _, _, _, _, _, rfl⟩ := request_ok (fun _ => rfl) ha
    exact Nat.zero_le cqEntries
  · rintro s e t hreach h ⟨hstep, _, _⟩
    exact step_unreleased (reachable_inv hreach) h hstep

/-! ## A crowd -/

/-- The loop waits and nothing is queued. -/
structure Idle (s : State) : Prop where
  halt : s.halt = none
  pc : s.pc = .outer
  cq : s.cq = []
  overflow : s.overflow = []
  handled : s.handled = 0

section Crowd

variable {cqEntries : Nat} {base : Finset Int} {listenFd : Int} {s : State}

theorem reachable_kernelOk
    (hs : (system cqEntries base listenFd).Reachable s) : KernelOk base s.trace := by
  cases hs with
  | start hinit =>
      obtain ⟨a, ha⟩ := hinit
      obtain ⟨op, _, _, _, _, _, rfl⟩ := request_ok (fun _ => rfl) ha
      trivial
  | step _ hnext => exact hnext.2.1

/-- The `ACCEPT` of an idle server is in flight. -/
theorem Idle.acceptor (h : Idle s) (hinv : Inv base s) :
    ∃ (n : Nat) (op : Sqe), s.inflight[n]? = some op ∧ op.opcode = .accept := by
  have hacceptor := hinv.acceptor
  rw [zero_add, State.ops, State.queued, h.cq, h.overflow] at hacceptor
  have hpos : 0 < (s.inflight : Multiset Sqe).countP
      (fun op : Sqe => op.opcode = .accept) := by
    simpa using hacceptor.symm.le
  obtain ⟨op, hop, hopcode⟩ := Multiset.countP_pos.mp hpos
  obtain ⟨n, hn⟩ := List.mem_iff_getElem?.mp hop
  exact ⟨n, op, hn, hopcode⟩

/-- The first submission of the `OP_ACCEPT` branch can go through. -/
theorem exists_handle (hs : (system cqEntries base listenFd).Reachable s)
    (hhalt : s.halt = none) (hpc : s.pc = .inner) {cqe : Cqe} {rest : List Cqe}
    (hcq : s.cq = cqe :: rest) (hopcode : cqe.op.opcode = .accept) :
    ∃ t, (system cqEntries base listenFd).Reachable t ∧ t.halt = none ∧
      t.pc = .accepted cqe.op.userData cqe.res ∧ SameQueue (s.popCqe rest) t ∧
      t.live = s.live := by
  obtain ⟨a, ha⟩ := Infinite.exists_notMem_finset (openKeys ∅ s.requestLog)
  have hk : KernelOk base s.trace := reachable_kernelOk hs
  obtain ⟨t, hstep⟩ : ∃ t,
      step cqEntries listenFd s (.handle (some a) none) = some t := by
    simp [step, running, hhalt, hpc, hcq]
  have hfresh : FreshIn s.requestLog (some a) := by
    simpa [FreshIn] using ha
  have hans : Answer s (.handle (some a) none) := ⟨hfresh, by simp⟩
  cases (step_stepped (reachable_inv hs) hstep).2 with
  | handled cqe' rest' _ _ out _ hcq' hhandled =>
      rw [hcq] at hcq'
      cases hcq'
      cases hhandled with
      | failed why hwhy => simp at hwhy
      | accept op _ _ _ _ =>
          exact ⟨_, hs.step ⟨hstep, hk, hans⟩, hhalt, rfl, ⟨rfl, rfl, rfl⟩, rfl⟩
      | closed c k hclient _ _ _ _ _ => exact absurd hopcode hclient
      | received c k op hrecv _ _ _ _ _ _ _ _ _ =>
          rw [hopcode] at hrecv
          cases hrecv
      | sent c k op hsend _ _ _ _ _ _ _ _ _ =>
          rw [hopcode] at hsend
          cases hsend

/-- So can the rest of the branch. -/
theorem exists_connect (hs : (system cqEntries base listenFd).Reachable s)
    (hhalt : s.halt = none) {req : Nat} {result : Int}
    (hpc : s.pc = .accepted req result) (hres : 0 ≤ result) :
    ∃ t, (system cqEntries base listenFd).Reachable t ∧ t.halt = none ∧
      t.pc = .inner ∧ SameQueue s t ∧ t.live = s.live + 1 := by
  obtain ⟨a, ha⟩ := Infinite.exists_notMem_finset (openKeys ∅ s.requestLog)
  obtain ⟨c, hc⟩ := Infinite.exists_notMem_finset (openKeys ∅ s.connLog)
  have hk : KernelOk base s.trace := reachable_kernelOk hs
  obtain ⟨t, hstep⟩ : ∃ t,
      step cqEntries listenFd s (.connect (some c) (some a) none) = some t := by
    simp [step, running, hhalt, hpc]
  have hans : Answer s (.connect (some c) (some a) none) := by
    refine ⟨?_, ?_, by simp⟩
    · simpa [FreshIn] using hc
    · simpa [FreshIn] using ha
  cases (step_stepped (reachable_inv hs) hstep).2 with
  | connected req' result' _ _ _ out hpc' hconnected =>
      rw [hpc] at hpc'
      cases hpc'
      cases hconnected with
      | failed why hwhy => simp at hwhy
      | nobody hneg => omega
      | refused _ hnone => cases hnone
      | connected c' op _ hc' _ _ _ _ =>
          cases hc'
          refine ⟨_, hs.step ⟨hstep, hk, hans⟩, hhalt, rfl, ⟨rfl, rfl, rfl⟩, ?_⟩
          exact Finset.card_insert_of_notMem hc

/-- An `accept` completes into a ring with room. -/
theorem reachable_accepted (hs : (system cqEntries base listenFd).Reachable s)
    (hhalt : s.halt = none) {n : Nat} {op : Sqe} (hn : s.inflight[n]? = some op)
    (hopcode : op.opcode = .accept) {fd : Nat}
    (hfd : (fd : Int) ∉ openKeys base s.trace) (hroom : s.hasRoom cqEntries) :
    (system cqEntries base listenFd).Reachable
      { (s.takeUp n).called (.accept fd) with
        cq := s.cq ++ [⟨op.userData, fd, op⟩] } := by
  have hstep : step cqEntries listenFd s (.complete n (.accept (.ok fd))) =
      some { (s.takeUp n).called (.accept fd) with
        cq := s.cq ++ [⟨op.userData, fd, op⟩] } := by
    have hroom' : ((s.takeUp n).called (.accept fd)).hasRoom cqEntries := hroom
    simp only [step, if_pos hhalt, running, complete, hn, perform, if_pos hopcode,
      post, if_pos hroom']
    rfl
  have hk : KernelOk base s.trace := reachable_kernelOk hs
  exact hs.step ⟨hstep, ⟨⟨Int.natCast_nonneg fd, hfd⟩, hk⟩, trivial⟩

/-- The loop enters a batch. -/
theorem reachable_entered (hs : (system cqEntries base listenFd).Reachable s)
    (hhalt : s.halt = none) (hpc : s.pc = .outer) (hcq : s.cq ≠ []) :
    (system cqEntries base listenFd).Reachable { s with pc := .inner } := by
  have hk : KernelOk base s.trace := reachable_kernelOk hs
  obtain ⟨cqe, rest, hcons⟩ := List.exists_cons_of_ne_nil hcq
  exact hs.step (e := .turn)
    ⟨by simp [step, running, hhalt, hpc, hcons], hk, trivial⟩

/-- The loop publishes `cq_head`. -/
theorem reachable_published (hs : (system cqEntries base listenFd).Reachable s)
    (hhalt : s.halt = none) (hpc : s.pc = .inner) (hcq : s.cq = []) :
    (system cqEntries base listenFd).Reachable
      { s with pc := .outer, handled := 0 } := by
  have hk : KernelOk base s.trace := reachable_kernelOk hs
  exact hs.step (e := .turn)
    ⟨by simp [step, running, hhalt, hpc, hcq], hk, trivial⟩

/-- One more client connects. -/
theorem Idle.join (h : Idle s) (hpos : 0 < cqEntries)
    (hs : (system cqEntries base listenFd).Reachable s) :
    ∃ t, (system cqEntries base listenFd).Reachable t ∧ Idle t ∧
      t.live = s.live + 1 := by
  obtain ⟨n, op, hn, hopcode⟩ := h.acceptor (reachable_inv hs)
  obtain ⟨fd, hfd⟩ := exists_fd (openKeys base s.trace)
  have hroom : s.hasRoom cqEntries := by
    refine ⟨?_, h.overflow⟩
    rw [h.cq, h.handled]
    exact hpos
  have h₁ := reachable_accepted hs h.halt hn hopcode hfd hroom
  -- the loop enters the batch, handles the completion and finds no other
  have h₂ := reachable_entered h₁ h.halt h.pc (by simp)
  obtain ⟨s₃, h₃, hhalt₃, hpc₃, hqueue₃, hlive₃⟩ := exists_handle h₂ h.halt rfl
    (by rw [h.cq]; rfl) hopcode
  obtain ⟨s₄, h₄, hhalt₄, hpc₄, hqueue₄, hlive₄⟩ := exists_connect h₃ hhalt₃ hpc₃
    (Int.natCast_nonneg fd)
  have hcq₄ : s₄.cq = [] := hqueue₄.cq.trans hqueue₃.cq
  refine ⟨_, reachable_published h₄ hhalt₄ hpc₄ hcq₄, ⟨hhalt₄, rfl, hcq₄, ?_, rfl⟩, ?_⟩
  · exact (hqueue₄.overflow.trans hqueue₃.overflow).trans h.overflow
  · exact hlive₄.trans (congrArg (· + 1) hlive₃)

/-- Any number of clients can be connected at once. -/
theorem exists_crowd (hpos : 0 < cqEntries) (clients : Nat) :
    ∃ s, (system cqEntries base listenFd).Reachable s ∧ Idle s ∧
      s.live = clients := by
  induction clients with
  | zero =>
      exact ⟨_, .start (started_init cqEntries base listenFd 0),
        ⟨rfl, rfl, rfl, rfl, rfl⟩, rfl⟩
  | succ n ih =>
      obtain ⟨s, hs, hidle, hlive⟩ := ih
      obtain ⟨t, ht, hidle', hlive'⟩ := hidle.join hpos hs
      exact ⟨t, ht, hidle', by rw [hlive', hlive]⟩

/-- Posting adds to the ring or leaves it. -/
theorem post_extends (cqEntries : Nat) (s : State) (cqe : Cqe) :
    (post cqEntries s cqe).handled = s.handled ∧
      s.cq <+: (post cqEntries s cqe).cq := by
  unfold post
  split
  · exact ⟨rfl, List.prefix_append _ _⟩
  · exact ⟨rfl, List.prefix_refl _⟩

/-- Every operation can fail. -/
theorem exists_failure (base : Finset Int) (s : State) (op : Sqe) : ∃ out u,
    perform s op out = some (u, failed) ∧ u.halt = s.halt ∧ u.pc = s.pc ∧
      SameQueue s u ∧ u.inflight = s.inflight ∧ u.connLog = s.connLog ∧
      (KernelOk base s.trace → KernelOk base u.trace) := by
  rcases hopcode : op.opcode with _ | _ | _
  · exact ⟨.accept (.error .ECONNABORTED), s, by simp [perform, hopcode], rfl, rfl,
      ⟨rfl, rfl, rfl⟩, rfl, rfl, id⟩
  · exact ⟨.recv (.error .EBADF), s.called (.read op.fd op.len (.error .EBADF)),
      by simp [perform, hopcode], rfl, rfl, ⟨rfl, rfl, rfl⟩, rfl, rfl,
      fun hk => ⟨trivial, hk⟩⟩
  · obtain ⟨chunk, hperform⟩ : ∃ chunk, perform s op (.send (.error .EBADF)) =
        some (s.called (.write op.fd chunk (.error .EBADF)), failed) := by
      rcases hclient : op.addr.bind s.conns with _ | k
      · exact ⟨[], by simp [perform, hopcode, hclient]⟩
      · exact ⟨k.buffer.window 0 op.len, by simp [perform, hopcode, hclient]⟩
    exact ⟨_, _, hperform, rfl, rfl, ⟨rfl, rfl, rfl⟩, rfl, rfl,
      fun hk => ⟨trivial, hk⟩⟩

/-- The kernel completes everything that is in flight. -/
theorem exists_drained {flights : Nat} : ∀ {s : State},
    (system cqEntries base listenFd).Reachable s → s.halt = none →
    s.inflight.length = flights →
    ∃ t, (system cqEntries base listenFd).Reachable t ∧ t.halt = none ∧
      t.pc = s.pc ∧ t.inflight = [] ∧ t.handled = s.handled ∧ t.live = s.live ∧
      s.cq <+: t.cq := by
  induction flights with
  | zero =>
      intro s hs hhalt hlength
      exact ⟨s, hs, hhalt, rfl, List.length_eq_zero_iff.mp hlength, rfl, rfl,
        List.prefix_refl _⟩
  | succ flights ih =>
      intro s hs hhalt hlength
      obtain ⟨op, rest, hcons⟩ := List.exists_cons_of_length_eq_add_one hlength
      obtain ⟨out, u, hperform, huhalt, hupc, hsame, hinflight, hlog, hkernel⟩ :=
        exists_failure base (s.takeUp 0) op
      have hstep : step cqEntries listenFd s (.complete 0 out) =
          some (post cqEntries u ⟨op.userData, failed, op⟩) := by
        simp [step, running, complete, hhalt, hcons, hperform]
      obtain ⟨hphalt, hppc, hpsame, hpinflight⟩ :=
        post_same cqEntries u ⟨op.userData, failed, op⟩
      have hk : KernelOk base
          (post cqEntries u ⟨op.userData, failed, op⟩).trace := by
        rw [hpsame.trace]
        have hs' : KernelOk base s.trace := reachable_kernelOk hs
        exact hkernel hs'
      obtain ⟨t, ht, hthalt, htpc, htinflight, hthandled, htlive, htcq⟩ :=
        ih (hs.step ⟨hstep, hk, trivial⟩) (hphalt.trans (huhalt.trans hhalt)) (by
          rw [hpinflight, hinflight]
          simp [State.takeUp, hcons] at hlength ⊢
          exact hlength)
      obtain ⟨hqhandled, hqcq⟩ := post_extends cqEntries u ⟨op.userData, failed, op⟩
      refine ⟨t, ht, hthalt, htpc.trans (hppc.trans hupc), htinflight,
        hthandled.trans (hqhandled.trans hsame.handled), ?_, ?_⟩
      · have hlive : (post cqEntries u ⟨op.userData, failed, op⟩).live = s.live := by
          rw [State.live, hpsame.connLog, hlog]
          rfl
        exact htlive.trans hlive
      · have hcq : s.cq <+: (post cqEntries u ⟨op.userData, failed, op⟩).cq := by
          have hcqu : u.cq = s.cq := hsame.cq
          rw [← hcqu]
          exact hqcq
        exact hcq.trans htcq

/-- With overflowed completions a submission of the `OP_ACCEPT` branch can be
refused. -/
theorem exists_refused (hs : (system cqEntries base listenFd).Reachable s)
    (hhalt : s.halt = none) (hpc : s.pc = .inner) {cqe : Cqe} {rest : List Cqe}
    (hcq : s.cq = cqe :: rest) (hopcode : cqe.op.opcode = .accept)
    (hoverflow : s.overflow ≠ []) :
    ∃ t, (system cqEntries base listenFd).Reachable t ∧ t.overflow ≠ [] ∧
      t.Refused := by
  obtain ⟨a, ha⟩ := Infinite.exists_notMem_finset (openKeys ∅ s.requestLog)
  have hk : KernelOk base s.trace := reachable_kernelOk hs
  obtain ⟨t, hstep⟩ : ∃ t,
      step cqEntries listenFd s (.handle (some a) (some .EBUSY)) = some t := by
    simp [step, running, hhalt, hpc, hcq]
  have hans : Answer s (.handle (some a) (some .EBUSY)) := by
    refine ⟨?_, fun _ => hoverflow⟩
    simpa [FreshIn] using ha
  cases (step_stepped (reachable_inv hs) hstep).2 with
  | handled cqe' rest' _ _ out _ hcq' hhandled =>
      rw [hcq] at hcq'
      cases hcq'
      cases hhandled with
      | failed why hwhy =>
          rcases hwhy with ⟨hnone, _⟩ | ⟨e, henter, rfl⟩
          · cases hnone
          · cases henter
            exact ⟨_, hs.step ⟨hstep, hk, hans⟩, hoverflow, rfl⟩
      | accept op _ _ henter _ => cases henter
      | closed c k hclient _ _ _ _ _ => exact absurd hopcode hclient
      | received c k op _ _ _ _ _ _ _ henter _ _ => cases henter
      | sent c k op _ _ _ _ _ _ _ henter _ _ => cases henter

/-- As many clients as the ring has entries exceed it, and when all of them are
served at once completions overflow and a submission is refused. -/
theorem exists_overflow (hpos : 0 < cqEntries) :
    ∃ s t, (system cqEntries base listenFd).Reachable s ∧ s.live = cqEntries ∧
      cqEntries < s.unreleased + s.outstanding ∧
      (system cqEntries base listenFd).Reachable t ∧ t.overflow ≠ [] ∧
      t.Refused := by
  have hcrowd : ∃ s, (system cqEntries base listenFd).Reachable s ∧ Idle s ∧
      s.live = cqEntries := exists_crowd hpos cqEntries
  obtain ⟨s, hs, hidle, hlive⟩ := hcrowd
  have haccounted := (reachable_inv hs).accounted
  obtain ⟨n, op, hn, hopcode⟩ := hidle.acceptor (reachable_inv hs)
  obtain ⟨fd, hfd⟩ := exists_fd (openKeys base s.trace)
  have hroom : s.hasRoom cqEntries := by
    refine ⟨?_, hidle.overflow⟩
    rw [hidle.cq, hidle.handled]
    exact hpos
  -- the next `accept` comes first, then everybody else's operation
  have h₁ := reachable_accepted hs hidle.halt hn hopcode hfd hroom
  obtain ⟨t, ht, hhalt, hpc, hinflight, hhandled, htlive, rest, hcq⟩ :=
    exists_drained h₁ hidle.halt rfl
  have hcons : t.cq = ⟨op.userData, fd, op⟩ :: rest := by
    rw [← hcq, hidle.cq]
    rfl
  have hoverflow : t.overflow ≠ [] := by
    intro hnil
    have htaccounted := (reachable_inv ht).accounted
    have hbound := reachable_unreleased ht
    have hlive' : t.live = s.live := htlive
    rw [State.outstanding, hinflight, hnil] at htaccounted
    simp only [List.length_nil] at htaccounted
    omega
  have h₂ := reachable_entered ht hhalt (hpc.trans hidle.pc) (by simp [hcons])
  obtain ⟨u, hu, huoverflow, hrefused⟩ :=
    exists_refused h₂ hhalt rfl hcons hopcode hoverflow
  refine ⟨s, u, hs, hlive, ?_, hu, huoverflow, hrefused⟩
  omega

end Crowd

/-! ## The completion queue -/

/-- For every ring size, every number of clients and every run: what is
unreleased and what is outstanding add up to one, the connections, and the
completions handled since the last release, of which the ring holds no more than
it has entries.  A run in which they always fit the ring puts nothing on the overflow
list and has no submission refused; but nothing bounds the connections, and on every
ring there are runs with too many of them, in which completions overflow and a
submission is refused. -/
theorem queue_accounted {cqEntries : Nat} {base : Finset Int} {listenFd : Int}
    {s : State} (hs : (system cqEntries base listenFd).Reachable s) :
    s.unreleased + s.outstanding = 1 + s.live + s.handled ∧
      s.unreleased ≤ cqEntries ∧
      (((system cqEntries base listenFd).restrict (Fits cqEntries)).Reachable s →
        s.overflow = [] ∧ ¬ s.Refused) ∧
      (0 < cqEntries → ∃ u t, (system cqEntries base listenFd).Reachable u ∧
        u.live = cqEntries ∧ cqEntries < u.unreleased + u.outstanding ∧
        (system cqEntries base listenFd).Reachable t ∧ t.overflow ≠ [] ∧ t.Refused) := by
  refine ⟨(reachable_inv hs).accounted, reachable_unreleased hs, ?_, exists_overflow⟩
  · intro hfitting
    apply hfitting.induct
    · rintro s ⟨a, ha⟩
      obtain ⟨op, _, _, _, _, _, rfl⟩ := request_ok (fun _ => rfl) ha
      refine ⟨rfl, ?_⟩
      intro hrefused
      cases hrefused
    · rintro s e t hreach h ⟨⟨hstep, _, hans⟩, hfits⟩
      exact step_calm (reachable_inv hreach.of_restrict) h hfits hstep hans

/-- `queue_accounted` on a ring of four entries: one client has connected, and
the batch is over. -/
theorem queue_accounted_one : ∃ s,
    ((system 4 {0, 1, 2, 3, 4} 3).restrict (Fits 4)).Reachable s ∧ s.live = 1 ∧
      s.handled = 0 ∧ s.unreleased + s.outstanding = 2 ∧ s.overflow = [] ∧
      ¬ s.Refused := by
  have h₀ : ((system 4 {0, 1, 2, 3, 4} 3).restrict (Fits 4)).Reachable
      (started 3 100) := .start (started_init 4 ∅ 3 100)
  have hs : ((system 4 {0, 1, 2, 3, 4} 3).restrict (Fits 4)).Reachable _ :=
    ((((h₀.step
      (e := .complete 0 (.accept (.ok 5)))
        ⟨⟨rfl, by decide, by decide⟩, by decide⟩).step
      (e := .turn) ⟨⟨rfl, by decide, by decide⟩, by decide⟩).step
      (e := .handle (some 101) none) ⟨⟨rfl, by decide, by decide⟩, by decide⟩).step
      (e := .connect (some 200) (some 102) none)
        ⟨⟨rfl, by decide, by decide⟩, by decide⟩).step
      (e := .turn) ⟨⟨rfl, by decide, by decide⟩, by decide⟩
  obtain ⟨haccounted, _, hcalm, _⟩ := queue_accounted hs.of_restrict
  exact ⟨_, hs, rfl, rfl, haccounted, hcalm hs⟩

/-- `ring_init(&ring, 256)` gives a ring of 512 completions; 512 clients are one
too many. -/
theorem crowd_overflows : ∃ s t,
    (system 512 {0, 1, 2, 3, 4} 3).Reachable s ∧ s.live = 512 ∧
      512 < s.unreleased + s.outstanding ∧
      (system 512 {0, 1, 2, 3, 4} 3).Reachable t ∧ t.overflow ≠ [] ∧ t.Refused :=
  exists_overflow (by decide)

end SysLab.PartB.IoUringServer
