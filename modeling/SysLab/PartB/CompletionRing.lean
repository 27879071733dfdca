import SysLab.Foundation.CounterRing
import SysLab.Foundation.Transition
import SysLab.PartB.IoUringServer

/-!
# The completion ring of the `io_uring` server

The completion loop of `main` in `io_uring_server.c`, seen from the ring: where
`head`, `*cq_head` and `*cq_tail` stand, and which entry is read.  What the body
of the loop does with a completion is left to `IoUringServer`, but for its calls
of `submit_request`, each one step here, between which the kernel may post.

The entries from `*cq_head` on are those the batch has handled, then those still
to come; `head` stands between them.
-/

namespace SysLab.PartB.CompletionRing

open SysLab.Foundation
open RingSize (past)
open IoUringServer (OpType Cqe)

/-! ## The loop -/

/-- The completion half of `ring_t`. -/
structure Ring where
  cqHead : BitVec 32
  cqTail : BitVec 32
  cqes : BitVec 32 → Cqe

/-- At the top of the outer loop or at its `io_uring_enter`; in the inner loop,
with `head`, at its test, at the read of the completion, in its body with calls
of `submit_request` left, or past its end; or past `die_errno`. -/
inductive Pc
  | outer
  | wait
  | test (head : BitVec 32)
  | read (head : BitVec 32)
  | body (head : BitVec 32) (cqe : Cqe) (submissions : Nat)
  | publish (head : BitVec 32)
  | died (why : Exit)

/-- The ring, the completions posted and those handled, the oldest first, and
how many were handled since `*cq_head` was last written. -/
structure State where
  ring : Ring
  pc : Pc
  posted : List Cqe
  handled : List Cqe
  batch : Nat

/-- The kernel posts a completion, or the next step of the program; `read` says
what `req->type` is, and whether `calloc` would succeed. -/
inductive Event
  | post (cqe : Cqe)
  | outer
  | wait (error : Option Errno)
  | test
  | read (type : OpType) (calloc : Bool)
  | submit
  | finish
  | publish

/-- A step of the program. -/
def Event.isProgram : Event → Bool
  | .post _ => false
  | _ => true

/-- The calls of `submit_request` for a completion. -/
def submissions (type : OpType) (result : Int) (calloc : Bool) : Nat :=
  match type with
  | .accept => if 0 ≤ result ∧ calloc then 2 else 1
  | .recv => if result ≤ 0 then 0 else 1
  | .send => if result ≤ 0 then 0 else 1

/-- Two for an accepted connection. -/
theorem submissions_le (type : OpType) (result : Int) (calloc : Bool) :
    submissions type result calloc ≤ 2 := by
  cases type with
  | accept =>
      rw [submissions]
      split <;> decide
  | recv =>
      rw [submissions]
      split <;> decide
  | send =>
      rw [submissions]
      split <;> decide

/-- The kernel posts at the tail while there is room behind `*cq_head`. -/
def postStep (size : RingSize 32) (s : State) (cqe : Cqe) : Option State :=
  if s.ring.cqTail - s.ring.cqHead < size.entries then
    some { s with
      ring := { s.ring with
        cqTail := s.ring.cqTail + 1
        cqes := Function.update s.ring.cqes (size.slot s.ring.cqTail) cqe }
      posted := s.posted ++ [cqe] }
  else none

/-- `head = *ring.cq_head`, and the test that follows. -/
def outerStep (s : State) : State :=
  if s.ring.cqHead = s.ring.cqTail then { s with pc := .wait }
  else { s with pc := .test s.ring.cqHead }

/-- `io_uring_enter(ring_fd, 0, 1, IORING_ENTER_GETEVENTS)` has returned. -/
def waitStep (s : State) : Option Errno → State
  | some e => { s with pc := .died ⟨"io_uring_enter wait", e⟩ }
  | none => { s with pc := .outer }

/-- `head != *ring.cq_tail`. -/
def testStep (s : State) (head : BitVec 32) : State :=
  if head = s.ring.cqTail then { s with pc := .publish head }
  else { s with pc := .read head }

/-- `cqe = &ring.cqes[head & *ring.cq_ring_mask]` and the reads through it. -/
def readStep (size : RingSize 32) (s : State) (head : BitVec 32) (type : OpType)
    (calloc : Bool) : State :=
  let cqe := s.ring.cqes (size.slot head)
  { s with pc := .body head cqe (submissions type cqe.res calloc) }

/-- The end of the body, `++head`. -/
def finishStep (s : State) (head : BitVec 32) (cqe : Cqe) : State :=
  { s with
    pc := .test (head + 1)
    handled := s.handled ++ [cqe]
    batch := s.batch + 1 }

/-- `*ring.cq_head = head`. -/
def publishStep (s : State) (head : BitVec 32) : State :=
  { s with
    ring := { s.ring with cqHead := head }
    pc := .outer
    batch := 0 }

/-- One step; `none` when it is not possible. -/
def step (size : RingSize 32) (s : State) (e : Event) : Option State :=
  match e, s.pc with
  | .post cqe, _ => postStep size s cqe
  | .outer, .outer => some (outerStep s)
  | .wait error, .wait => some (waitStep s error)
  | .test, .test head => some (testStep s head)
  | .read type calloc, .read head => some (readStep size s head type calloc)
  | .submit, .body head cqe (left + 1) => some { s with pc := .body head cqe left }
  | .finish, .body head cqe 0 => some (finishStep s head cqe)
  | .publish, .publish head => some (publishStep s head)
  | _, _ => none

/-- The mapped ring as the kernel hands it out, the loop about to begin. -/
def started (start : BitVec 32) (cqes : BitVec 32 → Cqe) : State where
  ring := ⟨start, start, cqes⟩
  pc := .outer
  posted := []
  handled := []
  batch := 0

/-- The loop with every kernel that keeps to the room. -/
def system (size : RingSize 32) (start : BitVec 32) : System State Event where
  init s := ∃ cqes, s = started start cqes
  next s e t := step size s e = some t

/-! ## The invariant -/

/-- Where `head` is, and what the body works on, when the batch has handled
`count` completions and `rest` are still to come. -/
def Pc.At (cqHead : BitVec 32) (count : Nat) (rest : List Cqe) : Pc → Prop
  | .test head => head = past cqHead count
  | .read head => head = past cqHead count ∧ rest ≠ []
  | .body head cqe left => head = past cqHead count ∧ rest.head? = some cqe ∧ left ≤ 2
  | .publish head => head = past cqHead count
  | _ => count = 0

/-- From `*cq_head` on the ring holds the completions `done` that the batch has
handled, and `rest`. -/
structure Inv (size : RingSize 32) (start : BitVec 32) (s : State)
    (done rest : List Cqe) : Prop where
  holds : CounterRing.Holds size ⟨s.ring.cqHead, s.ring.cqTail, s.ring.cqes⟩ (done ++ rest)
  batch : s.batch = done.length
  posted : s.posted = s.handled ++ rest
  released : ∃ released, s.handled = released ++ done ∧
    s.ring.cqHead = past start released.length
  pc : s.pc.At s.ring.cqHead done.length rest

section Steps

variable {size : RingSize 32} {start : BitVec 32} {s t : State} {done rest : List Cqe}

/-- The private head has caught up with the tail when nothing is left. -/
theorem Inv.caught_up (h : Inv size start s done rest) :
    past s.ring.cqHead done.length = s.ring.cqTail ↔ rest = [] := by
  have hdrop := h.holds.drop (n := done.length) (by simp)
  rw [List.drop_left] at hdrop
  exact hdrop.empty_iff

/-- What the private head points at. -/
theorem Inv.next {cqe : Cqe} (h : Inv size start s done (cqe :: rest)) :
    s.ring.cqes (size.slot (past s.ring.cqHead done.length)) = cqe := by
  have hdrop := h.holds.drop (n := done.length) (by simp)
  rw [List.drop_left] at hdrop
  exact hdrop.first

theorem Inv.batch_le (h : Inv size start s done rest) :
    done.length + rest.length ≤ size.entries.toNat := by
  have hfits := h.holds.fits
  rwa [List.length_append] at hfits

theorem at_concat {cqHead : BitVec 32} {count : Nat} {pc : Pc} (h : pc.At cqHead count rest)
    (cqe : Cqe) : pc.At cqHead count (rest ++ [cqe]) := by
  cases pc with
  | read head => exact ⟨h.1, by simp⟩
  | body head cqe' left =>
      refine ⟨h.1, ?_, h.2.2⟩
      rw [List.head?_append, h.2.1]
      rfl
  | outer => exact h
  | wait => exact h
  | test head => exact h
  | publish head => exact h
  | died why => exact h

theorem Inv.post {cqe : Cqe} (h : Inv size start s done rest)
    (hstep : postStep size s cqe = some t) : Inv size start t done (rest ++ [cqe]) := by
  unfold postStep at hstep
  split at hstep
  · next hroom =>
      cases hstep
      have hdistance := h.holds.distance
      have hspace : (done ++ rest).length < size.entries.toNat := by
        rw [BitVec.lt_def] at hroom
        exact hdistance ▸ hroom
      refine ⟨?_, h.batch, ?_, h.released, at_concat h.pc cqe⟩
      · rw [← List.append_assoc]
        exact (h.holds.write hspace cqe).advance hspace (Function.update_self ..)
      · show s.posted ++ [cqe] = s.handled ++ (rest ++ [cqe])
        rw [h.posted, List.append_assoc]
  · cases hstep

theorem Inv.outer (h : Inv size start s done rest) (hpc : s.pc = .outer) :
    Inv size start (outerStep s) done rest := by
  have hcount : done.length = 0 := by
    have hat := h.pc
    rwa [hpc] at hat
  unfold outerStep
  split
  · exact ⟨h.holds, h.batch, h.posted, h.released, hcount⟩
  · refine ⟨h.holds, h.batch, h.posted, h.released, ?_⟩
    show s.ring.cqHead = past s.ring.cqHead done.length
    rw [hcount, RingSize.past_zero]

theorem Inv.test {head : BitVec 32} (h : Inv size start s done rest)
    (hpc : s.pc = .test head) : Inv size start (testStep s head) done rest := by
  have hhead : head = past s.ring.cqHead done.length := by
    have hat := h.pc
    rwa [hpc] at hat
  unfold testStep
  split
  · exact ⟨h.holds, h.batch, h.posted, h.released, hhead⟩
  · next hmore =>
      refine ⟨h.holds, h.batch, h.posted, h.released, hhead, ?_⟩
      rwa [hhead, h.caught_up] at hmore

theorem Inv.read {head : BitVec 32} (h : Inv size start s done rest)
    (hpc : s.pc = .read head) (type : OpType) (calloc : Bool) :
    Inv size start (readStep size s head type calloc) done rest := by
  have hat := h.pc
  rw [hpc] at hat
  obtain ⟨rfl, hrest⟩ := hat
  cases rest with
  | nil => exact absurd rfl hrest
  | cons cqe rest =>
      refine ⟨h.holds, h.batch, h.posted, h.released, rfl, ?_, submissions_le ..⟩
      exact congrArg some h.next.symm

theorem Inv.finish {head : BitVec 32} {cqe : Cqe} {left : Nat}
    (h : Inv size start s done rest) (hpc : s.pc = .body head cqe left) :
    ∃ rest', rest = cqe :: rest' ∧
      Inv size start (finishStep s head cqe) (done ++ [cqe]) rest' := by
  have hat := h.pc
  rw [hpc] at hat
  obtain ⟨rfl, hfirst, _⟩ := hat
  obtain ⟨rest', rfl⟩ := List.head?_eq_some_iff.mp hfirst
  obtain ⟨released, hhandled, hhead⟩ := h.released
  have hlength : (done ++ [cqe]).length = done.length + 1 := by simp
  refine ⟨rest', rfl, ?_, ?_, ?_, ⟨released, ?_, hhead⟩, ?_⟩
  · rw [← List.append_cons]
    exact h.holds
  · rw [hlength, ← h.batch]
    rfl
  · show s.posted = s.handled ++ [cqe] ++ rest'
    rw [h.posted, List.append_cons]
  · show s.handled ++ [cqe] = released ++ (done ++ [cqe])
    rw [hhandled, List.append_assoc]
  · show past s.ring.cqHead done.length + 1 = past s.ring.cqHead (done ++ [cqe]).length
    rw [hlength, ← RingSize.past_past, RingSize.past_one]

theorem Inv.publish {head : BitVec 32} (h : Inv size start s done rest)
    (hpc : s.pc = .publish head) : Inv size start (publishStep s head) [] rest := by
  have hhead : head = past s.ring.cqHead done.length := by
    have hat := h.pc
    rwa [hpc] at hat
  obtain ⟨released, hhandled, hcqHead⟩ := h.released
  refine ⟨?_, rfl, h.posted, ⟨s.handled, (List.append_nil _).symm, ?_⟩, rfl⟩
  · have hdrop := h.holds.drop (n := done.length) (by simp)
    rw [List.drop_left] at hdrop
    rw [publishStep, hhead]
    exact hdrop
  · show head = past start s.handled.length
    rw [hhead, hcqHead, RingSize.past_past, hhandled, List.length_append]

/-- Every step keeps the invariant. -/
theorem Inv.step {e : Event} (h : Inv size start s done rest)
    (hstep : step size s e = some t) : ∃ done' rest', Inv size start t done' rest' := by
  unfold CompletionRing.step at hstep
  split at hstep
  · exact ⟨done, _, h.post hstep⟩
  · next hpc =>
      cases hstep
      exact ⟨done, rest, h.outer hpc⟩
  · next error hpc =>
      cases hstep
      have hat := h.pc
      rw [hpc] at hat
      cases error with
      | some e => exact ⟨done, rest, h.holds, h.batch, h.posted, h.released, hat⟩
      | none => exact ⟨done, rest, h.holds, h.batch, h.posted, h.released, hat⟩
  · next head hpc =>
      cases hstep
      exact ⟨done, rest, h.test hpc⟩
  · next type calloc head hpc =>
      cases hstep
      exact ⟨done, rest, h.read hpc type calloc⟩
  · next head cqe left hpc =>
      cases hstep
      have hat := h.pc
      rw [hpc] at hat
      obtain ⟨hhead, hfirst, hleft⟩ := hat
      exact ⟨done, rest, h.holds, h.batch, h.posted, h.released, hhead, hfirst,
        Nat.le_of_succ_le hleft⟩
  · next head cqe hpc =>
      cases hstep
      obtain ⟨rest', _, hinv⟩ := h.finish hpc
      exact ⟨_, rest', hinv⟩
  · next head hpc =>
      cases hstep
      exact ⟨[], rest, h.publish hpc⟩
  · cases hstep

end Steps

theorem reachable_inv {size : RingSize 32} {start : BitVec 32} {s : State}
    (hs : (system size start).Reachable s) : ∃ done rest, Inv size start s done rest := by
  refine hs.induct (I := fun s => ∃ done rest, Inv size start s done rest) ?_ ?_
  · rintro s ⟨cqes, rfl⟩
    refine ⟨[], [], .nil size start cqes, rfl, rfl, ⟨[], rfl, ?_⟩, rfl⟩
    exact (RingSize.past_zero start).symm
  · rintro s e t _ ⟨done, rest, hinv⟩ hnext
    exact hinv.step hnext

/-! ## How long a batch goes on -/

/-- Inside the inner loop, or at the store that follows it. -/
def Pc.InBatch : Pc → Prop
  | .test _ => True
  | .read _ => True
  | .body _ _ _ => True
  | .publish _ => True
  | _ => False

/-- Steps the program may still take before it writes `*cq_head`: five for each
entry of the ring not handled yet, and a last test. -/
def State.work (size : RingSize 32) (s : State) : Nat :=
  match s.pc with
  | .test _ => 5 * (size.entries.toNat - s.batch) + 1
  | .read _ => 5 * (size.entries.toNat - s.batch)
  | .body _ _ left => 5 * (size.entries.toNat - s.batch) - 3 + left
  | _ => 0

/-- What a step costs. -/
def Event.cost (e : Event) : Nat := if e.isProgram then 1 else 0

section Batch

variable {size : RingSize 32} {start : BitVec 32} {s t : State} {done rest : List Cqe}

/-- While something is still to come there is an entry not handled yet. -/
theorem Inv.batch_lt (h : Inv size start s done rest) (hrest : rest ≠ []) :
    s.batch < size.entries.toNat := by
  have hpos := List.length_pos_iff.mpr hrest
  have hle := h.batch_le
  have hbatch := h.batch
  omega

theorem Inv.work_le (h : Inv size start s done rest) :
    s.work size ≤ 5 * size.entries.toNat + 1 := by
  have hat := h.pc
  unfold State.work
  split
  · omega
  · omega
  · next head cqe left hpc =>
      rw [hpc] at hat
      have hlt := h.batch_lt (List.ne_nil_of_mem (List.mem_of_mem_head? hat.2.1))
      have hleft := hat.2.2
      omega
  · omega

/-- A batch goes on until `*cq_head` is written, and each step of the program in
it is one less to come. -/
theorem Inv.work_step {e : Event} (h : Inv size start s done rest) (hin : s.pc.InBatch)
    (he : e ≠ .publish) (hstep : CompletionRing.step size s e = some t) :
    t.pc.InBatch ∧ t.work size + e.cost ≤ s.work size := by
  unfold CompletionRing.step at hstep
  split at hstep
  · unfold postStep at hstep
    split at hstep
    · cases hstep
      exact ⟨hin, Nat.le_refl _⟩
    · cases hstep
  · next hpc =>
      rw [hpc] at hin
      cases hin
  · next error hpc =>
      rw [hpc] at hin
      cases hin
  · next head hpc =>
      cases hstep
      have hwork : s.work size = 5 * (size.entries.toNat - s.batch) + 1 := by
        rw [State.work, hpc]
      rw [testStep, hwork]
      split
      · exact ⟨trivial, Nat.succ_le_succ (Nat.zero_le _)⟩
      · exact ⟨trivial, Nat.le_refl _⟩
  · next type calloc head hpc =>
      cases hstep
      have hat := h.pc
      rw [hpc] at hat
      have hlt := h.batch_lt hat.2
      have hle := submissions_le type (s.ring.cqes (size.slot head)).res calloc
      have hwork : s.work size = 5 * (size.entries.toNat - s.batch) := by
        rw [State.work, hpc]
      refine ⟨trivial, ?_⟩
      show 5 * (size.entries.toNat - s.batch) - 3 + submissions type _ calloc + 1 ≤ _
      omega
  · next head cqe left hpc =>
      cases hstep
      have hwork : s.work size = 5 * (size.entries.toNat - s.batch) - 3 + (left + 1) := by
        rw [State.work, hpc]
      rw [hwork]
      exact ⟨trivial, Nat.le_refl _⟩
  · next head cqe hpc =>
      cases hstep
      have hat := h.pc
      rw [hpc] at hat
      have hlt := h.batch_lt (List.ne_nil_of_mem (List.mem_of_mem_head? hat.2.1))
      have hwork : s.work size = 5 * (size.entries.toNat - s.batch) - 3 + 0 := by
        rw [State.work, hpc]
      refine ⟨trivial, ?_⟩
      show 5 * (size.entries.toNat - (s.batch + 1)) + 1 + 1 ≤ _
      omega
  · exact absurd rfl he
  · cases hstep

/-- A run that does not write `*cq_head` uses up the work. -/
theorem work_run {es : List Event} (hrun : (system size start).Run s es t)
    (hs : (system size start).Reachable s) (hin : s.pc.InBatch) (hes : .publish ∉ es) :
    t.work size + es.countP Event.isProgram ≤ s.work size := by
  induction hrun with
  | nil s => exact Nat.le_refl _
  | @cons s u t e es hnext _ ih =>
      obtain ⟨done, rest, hinv⟩ := reachable_inv hs
      have he : e ≠ .publish := fun heq => hes (heq ▸ List.mem_cons_self)
      obtain ⟨hin', hle⟩ := hinv.work_step hin he hnext
      have hrest := ih (hs.step hnext) hin' fun hmem => hes (List.mem_cons_of_mem _ hmem)
      rw [List.countP_cons]
      have hcost : e.cost = if e.isProgram = true then 1 else 0 := rfl
      omega

/-- The batch does not get stuck. -/
theorem enabled_of_inBatch (hin : s.pc.InBatch) :
    ∃ e t, e.isProgram = true ∧ (system size start).next s e t := by
  cases hpc : s.pc with
  | test head => exact ⟨.test, testStep s head, rfl, by simp [system, step, hpc]⟩
  | read head =>
      exact ⟨.read .recv false, readStep size s head .recv false, rfl,
        by simp [system, step, hpc]⟩
  | body head cqe left =>
      cases left with
      | zero => exact ⟨.finish, finishStep s head cqe, rfl, by simp [system, step, hpc]⟩
      | succ left =>
          exact ⟨.submit, { s with pc := .body head cqe left }, rfl,
            by simp [system, step, hpc]⟩
  | publish head => exact ⟨.publish, publishStep s head, rfl, by simp [system, step, hpc]⟩
  | outer =>
      rw [hpc] at hin
      cases hin
  | wait =>
      rw [hpc] at hin
      cases hin
  | died why =>
      rw [hpc] at hin
      cases hin

end Batch

/-- Every completion is handled once and in the order of posting.  Wherever the
counters started and however often they have wrapped: what has been handled is
what was posted first; the entry about to be read is the next one, and so is the
one being handled; `*cq_head` is past completions that have been handled, the
batch since then is no longer than the ring, and no more is posted than fits
behind it; and a batch comes to its end, never being stuck. -/
theorem completions_once {size : RingSize 32} {start : BitVec 32} {s : State}
    (hs : (system size start).Reachable s) :
    s.handled <+: s.posted ∧
    (∀ head, s.pc = .read head →
      s.posted[s.handled.length]? = some (s.ring.cqes (size.slot head))) ∧
    (∀ head cqe left, s.pc = .body head cqe left →
      s.posted[s.handled.length]? = some cqe) ∧
    (∃ released, released + s.batch = s.handled.length ∧
      s.ring.cqHead = past start released ∧
      s.ring.cqTail = past start s.posted.length ∧
      s.posted.length ≤ released + size.entries.toNat) ∧
    s.batch ≤ size.entries.toNat ∧
    (s.pc.InBatch →
      (∃ e t, e.isProgram = true ∧ (system size start).next s e t) ∧
      ∀ es t, (system size start).Run s es t → .publish ∉ es →
        es.countP Event.isProgram ≤ 5 * size.entries.toNat + 1) := by
  obtain ⟨done, rest, hinv⟩ := reachable_inv hs
  have hposted := hinv.posted
  have hnext : s.posted[s.handled.length]? = rest.head? := by
    rw [hposted, List.getElem?_append_right (Nat.le_refl _), Nat.sub_self,
      List.head?_eq_getElem?]
  have hat := hinv.pc
  have hbatch := hinv.batch
  have hle := hinv.batch_le
  refine ⟨⟨rest, hposted.symm⟩, ?_, ?_, ?_, by omega, fun hin => ⟨?_, ?_⟩⟩
  · intro head hpc
    rw [hpc] at hat
    obtain ⟨rfl, hrest⟩ := hat
    cases rest with
    | nil => exact absurd rfl hrest
    | cons cqe rest =>
        rw [hnext, hinv.next]
        rfl
  · intro head cqe left hpc
    rw [hpc] at hat
    exact hnext.trans hat.2.1
  · obtain ⟨released, hhandled, hhead⟩ := hinv.released
    have htail : s.ring.cqTail = past s.ring.cqHead (done ++ rest).length := hinv.holds.tail
    have hlength : s.handled.length = released.length + done.length := by
      rw [hhandled, List.length_append]
    refine ⟨released.length, by omega, hhead, ?_, ?_⟩
    · rw [htail, hhead, RingSize.past_past, hposted, List.length_append, List.length_append,
        hlength, Nat.add_assoc]
    · rw [hposted, List.length_append]
      omega
  · exact enabled_of_inBatch hin
  · intro es t hrun hes
    have hwork := work_run hrun hs hin hes
    have hbound := hinv.work_le
    omega

/-- Two entries, and counters that wrap: a completion is posted while the first
one is handled, into the slot next to it, and handled in the same batch. -/
theorem completions_once_wrapped : ∃ s,
    (system ⟨2, 1, ⟨1, rfl⟩, rfl⟩ (BitVec.allOnes 32)).Reachable s ∧
      s.ring.cqHead = 1 ∧ s.handled.map Cqe.userData = [10, 11] ∧ s.handled <+: s.posted := by
  have h₀ : (system ⟨2, 1, ⟨1, rfl⟩, rfl⟩ (BitVec.allOnes 32)).Reachable
      (started (BitVec.allOnes 32) fun _ => ⟨0, 0, 0, .accept, 0, none, 0⟩) :=
    .start ⟨_, rfl⟩
  have h₁ := h₀.step (e := Event.post ⟨10, 7, 10, .recv, 4, some 1, 4096⟩) rfl
  have h₂ := ((h₁.step (e := Event.outer) rfl).step (e := Event.test) rfl).step
    (e := Event.read .recv true) rfl
  have h₃ := (h₂.step (e := Event.post ⟨11, 7, 11, .recv, 5, some 2, 4096⟩) rfl).step
    (e := Event.submit) rfl
  have h₄ := ((h₃.step (e := Event.finish) rfl).step (e := Event.test) rfl).step
    (e := Event.read .recv true) rfl
  have h₅ := ((h₄.step (e := Event.submit) rfl).step (e := Event.finish) rfl).step
    (e := Event.test) rfl
  have h₆ := h₅.step (e := Event.publish) rfl
  exact ⟨_, h₆, rfl, rfl, (completions_once h₆).1⟩

end SysLab.PartB.CompletionRing
