import SysLab.Foundation.CounterRing
import SysLab.PartB.IoUringServer

/-!
# The submission ring of the `io_uring` server

`ring_get_sqe` and `submit_request` of `io_uring_server.c`, one write to the
mapped memory at a time, and the kernel's side of `io_uring_enter`: called with
`to_submit = 1` it takes one entry, through `array`, or none.

The two arrays are two rings over the same counters: `sqes` holds the entries,
`array` at each slot in use that slot itself.
-/

namespace SysLab.PartB.SubmissionRing

open SysLab.Foundation
open RingSize (past)
open IoUringServer (Request Connection Sqe)

/-! ## The ring -/

/-- The submission half of `ring_t`. -/
structure Ring where
  head : BitVec 32
  tail : BitVec 32
  array : BitVec 32 → BitVec 32
  sqes : BitVec 32 → Sqe

/-- A call `submit_request(ring, req)`: the pointer, what it points to, and
`req->conn->length`. -/
structure Submission where
  req : Nat
  request : Request
  length : Nat

/-- The entry that is filled in. -/
def Submission.entry (sub : Submission) : Sqe :=
  match sub.request.type with
  | .accept => ⟨sub.req, .accept, sub.request.fd, none, 0⟩
  | .recv => ⟨sub.req, .recv, sub.request.fd, sub.request.conn, bufferSize⟩
  | .send => ⟨sub.req, .send, sub.request.fd, sub.request.conn, sub.length % 2 ^ 32⟩

/-- `ring_get_sqe`: the slot, `none` being `NULL`. -/
def ringGetSqe (size : RingSize 32) (ring : Ring) : Option (BitVec 32) :=
  if size.entries ≤ ring.tail - ring.head then none else some (size.slot ring.tail)

/-- The kernel takes the entry at the head. -/
def Ring.consume (size : RingSize 32) (ring : Ring) : Sqe × Ring :=
  (ring.sqes (ring.array (size.slot ring.head)), { ring with head := ring.head + 1 })

/-- The entries between head and tail, as the kernel would find them. -/
def Ring.unconsumed (size : RingSize 32) (ring : Ring) : List Sqe :=
  (List.range (ring.tail - ring.head).toNat).map fun i =>
    ring.sqes (ring.array (size.slot (past ring.head i)))

/-! ## `submit_request` -/

/-- Outside `submit_request`; in it, at `ring_get_sqe`, at the `io_uring_enter`
that waits, at the writes to the entry, to `array` and to the tail, or at the
`io_uring_enter` that submits; or past `die_errno`, with the call that had not
moved the tail yet, if one is given up. -/
inductive Pc
  | idle
  | getSqe (sub : Submission)
  | wait (sub : Submission)
  | fill (sub : Submission) (sqe : BitVec 32)
  | index (sub : Submission)
  | publish (sub : Submission)
  | enter
  | died (why : Exit) (sub : Option Submission)

/-- The ring, the calls of `submit_request` and the entries the kernel has
taken, the oldest first. -/
structure State where
  ring : Ring
  pc : Pc
  submitted : List Submission
  consumed : List Sqe

/-- The next step of the program, with what `io_uring_enter` does: whether it
takes an entry, and the error it returns, if any. -/
inductive Event
  | submit (sub : Submission)
  | getSqe
  | wait (error : Option Errno)
  | fill
  | index
  | publish
  | enter (takes : Bool) (error : Option Errno)

/-- `ring_get_sqe` has returned. -/
def getSqeStep (size : RingSize 32) (s : State) (sub : Submission) : State :=
  match ringGetSqe size s.ring with
  | some sqe => { s with pc := .fill sub sqe }
  | none => { s with pc := .wait sub }

/-- `io_uring_enter(ring_fd, 0, 1, IORING_ENTER_GETEVENTS)` has returned. -/
def waitStep (s : State) (sub : Submission) : Option Errno → State
  | some e => { s with pc := .died ⟨"io_uring_enter wait", e⟩ (some sub) }
  | none => { s with pc := .getSqe sub }

/-- `memset` and the assignments to `*sqe`. -/
def fillStep (s : State) (sub : Submission) (sqe : BitVec 32) : State :=
  { s with
    ring := { s.ring with sqes := Function.update s.ring.sqes sqe sub.entry }
    pc := .index sub }

/-- `ring->array[*ring->tail & *ring->ring_mask] = *ring->tail & *ring->ring_mask`. -/
def indexStep (size : RingSize 32) (s : State) (sub : Submission) : State :=
  { s with
    ring := { s.ring with
      array := Function.update s.ring.array (size.slot s.ring.tail)
        (size.slot s.ring.tail) }
    pc := .publish sub }

/-- `(*ring->tail)++`. -/
def publishStep (s : State) : State :=
  { s with
    ring := { s.ring with tail := s.ring.tail + 1 }
    pc := .enter }

/-- The kernel takes an entry during `io_uring_enter`. -/
def State.take (size : RingSize 32) (s : State) : State :=
  { s with
    ring := (s.ring.consume size).2
    consumed := s.consumed ++ [(s.ring.consume size).1] }

/-- On from `io_uring_enter(ring_fd, 1, 0, 0)`. -/
def State.entered (s : State) : Option Errno → State
  | some e => { s with pc := .died ⟨"io_uring_enter submit", e⟩ none }
  | none => { s with pc := .idle }

/-- `io_uring_enter(ring_fd, 1, 0, 0)`; from an empty ring nothing can be taken. -/
def enterStep (size : RingSize 32) (s : State) (takes : Bool) (error : Option Errno) :
    Option State :=
  if takes then
    if s.ring.head = s.ring.tail then none else some ((s.take size).entered error)
  else some (s.entered error)

/-- One step; `none` when the program is not at that point. -/
def step (size : RingSize 32) (s : State) (e : Event) : Option State :=
  match s.pc, e with
  | .idle, .submit sub =>
      some { s with pc := .getSqe sub, submitted := s.submitted ++ [sub] }
  | .getSqe sub, .getSqe => some (getSqeStep size s sub)
  | .wait sub, .wait error => some (waitStep s sub error)
  | .fill sub sqe, .fill => some (fillStep s sub sqe)
  | .index sub, .index => some (indexStep size s sub)
  | .publish _, .publish => some (publishStep s)
  | .enter, .enter takes error => enterStep size s takes error
  | _, _ => none

/-- The mapped rings as the kernel hands them out: empty, the counters standing
anywhere. -/
def started (counter : BitVec 32) (array : BitVec 32 → BitVec 32)
    (sqes : BitVec 32 → Sqe) : State where
  ring := ⟨counter, counter, array, sqes⟩
  pc := .idle
  submitted := []
  consumed := []

/-- Any sequence of calls of `submit_request`. -/
def system (size : RingSize 32) : System State Event where
  init s := ∃ counter array sqes, s = started counter array sqes
  next s e t := step size s e = some t

/-! ## The invariant -/

/-- The entry that has been asked for and not yet been handed over. -/
def Pc.pending : Pc → List Sqe
  | .getSqe sub => [sub.entry]
  | .wait sub => [sub.entry]
  | .fill sub _ => [sub.entry]
  | .index sub => [sub.entry]
  | .publish sub => [sub.entry]
  | .died _ (some sub) => [sub.entry]
  | _ => []

/-- Entries past the tail's move and not past the `io_uring_enter` after it. -/
def Pc.handing : Pc → Nat
  | .enter => 1
  | _ => 0

/-- The kernel takes an entry whenever it is asked to. -/
def Event.Prompt : Event → Prop
  | .enter takes _ => takes = true
  | _ => True

/-- The slots from a counter on. -/
def slotsFrom (size : RingSize 32) (head : BitVec 32) (n : Nat) : List (BitVec 32) :=
  (List.range n).map fun i => size.slot (past head i)

theorem slotsFrom_concat (size : RingSize 32) (head : BitVec 32) (n : Nat) :
    slotsFrom size head (n + 1) = slotsFrom size head n ++ [size.slot (past head n)] := by
  rw [slotsFrom, List.range_succ, List.map_append]
  rfl

theorem slotsFrom_cons (size : RingSize 32) (head : BitVec 32) (n : Nat) :
    slotsFrom size head (n + 1) = size.slot head :: slotsFrom size (head + 1) n := by
  have hnext : ∀ i, past head (i + 1) = past (head + 1) i := by
    intro i
    rw [← RingSize.past_one, RingSize.past_past, Nat.add_comm]
  rw [slotsFrom, List.range_succ_eq_map, List.map_cons, List.map_map, RingSize.past_zero]
  congr 1
  exact List.map_congr_left fun i _ => congrArg size.slot (hnext i)

/-- The ring holds `q`. -/
structure Ring.Holds (size : RingSize 32) (ring : Ring) (q : List Sqe) : Prop where
  sqes : CounterRing.Holds size ⟨ring.head, ring.tail, ring.sqes⟩ q
  array : CounterRing.Holds size ⟨ring.head, ring.tail, ring.array⟩
    (slotsFrom size ring.head q.length)

namespace Ring.Holds

variable {size : RingSize 32} {ring : Ring} {q : List Sqe}

/-- What the kernel finds at a place in the queue. -/
theorem entry (h : ring.Holds size q) {i : Nat} (hi : i < q.length) :
    ring.array (size.slot (past ring.head i)) = size.slot (past ring.head i) ∧
      ring.sqes (size.slot (past ring.head i)) = q[i] := by
  have hlength : i < (slotsFrom size ring.head q.length).length := by
    rw [slotsFrom, List.length_map, List.length_range]
    exact hi
  refine ⟨?_, h.sqes.slots i hi⟩
  have hslot := h.array.slots i hlength
  simp only [slotsFrom, List.getElem_map, List.getElem_range] at hslot
  exact hslot

theorem unconsumed (h : ring.Holds size q) : ring.unconsumed size = q := by
  have hdistance : (ring.tail - ring.head).toNat = q.length := h.sqes.distance
  rw [Ring.unconsumed, hdistance]
  refine List.ext_getElem (by simp) fun i _ hi => ?_
  obtain ⟨harray, hsqe⟩ := h.entry hi
  rw [List.getElem_map, List.getElem_range, harray, hsqe]

theorem fits (h : ring.Holds size q) : ring.tail - ring.head ≤ size.entries := by
  have hdistance : (ring.tail - ring.head).toNat = q.length := h.sqes.distance
  rw [BitVec.le_def, hdistance]
  exact h.sqes.fits

/-- `ring_get_sqe` returns the slot at the tail, and only when there is room. -/
theorem ringGetSqe_some (h : ring.Holds size q) {sqe : BitVec 32}
    (hget : ringGetSqe size ring = some sqe) :
    sqe = size.slot ring.tail ∧ q.length < size.entries.toNat := by
  unfold ringGetSqe at hget
  split at hget
  · cases hget
  · next hroom =>
      cases hget
      refine ⟨rfl, Nat.lt_of_le_of_ne h.sqes.fits fun heq => hroom ?_⟩
      exact h.sqes.full_iff.mpr heq

/-- It is none that the kernel has still to read. -/
theorem ringGetSqe_fresh (h : ring.Holds size q) {sqe : BitVec 32}
    (hget : ringGetSqe size ring = some sqe) {i : Nat} (hi : i < q.length) :
    ring.array (size.slot (past ring.head i)) ≠ sqe := by
  obtain ⟨rfl, hroom⟩ := h.ringGetSqe_some hget
  rw [(h.entry hi).1]
  exact h.sqes.slot_ne hroom hi

theorem fill (h : ring.Holds size q) (hroom : q.length < size.entries.toNat) (sqe : Sqe) :
    Ring.Holds size { ring with
      sqes := Function.update ring.sqes (size.slot ring.tail) sqe } q :=
  ⟨h.sqes.write hroom sqe, h.array⟩

theorem index (h : ring.Holds size q) (hroom : q.length < size.entries.toNat)
    (slot : BitVec 32) :
    Ring.Holds size { ring with
      array := Function.update ring.array (size.slot ring.tail) slot } q := by
  have hlength : (slotsFrom size ring.head q.length).length = q.length := by
    rw [slotsFrom, List.length_map, List.length_range]
  exact ⟨h.sqes, h.array.write (hlength.symm ▸ hroom) slot⟩

theorem publish (h : ring.Holds size q) (hroom : q.length < size.entries.toNat) {sqe : Sqe}
    (hsqe : ring.sqes (size.slot ring.tail) = sqe)
    (harray : ring.array (size.slot ring.tail) = size.slot ring.tail) :
    Ring.Holds size { ring with tail := ring.tail + 1 } (q ++ [sqe]) := by
  have hlength : (slotsFrom size ring.head q.length).length = q.length := by
    rw [slotsFrom, List.length_map, List.length_range]
  have htail : ring.tail = past ring.head q.length := h.sqes.tail
  refine ⟨h.sqes.advance hroom hsqe, ?_⟩
  show CounterRing.Holds size ⟨ring.head, ring.tail + 1, ring.array⟩
    (slotsFrom size ring.head (q ++ [sqe]).length)
  rw [List.length_append, List.length_singleton, slotsFrom_concat, ← htail]
  exact h.array.advance (hlength.symm ▸ hroom) harray

theorem consume {sqe : Sqe} (h : ring.Holds size (sqe :: q)) :
    (ring.consume size).1 = sqe ∧ (ring.consume size).2.Holds size q := by
  have harray := h.array
  rw [List.length_cons, slotsFrom_cons] at harray
  have hindex : ring.array (size.slot ring.head) = size.slot ring.head := harray.first
  refine ⟨?_, h.sqes.pop, harray.pop⟩
  show ring.sqes (ring.array (size.slot ring.head)) = sqe
  rw [hindex]
  exact h.sqes.first

end Ring.Holds

/-- What `submit_request` has done of its work so far. -/
def Pc.Ready (size : RingSize 32) (ring : Ring) (q : List Sqe) : Pc → Prop
  | .fill _ sqe => sqe = size.slot ring.tail ∧ q.length < size.entries.toNat
  | .index sub =>
      q.length < size.entries.toNat ∧ ring.sqes (size.slot ring.tail) = sub.entry
  | .publish sub =>
      q.length < size.entries.toNat ∧ ring.sqes (size.slot ring.tail) = sub.entry ∧
        ring.array (size.slot ring.tail) = size.slot ring.tail
  | _ => True

/-- The ring holds what has been handed over and not been taken. -/
structure Inv (size : RingSize 32) (s : State) (q : List Sqe) : Prop where
  holds : s.ring.Holds size q
  ready : s.pc.Ready size s.ring q
  log : s.consumed ++ q ++ s.pc.pending = s.submitted.map Submission.entry

section Steps

variable {size : RingSize 32} {s t : State} {q : List Sqe}

theorem Inv.getSqe {sub : Submission} (h : Inv size s q) (hpc : s.pc = .getSqe sub) :
    Inv size (getSqeStep size s sub) q := by
  have hlog := h.log
  rw [hpc] at hlog
  unfold getSqeStep
  cases hget : ringGetSqe size s.ring with
  | some sqe => exact ⟨h.holds, h.holds.ringGetSqe_some hget, hlog⟩
  | none => exact ⟨h.holds, trivial, hlog⟩

theorem Inv.fill {sub : Submission} {sqe : BitVec 32} (h : Inv size s q)
    (hpc : s.pc = .fill sub sqe) : Inv size (fillStep s sub sqe) q := by
  obtain ⟨hholds, hready, hlog⟩ := h
  rw [hpc] at hready hlog
  obtain ⟨rfl, hroom⟩ := hready
  exact ⟨hholds.fill hroom sub.entry, ⟨hroom, Function.update_self ..⟩, hlog⟩

theorem Inv.index {sub : Submission} (h : Inv size s q) (hpc : s.pc = .index sub) :
    Inv size (indexStep size s sub) q := by
  obtain ⟨hholds, hready, hlog⟩ := h
  rw [hpc] at hready hlog
  obtain ⟨hroom, hsqe⟩ := hready
  exact ⟨hholds.index hroom _, ⟨hroom, hsqe, Function.update_self ..⟩, hlog⟩

theorem Inv.publish {sub : Submission} (h : Inv size s q) (hpc : s.pc = .publish sub) :
    Inv size (publishStep s) (q ++ [sub.entry]) := by
  obtain ⟨hholds, hready, hlog⟩ := h
  rw [hpc] at hready hlog
  obtain ⟨hroom, hsqe, harray⟩ := hready
  refine ⟨hholds.publish hroom hsqe harray, trivial, Eq.trans ?_ hlog⟩
  show s.consumed ++ (q ++ [sub.entry]) ++ [] = s.consumed ++ q ++ [sub.entry]
  rw [List.append_nil, List.append_assoc]

/-- The kernel takes the oldest entry. -/
theorem Inv.take {sqe : Sqe} (h : Inv size s (sqe :: q)) (hpc : s.pc = .enter) :
    Inv size (s.take size) q := by
  obtain ⟨hholds, hready, hlog⟩ := h
  obtain ⟨hsqe, hrest⟩ := hholds.consume
  refine ⟨hrest, ?_, ?_⟩
  · show s.pc.Ready size (s.ring.consume size).2 q
    rw [hpc]
    trivial
  · refine Eq.trans ?_ hlog
    show s.consumed ++ [(s.ring.consume size).1] ++ q ++ s.pc.pending =
      s.consumed ++ sqe :: q ++ s.pc.pending
    rw [hsqe, ← List.append_cons]

theorem Inv.entered (h : Inv size s q) (hpc : s.pc = .enter) (error : Option Errno) :
    Inv size (s.entered error) q := by
  have hlog := h.log
  rw [hpc] at hlog
  cases error with
  | some e => exact ⟨h.holds, trivial, hlog⟩
  | none => exact ⟨h.holds, trivial, hlog⟩

theorem entered_handing (s : State) (error : Option Errno) :
    (s.entered error).pc.handing = 0 := by
  cases error with
  | some e => rfl
  | none => rfl

theorem Inv.enter {takes : Bool} {error : Option Errno} (h : Inv size s q)
    (hpc : s.pc = .enter) (hstep : enterStep size s takes error = some t) :
    ∃ q', Inv size t q' ∧
      ((Event.enter takes error).Prompt → q'.length + 1 = q.length + t.pc.handing) := by
  unfold enterStep at hstep
  split at hstep
  · split at hstep
    · cases hstep
    · next hsome =>
        cases hstep
        cases q with
        | nil => exact absurd (h.holds.sqes.empty_iff.mpr rfl) hsome
        | cons sqe q =>
            refine ⟨q, (h.take hpc).entered hpc error, fun _ => ?_⟩
            rw [entered_handing]
            rfl
  · next hnone =>
      cases hstep
      exact ⟨q, h.entered hpc error, fun htakes => absurd htakes hnone⟩

/-- Every step keeps the invariant, for the queue it leaves; while the kernel is
prompt, that grows and shrinks with what is being handed over. -/
theorem Inv.step {e : Event} (h : Inv size s q) (hstep : step size s e = some t) :
    ∃ q', Inv size t q' ∧
      (e.Prompt → q'.length + s.pc.handing = q.length + t.pc.handing) := by
  have hlog := h.log
  unfold SubmissionRing.step at hstep
  split at hstep
  · next sub hpc =>
      cases hstep
      rw [hpc] at hlog ⊢
      refine ⟨q, ⟨h.holds, trivial, ?_⟩, fun _ => rfl⟩
      show s.consumed ++ q ++ [sub.entry] = (s.submitted ++ [sub]).map Submission.entry
      rw [List.map_append, ← hlog]
      exact congrArg (· ++ [sub.entry]) (List.append_nil _).symm
  · next sub hpc =>
      cases hstep
      refine ⟨q, h.getSqe hpc, fun _ => ?_⟩
      rw [hpc, getSqeStep]
      split
      · rfl
      · rfl
  · next sub error hpc =>
      cases hstep
      rw [hpc] at hlog ⊢
      cases error with
      | some e => exact ⟨q, ⟨h.holds, trivial, hlog⟩, fun _ => rfl⟩
      | none => exact ⟨q, ⟨h.holds, trivial, hlog⟩, fun _ => rfl⟩
  · next sub sqe hpc =>
      cases hstep
      refine ⟨q, h.fill hpc, fun _ => ?_⟩
      rw [hpc]
      rfl
  · next sub hpc =>
      cases hstep
      refine ⟨q, h.index hpc, fun _ => ?_⟩
      rw [hpc]
      rfl
  · next sub hpc =>
      cases hstep
      refine ⟨_, h.publish hpc, fun _ => ?_⟩
      rw [hpc, List.length_append]
      rfl
  · next takes error hpc =>
      rw [hpc]
      exact h.enter hpc hstep
  · cases hstep

end Steps

theorem reachable_inv {size : RingSize 32} {s : State} (hs : (system size).Reachable s) :
    ∃ q, Inv size s q := by
  refine hs.induct (I := fun s => ∃ q, Inv size s q) ?_ ?_
  · rintro s ⟨counter, array, sqes, rfl⟩
    exact ⟨[], ⟨.nil size counter sqes, .nil size counter array⟩, trivial, rfl⟩
  · rintro s e t _ ⟨q, hinv⟩ hnext
    obtain ⟨q', hinv', _⟩ := hinv.step hnext
    exact ⟨q', hinv'⟩

/-- Between two calls of `submit_request` a prompt kernel has taken everything. -/
theorem prompt_consumed {size : RingSize 32} {s : State}
    (hs : ((system size).restrict fun _ e => e.Prompt).Reachable s) (hidle : s.pc = .idle) :
    s.consumed = s.submitted.map Submission.entry := by
  have hinv : ∃ q, Inv size s q ∧ q.length = s.pc.handing := by
    refine hs.induct (I := fun s => ∃ q, Inv size s q ∧ q.length = s.pc.handing) ?_ ?_
    · rintro s ⟨counter, array, sqes, rfl⟩
      exact ⟨[], ⟨⟨.nil size counter sqes, .nil size counter array⟩, trivial, rfl⟩, rfl⟩
    · rintro s e t _ ⟨q, hinv, hlength⟩ ⟨hnext, hprompt⟩
      obtain ⟨q', hinv', hstep⟩ := hinv.step hnext
      have hmoved := hstep hprompt
      exact ⟨q', hinv', by omega⟩
  obtain ⟨q, hinv, hlength⟩ := hinv
  rw [hidle] at hlength
  have hlog : s.consumed ++ [] ++ [] = s.submitted.map Submission.entry := by
    have hlog := hinv.log
    rwa [List.length_eq_zero_iff.mp hlength, hidle] at hlog
  rwa [List.append_nil, List.append_nil] at hlog

/-- The submission ring is a queue.  Wherever the counters started and however
often they have wrapped, they are at most the number of entries apart,
`ring_get_sqe` returns no slot that the kernel has still to read, and the
entries the kernel has taken, those it would find in the ring and the one not
yet handed over are those of the calls of `submit_request`, in order.  A kernel
that takes an entry whenever it is asked to has taken all of them between two
calls. -/
theorem submissions_fifo {size : RingSize 32} {s : State}
    (hs : (system size).Reachable s) :
    s.ring.tail - s.ring.head ≤ size.entries ∧
    (∀ sqe, ringGetSqe size s.ring = some sqe →
      ∀ i < (s.ring.tail - s.ring.head).toNat,
        s.ring.array (size.slot (past s.ring.head i)) ≠ sqe) ∧
    s.consumed ++ s.ring.unconsumed size ++ s.pc.pending =
      s.submitted.map Submission.entry ∧
    (((system size).restrict fun _ e => e.Prompt).Reachable s → s.pc = .idle →
      s.consumed = s.submitted.map Submission.entry) := by
  obtain ⟨q, hinv⟩ := reachable_inv hs
  have hdistance : (s.ring.tail - s.ring.head).toNat = q.length :=
    hinv.holds.sqes.distance
  refine ⟨hinv.holds.fits, ?_, ?_, prompt_consumed⟩
  · intro sqe hget i hi
    exact hinv.holds.ringGetSqe_fresh hget (hdistance ▸ hi)
  · rw [hinv.holds.unconsumed]
    exact hinv.log

/-- Two entries. -/
def pair : RingSize 32 where
  entries := 2
  mask := 1
  pow := ⟨1, rfl⟩
  mask_eq := rfl

/-- The counters wrap while two requests are handed over and the kernel lags by
one. -/
theorem submissions_fifo_wrapped : ∃ s, (system pair).Reachable s ∧
    s.ring.tail = 1 ∧ s.consumed.map Sqe.userData = [10] ∧
    s.consumed ++ s.ring.unconsumed pair ++ s.pc.pending =
      s.submitted.map Submission.entry := by
  have h₀ : (system pair).Reachable
      (started (BitVec.allOnes 32) (fun _ => 0) fun _ => ⟨0, .accept, 0, none, 0⟩) :=
    .start ⟨_, _, _, rfl⟩
  have h₁ := h₀.step (e := Event.submit ⟨10, ⟨.accept, 3, none⟩, 0⟩) rfl
  have h₂ := ((h₁.step (e := Event.getSqe) rfl).step (e := Event.fill) rfl).step
    (e := Event.index) rfl
  have h₃ := (h₂.step (e := Event.publish) rfl).step (e := Event.enter false none) rfl
  have h₄ := h₃.step (e := Event.submit ⟨11, ⟨.recv, 4, some 7⟩, 0⟩) rfl
  have h₅ := ((h₄.step (e := Event.getSqe) rfl).step (e := Event.fill) rfl).step
    (e := Event.index) rfl
  have h₆ := (h₅.step (e := Event.publish) rfl).step (e := Event.enter true none) rfl
  exact ⟨_, h₆, rfl, rfl, (submissions_fifo h₆).2.2.1⟩

end SysLab.PartB.SubmissionRing
