import Mathlib.Algebra.GroupWithZero.Nat
import Mathlib.Data.List.SplitLengths
import SysLab.PartA.MyFread

/-!
# Any sequence of calls on a `my_file_t`

The caller asks for one size after the other; the passes of all these calls
make one nested loop.

`splitLengths` is the specification: the calls cut the file, in order, into
pieces of the sizes asked for, shorter at its end.
-/

namespace SysLab.PartA

open SysLab.Foundation
open SysLab.PartB (Errno Exit)

variable {capacity : Nat}

/-- The calls made on one file: the sizes `asked` for and what was `returned`,
call by call, and the sizes still to be asked for. -/
structure Calls where
  asked : List Nat
  returned : List (List UInt8)
  todo : List Nat

/-- A call has returned. -/
def Calls.record (c : Calls) (s : Fread capacity) : Calls :=
  { c with
    asked := c.asked ++ [s.bytesRequested]
    returned := c.returned ++ [s.out] }

/-- The next call is made, if there is one. -/
def Calls.proceed (c : Calls) (file : MyFile capacity) :
    Progress (Calls × Fread capacity) (Except Exit (Calls × MyFile capacity)) :=
  match c.todo with
  | [] => .done (.ok (c, file))
  | size :: todo => .again ({ c with todo := todo }, .call file size)

/-- On from a call. -/
def Calls.next (c : Calls) : Except Exit (Fread capacity) →
    Progress (Calls × Fread capacity) (Except Exit (Calls × MyFile capacity))
  | .error exit => .done (.error exit)
  | .ok s => (c.record s).proceed s.file

/-- The calls that ask for `size`, then for each of `sizes`. -/
def Calls.start (file : MyFile capacity) (size : Nat) (sizes : List Nat) :
    Calls × Fread capacity :=
  (⟨[], [], sizes⟩, .call file size)

/-- At most `n` passes of the loops of these calls. -/
def Calls.run (schedule : Nat → Answer Errno) (n : Nat) :
    Calls × Fread capacity →
      Progress (Calls × Fread capacity) (Except Exit (Calls × MyFile capacity)) :=
  Loop.run (Loop.nest (Fread.pass schedule) Calls.next) n

/-! ## The pieces of a file -/

section Pieces

variable {α : Type*}

theorem flatten_pieces (sizes : List Nat) (xs : List α) :
    (sizes.splitLengths xs).flatten = xs.take sizes.sum := by
  induction sizes generalizing xs with
  | nil => rw [List.splitLengths_nil, List.sum_nil, List.take_zero, List.flatten_nil]
  | cons size sizes ih =>
      rw [List.splitLengths_cons, List.flatten_cons, ih, List.sum_cons, List.take_add]

theorem pieces_concat (sizes : List Nat) (size : Nat) (xs : List α) :
    (sizes ++ [size]).splitLengths xs =
      sizes.splitLengths xs ++ [(xs.drop sizes.sum).take size] := by
  induction sizes generalizing xs with
  | nil => simp
  | cons first sizes ih =>
      rw [List.cons_append, List.splitLengths_cons, ih, List.splitLengths_cons,
        List.cons_append, List.drop_drop, List.sum_cons]

end Pieces

/-! ## The invariant -/

namespace Calls

/-- Between two calls: each call made returned its piece, and what the buffer
holds comes next. -/
structure Between (content : List UInt8) (sizes : List Nat) (c : Calls)
    (file : MyFile capacity) : Prop where
  begin_le : file.beginAt ≤ file.endAt
  end_le : file.endAt ≤ capacity
  consumed : c.returned.flatten ++ file.buffered = file.fd.consumed
  returned : c.returned = c.asked.splitLengths content
  sizes : c.asked ++ c.todo = sizes
  content : file.fd.content = content

/-- During a call. -/
structure Inv (content : List UInt8) (sizes : List Nat) (x : Calls × Fread capacity) :
    Prop where
  faithful : x.2.Faithful content x.1.returned.flatten
  returned : x.1.returned = x.1.asked.splitLengths content
  sizes : x.1.asked ++ x.2.bytesRequested :: x.1.todo = sizes

section Run

variable {content : List UInt8} {sizes todo : List Nat} {size : Nat}
  {schedule : Nat → Answer Errno} {c : Calls} {s t : Fread capacity}
  {file : MyFile capacity}

theorem Between.call (h : Between content sizes c file) (htodo : c.todo = size :: todo) :
    Inv content sizes ({ c with todo := todo }, .call file size) := by
  refine ⟨⟨h.begin_le, h.end_le, ?_, h.content, Nat.zero_le _⟩, h.returned, ?_⟩
  · show c.returned.flatten ++ [] ++ file.buffered = file.fd.consumed
    rw [List.append_nil, h.consumed]
  · rw [← h.sizes, htodo]
    rfl

/-- What a call that is through has copied out is its piece. -/
theorem Inv.piece (h : Inv content sizes (c, s))
    (ht : t.Faithful content c.returned.flatten) (hfinished : t.Finished) :
    t.out = (content.drop c.asked.sum).take t.bytesRequested := by
  have hcut : content.take c.asked.sum ++ content.drop c.asked.sum =
      content.take c.asked.sum ++ (t.out ++ t.file.buffered ++ t.file.fd.unread) := by
    rw [List.take_append_drop, ← flatten_pieces, ← h.returned]
    conv_lhs => rw [← ht.content, Descriptor.content, ← ht.consumed]
    simp only [List.append_assoc]
  rw [List.append_cancel_left hcut]
  by_cases hshort : t.out.length < t.bytesRequested
  · obtain ⟨hdrained, hend⟩ := hfinished hshort
    rw [MyFile.buffered, hdrained, Buffer.window_self, hend, List.append_nil,
      List.append_nil, List.take_of_length_le (Nat.le_of_lt hshort)]
  · have hfull : t.out.length = t.bytesRequested :=
      Nat.le_antisymm ht.out_le (Nat.le_of_not_lt hshort)
    rw [List.append_assoc, ← hfull, List.take_left]

theorem Inv.record (hcap : 0 < capacity) (h : Inv content sizes (c, s))
    (hpass : s.pass schedule = .done (.ok t)) :
    Between content sizes (c.record t) t.file := by
  obtain ⟨hfaithful, hfinished⟩ := h.faithful.done hcap hpass
  refine ⟨hfaithful.begin_le, hfaithful.end_le, ?_, ?_, ?_, hfaithful.content⟩
  · show (c.returned ++ [t.out]).flatten ++ t.file.buffered = t.file.fd.consumed
    rw [← hfaithful.consumed, List.flatten_append, List.flatten_singleton]
  · show c.returned ++ [t.out] = (c.asked ++ [t.bytesRequested]).splitLengths content
    rw [pieces_concat, ← h.returned, h.piece hfaithful hfinished]
  · show c.asked ++ [t.bytesRequested] ++ c.todo = sizes
    rw [Fread.done_bytesRequested hpass, ← h.sizes, List.append_assoc]
    rfl

theorem proceed_again {x : Calls × Fread capacity} (h : c.proceed file = .again x) :
    ∃ size todo, c.todo = size :: todo ∧
      x = ({ c with todo := todo }, .call file size) := by
  rcases htodo : c.todo with _ | ⟨size, todo⟩
  · rw [proceed, htodo] at h
    cases h
  · rw [proceed, htodo] at h
    cases h
    exact ⟨size, todo, rfl, rfl⟩

theorem proceed_done {r : Except Exit (Calls × MyFile capacity)}
    (h : c.proceed file = .done r) : c.todo = [] ∧ r = .ok (c, file) := by
  rcases htodo : c.todo with _ | ⟨size, todo⟩
  · rw [proceed, htodo] at h
    cases h
    exact ⟨rfl, rfl⟩
  · rw [proceed, htodo] at h
    cases h

/-- A pass of the nested loop that goes round again is one of the call under
way, or makes the next call. -/
theorem again_cases {x : Calls × Fread capacity}
    (h : Loop.nest (Fread.pass schedule) next (c, s) = .again x) :
    (∃ t, s.pass schedule = .again t ∧ x = (c, t)) ∨
      ∃ t size todo, s.pass schedule = .done (.ok t) ∧
        c.todo = size :: todo ∧
        x = ({ c.record t with todo := todo }, .call t.file size) := by
  rcases Loop.nest_eq_again h with ⟨t, hpass, rfl⟩ | ⟨e | t, hpass, hnext⟩
  · exact .inl ⟨t, hpass, rfl⟩
  · cases hnext
  · obtain ⟨size, todo, htodo, rfl⟩ := proceed_again hnext
    exact .inr ⟨t, size, todo, hpass, htodo, rfl⟩

theorem Inv.again (hcap : 0 < capacity) {x y : Calls × Fread capacity}
    (h : Inv content sizes x)
    (hpass : Loop.nest (Fread.pass schedule) next x = .again y) :
    Inv content sizes y := by
  obtain ⟨c, s⟩ := x
  rcases again_cases hpass with ⟨t, hagain, rfl⟩ | ⟨t, size, todo, hdone, htodo, rfl⟩
  · refine ⟨h.faithful.again hagain, h.returned, ?_⟩
    rw [← h.sizes, ← Fread.again_bytesRequested hagain]
  · exact (h.record hcap hdone).call htodo

theorem Inv.done (hcap : 0 < capacity) {x : Calls × Fread capacity}
    (h : Inv content sizes x)
    (hpass : Loop.nest (Fread.pass schedule) next x = .done (.ok (c, file))) :
    Between content sizes c file ∧ c.todo = [] := by
  obtain ⟨c, s⟩ := x
  obtain ⟨e | t, hdone, hnext⟩ := Loop.nest_eq_done hpass
  · cases hnext
  · obtain ⟨htodo, hresult⟩ := proceed_done hnext
    cases hresult
    exact ⟨h.record hcap hdone, htodo⟩

/-- Calls made and loop passes left in the call under way. -/
def effort (N : Nat) (x : Calls × Fread capacity) : Nat :=
  x.1.todo.length + x.2.effort N

theorem effort_again {N : Nat} (hN : ∀ k e, schedule k = .fails e → k < N)
    {x y : Calls × Fread capacity} (h : Inv content sizes x)
    (hpass : Loop.nest (Fread.pass schedule) next x = .again y) :
    effort N y < effort N x := by
  obtain ⟨c, s⟩ := x
  rcases again_cases hpass with ⟨t, hagain, rfl⟩ | ⟨t, size, todo, hdone, htodo, rfl⟩
  · exact Nat.add_lt_add_left (Fread.effort_again hN h.faithful hagain) _
  · have hless := Fread.effort_done (N := N) hdone
    show todo.length + t.effort N < c.todo.length + s.effort N
    rw [htodo, List.length_cons]
    omega

/-- The passes of all calls come to an end. -/
theorem exists_result (hschedule : Answer.Interrupts schedule .EINTR)
    (hcap : 0 < capacity) {x : Calls × Fread capacity} (h : Inv content sizes x) :
    ∃ n c file, run schedule n x = .done (.ok (c, file)) := by
  obtain ⟨N, hN⟩ := Descriptor.interrupts_bound hschedule
  have hagain : ∀ x y, Inv content sizes x →
      Loop.nest (Fread.pass schedule) next x = .again y →
      Inv content sizes y ∧ effort N y < effort N x :=
    fun _ _ hinv hpass => ⟨hinv.again hcap hpass, effort_again hN hinv hpass⟩
  have hdone : ∀ (x : Calls × Fread capacity) r, Inv content sizes x →
      Loop.nest (Fread.pass schedule) next x = .done r → ∃ y, r = .ok y := by
    rintro ⟨c, s⟩ r _ hpass
    obtain ⟨e | t, hdone, hnext⟩ := Loop.nest_eq_done hpass
    · exact absurd hdone (Fread.pass_ne_error hschedule)
    · exact ⟨_, (proceed_done hnext).2⟩
  obtain ⟨n, _, hrun, ⟨c, file⟩, rfl⟩ := Loop.exists_done (effort N) hagain hdone h
  exact ⟨n, c, file, hrun⟩

theorem start_inv (content : List UInt8) (buffer : Buffer UInt8 capacity) (size : Nat)
    (sizes : List Nat) :
    Inv content (size :: sizes) (start (myFopenFd (.opened content) buffer) size sizes) := by
  have hopened : Between content (size :: sizes) ⟨[], [], size :: sizes⟩
      (myFopenFd (.opened content) buffer) := by
    refine ⟨Nat.le_refl 0, Nat.zero_le _, ?_, rfl, rfl, Descriptor.content_opened content⟩
    show [] ++ buffer.window 0 0 = []
    rw [Buffer.window_self, List.append_nil]
  exact hopened.call rfl

/-- At every moment of the calls the invariant holds, and at their end what it
comes to. -/
theorem run_inv (hcap : 0 < capacity) {x : Calls × Fread capacity}
    (h : Inv content sizes x) (n : Nat) :
    (∀ y, run schedule n x = .again y → Inv content sizes y) ∧
      ∀ c file, run schedule n x = .done (.ok (c, file)) →
        Between content sizes c file ∧ c.todo = [] := by
  have hagain : ∀ x y, Inv content sizes x →
      Loop.nest (Fread.pass schedule) next x = .again y → Inv content sizes y :=
    fun _ _ hinv hpass => hinv.again hcap hpass
  have hdone : ∀ x r, Inv content sizes x →
      Loop.nest (Fread.pass schedule) next x = .done r →
      ∀ (c : Calls) (file : MyFile capacity), r = .ok (c, file) →
        Between content sizes c file ∧ c.todo = [] :=
    fun _ _ hinv hpass c file hr => hinv.done hcap (hr ▸ hpass)
  obtain ⟨hmoment, hend⟩ := Loop.run_inv hagain hdone n h
  exact ⟨hmoment, fun c file hrun => hend _ hrun c file rfl⟩

end Run

end Calls

/-- A file read through `my_fread_bytes` is seen as it is.  At every moment of
any sequence of calls the cursors are in order, what has been returned and what
is buffered make up what has been consumed, each call that is through returned
its piece of the file, and one that is through returned short only with the
buffer drained at the end of the file; and unless `read` fails otherwise than by
finitely many interruptions the calls all return. -/
theorem fread_slices (hcap : 0 < capacity) (content : List UInt8)
    (buffer : Buffer UInt8 capacity) (size : Nat) (sizes : List Nat)
    (schedule : Nat → Answer Errno) :
    let start := Calls.start (myFopenFd (.opened content) buffer) size sizes
    (∀ n c s, Calls.run schedule n start = .again (c, s) →
      (s.file.beginAt ≤ s.file.endAt ∧ s.file.endAt ≤ capacity) ∧
      c.returned.flatten ++ s.out ++ s.file.buffered = s.file.fd.consumed ∧
      s.file.fd.consumed ++ s.file.fd.unread = content ∧
      c.returned = c.asked.splitLengths content ∧
      c.asked ++ s.bytesRequested :: c.todo = size :: sizes ∧
      ∀ t, s.pass schedule = .done (.ok t) → t.out.length < t.bytesRequested →
        t.file.buffered = [] ∧ t.file.fd.consumed = content) ∧
    (∀ n c file, Calls.run schedule n start = .done (.ok (c, file)) →
      (file.beginAt ≤ file.endAt ∧ file.endAt ≤ capacity) ∧
      c.returned.flatten ++ file.buffered = file.fd.consumed ∧
      file.fd.consumed ++ file.fd.unread = content ∧
      c.returned = (size :: sizes).splitLengths content) ∧
    (Answer.Interrupts schedule .EINTR →
      ∃ n c file, Calls.run schedule n start = .done (.ok (c, file))) := by
  intro start
  have hstart : Calls.Inv content (size :: sizes) start :=
    Calls.start_inv content buffer size sizes
  refine ⟨?_, ?_, fun hschedule => Calls.exists_result hschedule hcap hstart⟩
  · intro n c s hrun
    have hinv := (Calls.run_inv hcap hstart n).1 (c, s) hrun
    have hfaithful := hinv.faithful
    refine ⟨⟨hfaithful.begin_le, hfaithful.end_le⟩, hfaithful.consumed, hfaithful.content,
      hinv.returned, hinv.sizes, ?_⟩
    intro t hpass hshort
    obtain ⟨ht, hfinished⟩ := hfaithful.done hcap hpass
    obtain ⟨hdrained, hend⟩ := hfinished hshort
    constructor
    · rw [MyFile.buffered, hdrained, Buffer.window_self]
    · rw [← ht.content, Descriptor.content, hend, List.append_nil]
  · intro n c file hrun
    obtain ⟨hbetween, htodo⟩ := (Calls.run_inv hcap hstart n).2 c file hrun
    have hsizes : c.asked = size :: sizes := by
      rw [← hbetween.sizes, htodo, List.append_nil]
    exact ⟨⟨hbetween.begin_le, hbetween.end_le⟩, hbetween.consumed, hbetween.content,
      hsizes ▸ hbetween.returned⟩

/-- Three calls through a buffer of three bytes; the second starts with a
leftover and is interrupted. -/
theorem fread_slices_three :
    ∃ n c file, Calls.run (.once .EINTR 1 (4 - ·)) n
        (Calls.start (myFopenFd (.opened [1, 2, 3, 4, 5, 6, 7]) (.fill 3 0)) 2 [4, 3]) =
      .done (.ok (c, file)) ∧ c.returned = [[1, 2], [3, 4, 5, 6], [7]] := by
  have h := fread_slices (by decide : 0 < 3) [1, 2, 3, 4, 5, 6, 7] (.fill 3 0) 2 [4, 3]
    (.once .EINTR 1 (4 - ·))
  obtain ⟨n, c, file, hrun⟩ := h.2.2 (Answer.once_interrupts _ _ _)
  exact ⟨n, c, file, hrun, (h.2.1 n c file hrun).2.2.2⟩

end SysLab.PartA
