import SysLab.Foundation.Buffer
import SysLab.Foundation.Descriptor
import SysLab.Foundation.Loop
import SysLab.PartB.Syscall

/-!
# The buffered reader of `parta_bench`

`my_file_t`, `my_fopen_fd` and `my_fread_bytes` of `main.c`, the last one pass
of its `while` loop at a time.

The invariant is `Faithful`: what earlier calls returned, then what this one
has copied out, then what lies in the buffer, is what has been read from the
descriptor.
-/

namespace SysLab.PartA

open SysLab.Foundation
open SysLab.PartB (Errno Exit)

/-- `my_file_t`, with the open file that `fd` stands for. -/
structure MyFile (capacity : Nat) where
  fd : Descriptor UInt8
  buffer : Buffer UInt8 capacity
  beginAt : Nat
  endAt : Nat

variable {capacity : Nat}

/-- `my_fopen_fd`; the buffer is as `malloc` returned it. -/
def myFopenFd (fd : Descriptor UInt8) (buffer : Buffer UInt8 capacity) :
    MyFile capacity :=
  ⟨fd, buffer, 0, 0⟩

/-- `file->end - file->begin`. -/
def MyFile.available (file : MyFile capacity) : Nat := file.endAt - file.beginAt

/-- `buffer[begin..end)`. -/
def MyFile.buffered (file : MyFile capacity) : List UInt8 :=
  file.buffer.window file.beginAt file.endAt

/-- A `read` has returned `bytes`. -/
def MyFile.refill (file : MyFile capacity) (bytes : List UInt8) : MyFile capacity :=
  { file with
    buffer := file.buffer.store bytes
    beginAt := 0
    endAt := bytes.length }

/-- A call of `my_fread_bytes` under way; `out` is `out[0 .. bytes_read)`. -/
structure Fread (capacity : Nat) where
  file : MyFile capacity
  bytesRequested : Nat
  out : List UInt8

namespace Fread

/-- `my_fread_bytes` is called. -/
def call (file : MyFile capacity) (bytesRequested : Nat) : Fread capacity :=
  ⟨file, bytesRequested, []⟩

/-- `to_copy`. -/
def toCopy (s : Fread capacity) : Nat :=
  min (s.bytesRequested - s.out.length) s.file.available

/-- The `memcpy` and the two additions after it. -/
def copy (s : Fread capacity) : Fread capacity :=
  { s with
    out := s.out ++ s.file.buffer.window s.file.beginAt (s.file.beginAt + s.toCopy)
    file := { s.file with beginAt := s.file.beginAt + s.toCopy } }

/-- `read` has moved the file offset. -/
def moved (s : Fread capacity) (fd : Descriptor UInt8) : Fread capacity :=
  { s with file := { s.file with fd := fd } }

/-- `read` has returned `bytes`, at least one. -/
def refilled (s : Fread capacity) (fd : Descriptor UInt8) (bytes : List UInt8) :
    Fread capacity :=
  { s with file := { s.file with fd := fd }.refill bytes }

/-- One pass of the `while` loop. -/
def pass (schedule : Nat → Answer Errno) (s : Fread capacity) :
    Progress (Fread capacity) (Except Exit (Fread capacity)) :=
  if s.out.length < s.bytesRequested then
    if s.file.available = 0 then
      match s.file.fd.read schedule capacity with
      | (.error e, fd) =>
          if e = .EINTR then .again (s.moved fd) else .done (.error ⟨"read", e⟩)
      | (.ok [], fd) => .done (.ok (s.moved fd))
      | (.ok (byte :: bytes), fd) => .again (s.refilled fd (byte :: bytes)).copy
    else .again s.copy
  else .done (.ok s)

/-! ## What a pass does -/

/-- The ways a pass can go. -/
inductive Outcome (schedule : Nat → Answer Errno) (s : Fread capacity) :
    Progress (Fread capacity) (Except Exit (Fread capacity)) → Prop
  | full : s.bytesRequested ≤ s.out.length → Outcome schedule s (.done (.ok s))
  | copied : s.out.length < s.bytesRequested → 0 < s.file.available →
      Outcome schedule s (.again s.copy)
  | interrupted {fd : Descriptor UInt8} : s.file.available = 0 →
      s.file.fd.read schedule capacity = (.error .EINTR, fd) →
      Outcome schedule s (.again (s.moved fd))
  | failed {e : Errno} {fd : Descriptor UInt8} : e ≠ .EINTR →
      s.file.fd.read schedule capacity = (.error e, fd) →
      Outcome schedule s (.done (.error ⟨"read", e⟩))
  | ended {fd : Descriptor UInt8} : s.file.available = 0 →
      s.file.fd.read schedule capacity = (.ok [], fd) →
      Outcome schedule s (.done (.ok (s.moved fd)))
  | refilled {bytes : List UInt8} {fd : Descriptor UInt8} : bytes ≠ [] →
      s.out.length < s.bytesRequested → s.file.available = 0 →
      s.file.fd.read schedule capacity = (.ok bytes, fd) →
      Outcome schedule s (.again (s.refilled fd bytes).copy)

theorem pass_outcome (schedule : Nat → Answer Errno) (s : Fread capacity) :
    Outcome schedule s (s.pass schedule) := by
  unfold pass
  by_cases hmore : s.out.length < s.bytesRequested
  · rw [if_pos hmore]
    by_cases hempty : s.file.available = 0
    · rw [if_pos hempty]
      rcases hread : s.file.fd.read schedule capacity with ⟨e | _ | ⟨byte, bytes⟩, fd⟩
      · by_cases he : e = .EINTR
        · rw [he] at hread
          simpa only [he, if_true] using .interrupted hempty hread
        · simpa only [if_neg he] using .failed he hread
      · exact .ended hempty hread
      · exact .refilled (List.cons_ne_nil byte bytes) hmore hempty hread
    · rw [if_neg hempty]
      exact .copied hmore (Nat.pos_of_ne_zero hempty)
  · rw [if_neg hmore]
    exact .full (Nat.le_of_not_lt hmore)

/-- `returned` is what earlier calls have returned of the file `content`. -/
structure Faithful (content returned : List UInt8) (s : Fread capacity) : Prop where
  begin_le : s.file.beginAt ≤ s.file.endAt
  end_le : s.file.endAt ≤ capacity
  consumed : returned ++ s.out ++ s.file.buffered = s.file.fd.consumed
  content : s.file.fd.content = content
  out_le : s.out.length ≤ s.bytesRequested

/-- A call that returns short does so at the end of the file, the buffer
drained. -/
def Finished (s : Fread capacity) : Prop :=
  s.out.length < s.bytesRequested →
    s.file.beginAt = s.file.endAt ∧ s.file.fd.unread = []

section Pass

variable {schedule : Nat → Answer Errno} {content returned : List UInt8}
  {s t : Fread capacity}

theorem toCopy_le (s : Fread capacity) : s.toCopy ≤ s.file.endAt - s.file.beginAt :=
  Nat.min_le_right _ _

/-- Copying out moves a prefix of the buffered bytes. -/
theorem copy_out (hbegin : s.file.beginAt ≤ s.file.endAt) :
    s.copy.out = s.out ++ s.file.buffered.take s.toCopy := by
  have := s.toCopy_le
  rw [MyFile.buffered, Buffer.take_window _ (by omega)]
  rfl

theorem copy_buffered (s : Fread capacity) :
    s.copy.file.buffered = s.file.buffered.drop s.toCopy :=
  (Buffer.drop_window _ _ _ _).symm

theorem buffered_refilled {fd : Descriptor UInt8} {bytes : List UInt8}
    (h : bytes.length ≤ capacity) : (s.refilled fd bytes).file.buffered = bytes :=
  Buffer.window_store _ h

theorem buffered_nil (h : s.file.beginAt ≤ s.file.endAt) (hempty : s.file.available = 0) :
    s.file.buffered = [] := by
  rw [MyFile.available] at hempty
  have : s.file.beginAt = s.file.endAt := by omega
  rw [MyFile.buffered, this, Buffer.window_self]

theorem Faithful.copy (h : Faithful content returned s) :
    Faithful content returned s.copy := by
  have hle := s.toCopy_le
  have hbegin := h.begin_le
  have hout := copy_out hbegin
  refine ⟨?_, h.end_le, ?_, h.content, ?_⟩
  · show s.file.beginAt + s.toCopy ≤ s.file.endAt
    omega
  · show returned ++ s.copy.out ++ s.copy.file.buffered = s.file.fd.consumed
    rw [hout, copy_buffered, ← h.consumed]
    simp only [List.append_assoc, List.take_append_drop]
  · have hmore : s.toCopy ≤ s.bytesRequested - s.out.length := Nat.min_le_left _ _
    have hle' := h.out_le
    show s.copy.out.length ≤ s.bytesRequested
    rw [hout, List.length_append, List.length_take]
    omega

/-- `read` has handed out nothing. -/
theorem Faithful.moved {fd : Descriptor UInt8} (h : Faithful content returned s)
    (hconsumed : fd.consumed = s.file.fd.consumed)
    (hunread : fd.unread = s.file.fd.unread) :
    Faithful content returned (s.moved fd) := by
  refine ⟨h.begin_le, h.end_le, h.consumed.trans hconsumed.symm, ?_, h.out_le⟩
  rw [← h.content]
  show fd.consumed ++ fd.unread = s.file.fd.consumed ++ s.file.fd.unread
  rw [hconsumed, hunread]

/-- `read` has refilled the drained buffer. -/
theorem Faithful.refilled {fd : Descriptor UInt8} {bytes : List UInt8}
    (h : Faithful content returned s) (hempty : s.file.available = 0)
    (hread : s.file.fd.read schedule capacity = (.ok bytes, fd)) :
    Faithful content returned (s.refilled fd bytes) := by
  obtain ⟨hlen, hconsumed, hunread, _⟩ := Descriptor.read_ok hread
  refine ⟨Nat.zero_le _, hlen, ?_, ?_, h.out_le⟩
  · show returned ++ s.out ++ (s.refilled fd bytes).file.buffered = fd.consumed
    rw [buffered_refilled hlen, hconsumed, ← h.consumed,
      buffered_nil h.begin_le hempty, List.append_nil]
  · rw [← h.content]
    show fd.consumed ++ fd.unread = s.file.fd.consumed ++ s.file.fd.unread
    rw [hconsumed, hunread, List.append_assoc]

/-- The request stays as it was made. -/
theorem again_bytesRequested (hpass : s.pass schedule = .again t) :
    t.bytesRequested = s.bytesRequested := by
  have houtcome := pass_outcome schedule s
  rw [hpass] at houtcome
  cases houtcome <;> rfl

theorem done_bytesRequested (hpass : s.pass schedule = .done (.ok t)) :
    t.bytesRequested = s.bytesRequested := by
  have houtcome := pass_outcome schedule s
  rw [hpass] at houtcome
  cases houtcome <;> rfl

/-- A pass that goes round again keeps the invariant. -/
theorem Faithful.again (h : Faithful content returned s)
    (hpass : s.pass schedule = .again t) : Faithful content returned t := by
  have houtcome := pass_outcome schedule s
  rw [hpass] at houtcome
  cases houtcome with
  | copied _ _ => exact h.copy
  | interrupted _ hread =>
      obtain ⟨_, rfl⟩ := Descriptor.read_error hread
      exact h.moved rfl rfl
  | refilled _ _ hempty hread => exact (h.refilled hempty hread).copy

/-- So does the last one, and the call has not returned short without reason. -/
theorem Faithful.done (hcap : 0 < capacity) (h : Faithful content returned s)
    (hpass : s.pass schedule = .done (.ok t)) :
    Faithful content returned t ∧ t.Finished := by
  have houtcome := pass_outcome schedule s
  rw [hpass] at houtcome
  cases houtcome with
  | full hfull => exact ⟨h, fun hshort => absurd hfull (Nat.not_le_of_lt hshort)⟩
  | ended hempty hread =>
      obtain ⟨_, hconsumed, hunread, _, hend⟩ := Descriptor.read_ok hread
      rw [List.append_nil] at hconsumed
      refine ⟨h.moved hconsumed hunread.symm, fun _ => ⟨?_, ?_⟩⟩
      · exact Nat.le_antisymm h.begin_le (Nat.le_of_sub_eq_zero hempty)
      · exact hunread.symm.trans (hend rfl hcap)

/-! ## How long a call takes -/

/-- Work left for the loop: interruptions and bytes to be read, and bytes to be
copied, of which each byte read makes one more. -/
def effort (N : Nat) (s : Fread capacity) : Nat :=
  2 * s.file.fd.pending N + s.file.buffered.length

theorem length_buffered (h : Faithful content returned s) :
    s.file.buffered.length = s.file.available :=
  Buffer.length_window _ h.end_le

/-- There is something to copy. -/
theorem toCopy_pos (hmore : s.out.length < s.bytesRequested)
    (havail : 0 < s.file.available) : 0 < s.toCopy :=
  Nat.lt_min.mpr ⟨Nat.sub_pos_of_lt hmore, havail⟩

theorem effort_copy (N : Nat) (h : Faithful content returned s)
    (hmore : s.out.length < s.bytesRequested) (havail : 0 < s.file.available) :
    s.copy.effort N < s.effort N := by
  have hlen := length_buffered h
  have hpos := toCopy_pos hmore havail
  have hdrop : s.copy.file.buffered.length = s.file.buffered.length - s.toCopy := by
    rw [copy_buffered, List.length_drop]
  show 2 * s.file.fd.pending N + s.copy.file.buffered.length < s.effort N
  rw [hdrop, effort]
  omega

/-- Every pass that goes round again takes some of it off. -/
theorem effort_again {N : Nat} (hN : ∀ k e, schedule k = .fails e → k < N)
    (h : Faithful content returned s) (hpass : s.pass schedule = .again t) :
    t.effort N < s.effort N := by
  have houtcome := pass_outcome schedule s
  rw [hpass] at houtcome
  cases houtcome with
  | copied hmore havail => exact effort_copy N h hmore havail
  | @interrupted fd _ hread =>
      have hless := Descriptor.pending_error hN hread
      show 2 * fd.pending N + s.file.buffered.length < s.effort N
      rw [effort]
      omega
  | @refilled bytes fd hbytes hmore hempty hread =>
      have hfaithful := h.refilled hempty hread
      have hlen := (Descriptor.read_ok hread).1
      have hpos : 0 < bytes.length := List.length_pos_iff.mpr hbytes
      have hcopy := effort_copy N hfaithful hmore hpos
      have hpending := Descriptor.pending_ok (N := N) hread
      have hrefilled : (s.refilled fd bytes).effort N = 2 * fd.pending N + bytes.length := by
        rw [effort, buffered_refilled hlen]
        rfl
      have hsome : 2 * s.file.fd.pending N ≤ s.effort N := Nat.le_add_right _ _
      omega

/-- The last one adds nothing. -/
theorem effort_done {N : Nat} (hpass : s.pass schedule = .done (.ok t)) :
    t.effort N ≤ s.effort N := by
  have houtcome := pass_outcome schedule s
  rw [hpass] at houtcome
  cases houtcome with
  | full _ => exact Nat.le_refl _
  | @ended fd _ hread =>
      have hpending := Descriptor.pending_ok (N := N) hread
      show 2 * fd.pending N + s.file.buffered.length ≤ s.effort N
      rw [effort]
      omega

/-- No pass fails but by an error of `read`. -/
theorem pass_ne_error (hschedule : Answer.Interrupts schedule .EINTR) {e : Exit} :
    s.pass schedule ≠ .done (.error e) := by
  intro hpass
  have houtcome := pass_outcome schedule s
  rw [hpass] at houtcome
  cases houtcome with
  | failed he hread =>
      exact he (hschedule.only _ _ (Descriptor.read_error hread).1)

end Pass

end Fread

end SysLab.PartA
