import Mathlib.Data.List.Basic

/-!
# Buffered output

A stream that writes to a file of its own what is printed to it, when it likes and as far
as the file takes it.  A write that fails loses some of what it should have written;
whoever prints need not notice.

* `Printed` — what the file and the buffer hold is part of what has been printed, and all
  of it while no write has failed.
* `Printed.close` — so does the file alone, when the stream has been closed.
-/

namespace SysLab.Foundation

/-- What the file holds, what waits to be written, and whether a write has failed. -/
structure OutputStream (α : Type*) where
  file : List α
  buffer : List α
  error : Bool

/-- What becomes of the buffer when something is printed: so many elements are written,
and of those that follow so many are lost. -/
structure Flush where
  taken : Nat
  lost : Nat

namespace OutputStream

variable {α : Type*} {s : OutputStream α} {printed : List α}

/-- The file has been opened, or emptied. -/
def opened : OutputStream α := ⟨[], [], false⟩

/-- Something is printed. -/
def print (flush : Flush) (text : List α) (s : OutputStream α) : OutputStream α where
  file := s.file ++ (s.buffer ++ text).take flush.taken
  buffer := (s.buffer ++ text).drop (flush.taken + flush.lost)
  error := s.error || decide (0 < flush.lost)

/-- The stream is closed: the rest is written, or so much of it before a write fails. -/
def close (fails : Option Nat) (s : OutputStream α) : OutputStream α :=
  match fails with
  | none => ⟨s.file ++ s.buffer, [], s.error⟩
  | some taken => ⟨s.file ++ s.buffer.take taken, [], true⟩

/-- Of what has been printed some may be lost, but nothing unless a write has failed. -/
structure Printed (printed : List α) (s : OutputStream α) : Prop where
  sublist : (s.file ++ s.buffer).Sublist printed
  whole : s.error = false → s.file ++ s.buffer = printed

theorem opened_printed : Printed ([] : List α) opened := ⟨List.Sublist.refl _, fun _ => rfl⟩

theorem Printed.print (h : Printed printed s) (flush : Flush) (text : List α) :
    Printed (printed ++ text) (s.print flush text) := by
  have hbuffer : ((s.buffer ++ text).take flush.taken ++
      (s.buffer ++ text).drop (flush.taken + flush.lost)).Sublist (s.buffer ++ text) := by
    have hdrop := List.drop_sublist flush.lost ((s.buffer ++ text).drop flush.taken)
    rw [List.drop_drop] at hdrop
    have hall := hdrop.append_left ((s.buffer ++ text).take flush.taken)
    rwa [List.take_append_drop] at hall
  constructor
  · show (s.file ++ _ ++ _).Sublist _
    rw [List.append_assoc]
    refine (hbuffer.append_left s.file).trans ?_
    rw [← List.append_assoc]
    exact h.sublist.append_right text
  · intro herror
    obtain ⟨hbefore, hlost⟩ := Bool.or_eq_false_iff.mp herror
    have hnone : flush.lost = 0 := Nat.eq_zero_of_not_pos (of_decide_eq_false hlost)
    show s.file ++ _ ++ (s.buffer ++ text).drop (flush.taken + flush.lost) = _
    rw [hnone, Nat.add_zero, List.append_assoc, List.take_append_drop, ← List.append_assoc,
      h.whole hbefore]

/-- A write that loses nothing has not failed. -/
theorem print_error {flush : Flush} (hlost : flush.lost = 0) (text : List α) :
    (s.print flush text).error = s.error := by
  show (s.error || decide (0 < flush.lost)) = s.error
  rw [hlost]
  exact Bool.or_false s.error

/-- What the file holds in the end. -/
theorem Printed.close (h : Printed printed s) (fails : Option Nat) :
    (s.close fails).file.Sublist printed ∧
      ((s.close fails).error = false → (s.close fails).file = printed) := by
  cases fails with
  | none => exact ⟨h.sublist, h.whole⟩
  | some taken =>
      refine ⟨?_, fun herror => by cases herror⟩
      exact ((List.take_sublist taken s.buffer).append_left s.file).trans h.sublist

/-- While no write has failed, the file holds the beginning. -/
theorem Printed.isPrefix (h : Printed printed s) (herror : s.error = false) :
    s.file <+: printed := ⟨s.buffer, h.whole herror⟩

end OutputStream

end SysLab.Foundation
