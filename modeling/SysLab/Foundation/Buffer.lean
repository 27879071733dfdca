import Mathlib.Data.List.Basic

/-!
# Fixed-capacity buffers read through a window

A C array `T buffer[cap]` filled from offset `0` and drained through two
cursors is a `Buffer`: `cap` cells, so that no store can run past the end.
`window b i j` is the slice `b[i..j)`; the lemmas say what `store` puts into
a window, and that dropping a prefix of one advances its left cursor.
-/

namespace SysLab.Foundation

/-- An array of exactly `cap` cells. -/
structure Buffer (α : Type*) (cap : Nat) where
  cells : List α
  size_eq : cells.length = cap

namespace Buffer

variable {α : Type*} {cap : Nat}

/-- The buffer all of whose cells hold `x`. -/
def fill (cap : Nat) (x : α) : Buffer α cap := ⟨List.replicate cap x, by simp⟩

/-- Overwrite the cells from offset `0` by `xs`; what would run past the
capacity is not written. -/
def store (b : Buffer α cap) (xs : List α) : Buffer α cap where
  cells := xs.take cap ++ b.cells.drop xs.length
  size_eq := by
    have := b.size_eq
    simp only [List.length_append, List.length_take, List.length_drop]
    omega

/-- The slice `b[i..j)`. -/
def window (b : Buffer α cap) (i j : Nat) : List α := (b.cells.take j).drop i

@[simp] theorem window_self (b : Buffer α cap) (i : Nat) : b.window i i = [] := by
  simp [window]

theorem length_window (b : Buffer α cap) {i j : Nat} (hj : j ≤ cap) :
    (b.window i j).length = j - i := by
  have := b.size_eq
  simp only [window, List.length_drop, List.length_take]
  omega

/-- What fits in is what the window over it shows. -/
theorem window_store_take (b : Buffer α cap) (xs : List α) :
    (b.store xs).window 0 xs.length = xs.take cap := by
  have hsize := b.size_eq
  show (xs.take cap ++ b.cells.drop xs.length).take xs.length = xs.take cap
  by_cases h : xs.length ≤ cap
  · rw [List.take_of_length_le h, List.take_left]
  · rw [List.drop_eq_nil_of_le (by omega), List.append_nil,
      List.take_of_length_le (List.length_take_le' _ _)]

/-- What was stored is what the window over it shows. -/
theorem window_store (b : Buffer α cap) {xs : List α} (h : xs.length ≤ cap) :
    (b.store xs).window 0 xs.length = xs := by
  rw [window_store_take, List.take_of_length_le h]

/-- The first `n` elements of a window are the window over `n` cells. -/
theorem take_window (b : Buffer α cap) {i j n : Nat} (h : i + n ≤ j) :
    (b.window i j).take n = b.window i (i + n) := by
  rw [window, window, List.take_drop, List.take_take, Nat.min_eq_left h]

/-- Dropping `n` elements of a window advances its left cursor. -/
theorem drop_window (b : Buffer α cap) (i j n : Nat) :
    (b.window i j).drop n = b.window (i + n) j := by
  simp only [window, List.drop_drop]

end Buffer

end SysLab.Foundation
