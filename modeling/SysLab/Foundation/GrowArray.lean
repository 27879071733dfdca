import Mathlib.Algebra.Group.Nat.Defs
import Mathlib.Data.List.Basic

/-!
# Arrays that double

A C array that elements are appended to: when it is full, `realloc` gives it twice the
capacity.  Sizes are 64-bit numbers and wrap round, a block of memory has as many cells
as its bytes make up, and a store behind its last cell is noticed.

* `Holds.push` — an array that holds a list takes one element more, with all it held
  as it was and no store out of bounds, unless `realloc` refuses.
-/

namespace SysLab.Foundation

/-- `capacity`, `count` and the block, in which a cell that was never written is
`none`. -/
structure GrowArray (α : Type*) where
  capacity : Nat
  count : Nat
  cells : List (Option α)

namespace GrowArray

variable {α : Type*}

/-- The block with another number of cells. -/
def resize (cells : List (Option α)) (n : Nat) : List (Option α) :=
  cells.take n ++ List.replicate (n - cells.length) none

/-- An array that elements have not been stored in yet. -/
def empty (capacity : Nat) : GrowArray α := ⟨capacity, 0, resize [] capacity⟩

/-- What comes of an append. -/
inductive Push (α : Type*)
  | stored (a : GrowArray α)
  | refused
  | outOfBounds

/-- `cells[count++] = x`. -/
def store (a : GrowArray α) (x : α) : Push α :=
  if a.count < a.cells.length then
    .stored { a with
      cells := a.cells.set a.count (some x)
      count := (a.count + 1) % 2 ^ 64 }
  else .outOfBounds

/-- `capacity *= 2` and `realloc` to that many elements of a size; `realloc` says
whether it gives so many bytes. -/
def grow (realloc : Nat → Bool) (size : Nat) (a : GrowArray α) : Option (GrowArray α) :=
  let capacity := a.capacity * 2 % 2 ^ 64
  let bytes := capacity * size % 2 ^ 64
  if realloc bytes then
    some { a with
      capacity := capacity
      cells := resize a.cells (bytes / size) }
  else none

/-- The append. -/
def push (realloc : Nat → Bool) (size : Nat) (a : GrowArray α) (x : α) : Push α :=
  if a.count = a.capacity then
    match a.grow realloc size with
    | none => .refused
    | some a => a.store x
  else a.store x

/-- The array holds a list.  It has been doubled a number of times, and `realloc` gave
what was asked for. -/
structure Holds (realloc : Nat → Bool) (size initial : Nat) (a : GrowArray α)
    (xs : List α) : Prop where
  count : a.count = xs.length
  cells : a.cells.take a.count = xs.map some
  block : a.cells.length = a.capacity
  le : a.count ≤ a.capacity
  small : a.capacity * size < 2 ^ 63
  doubled : ∃ k, a.capacity = initial * 2 ^ k ∧
    ∀ j < k, realloc (initial * 2 ^ (j + 1) * size) = true

variable {realloc : Nat → Bool} {size initial : Nat} {a : GrowArray α} {xs : List α}

theorem length_resize (cells : List (Option α)) (n : Nat) : (resize cells n).length = n := by
  rw [resize, List.length_append, List.length_take, List.length_replicate]
  omega

theorem take_resize {cells : List (Option α)} {n m : Nat} (hm : m ≤ cells.length)
    (hn : m ≤ n) : (resize cells n).take m = cells.take m := by
  have hlength : m ≤ (cells.take n).length := by
    rw [List.length_take]
    omega
  rw [resize, List.take_append_of_le_length hlength, List.take_take, Nat.min_eq_left hn]

theorem holds_empty (hsmall : initial * size < 2 ^ 63) :
    Holds realloc size initial (empty initial) ([] : List α) where
  count := rfl
  cells := rfl
  block := length_resize [] initial
  le := Nat.zero_le initial
  small := hsmall
  doubled := ⟨0, (Nat.mul_one initial).symm, fun j hj => absurd hj (Nat.not_lt_zero j)⟩

/-- An array with that many elements has been given the memory for them. -/
theorem Holds.granted (h : Holds realloc size initial a xs) {k : Nat}
    (hk : initial * 2 ^ k < xs.length) : realloc (initial * 2 ^ (k + 1) * size) = true := by
  obtain ⟨n, hcapacity, hdoubled⟩ := h.doubled
  refine hdoubled k ?_
  have hless : initial * 2 ^ k < initial * 2 ^ n := by
    have hcount := h.count
    have hle := h.le
    omega
  exact (Nat.pow_lt_pow_iff_right (by decide)).mp (Nat.lt_of_mul_lt_mul_left hless)

/-- With a cell left the element is stored in it. -/
theorem Holds.store (h : Holds realloc size initial a xs) (hsize : 0 < size)
    (hroom : a.count < a.capacity) (x : α) :
    ∃ b, a.store x = .stored b ∧ Holds realloc size initial b (xs ++ [x]) ∧
      b.cells.take a.count = a.cells.take a.count ∧ b.capacity = a.capacity := by
  have hcell : a.count < a.cells.length := by
    rw [h.block]
    exact hroom
  have hcapacity : a.capacity ≤ a.capacity * size := Nat.le_mul_of_pos_right _ hsize
  have hcount : (a.count + 1) % 2 ^ 64 = a.count + 1 := by
    have := h.small
    omega
  have hkept : (a.cells.set a.count (some x)).take a.count = a.cells.take a.count :=
    List.take_set_of_le (Nat.le_refl a.count)
  refine ⟨_, if_pos hcell, ?_, hkept, rfl⟩
  refine ⟨?_, ?_, ?_, ?_, h.small, h.doubled⟩
  · show (a.count + 1) % 2 ^ 64 = (xs ++ [x]).length
    rw [hcount, h.count, List.length_append, List.length_singleton]
  · show (a.cells.set a.count (some x)).take ((a.count + 1) % 2 ^ 64) = (xs ++ [x]).map some
    rw [hcount, List.take_add_one, hkept, h.cells, List.getElem?_set_self hcell,
      List.map_append]
    rfl
  · show (a.cells.set a.count (some x)).length = a.capacity
    rw [List.length_set, h.block]
  · show (a.count + 1) % 2 ^ 64 ≤ a.capacity
    rw [hcount]
    exact hroom

/-- A full array gets twice its capacity, or `realloc` refuses that. -/
theorem Holds.grow (h : Holds realloc size initial a xs) (hsize : 0 < size)
    (hlimit : ∀ bytes, 2 ^ 63 ≤ bytes → realloc bytes = false) (hfull : a.count = a.capacity) :
    (∃ b, a.grow realloc size = some b ∧ Holds realloc size initial b xs ∧
      b.count = a.count ∧ b.cells.take a.count = a.cells.take a.count ∧
      b.capacity = a.capacity * 2) ∨
    (a.grow realloc size = none ∧
      ∃ k, xs.length = initial * 2 ^ k ∧ realloc (initial * 2 ^ (k + 1) * size) = false) := by
  obtain ⟨k, hcapacity, hdoubled⟩ := h.doubled
  have hsmall := h.small
  have hle : a.capacity ≤ a.capacity * size := Nat.le_mul_of_pos_right _ hsize
  have htwice : a.capacity * 2 % 2 ^ 64 = a.capacity * 2 := by omega
  have hmul : a.capacity * 2 * size = 2 * (a.capacity * size) := by
    rw [Nat.mul_right_comm, Nat.mul_comm]
  have hbytes : a.capacity * 2 * size % 2 ^ 64 = a.capacity * 2 * size := by omega
  have hnext : initial * 2 ^ (k + 1) = a.capacity * 2 := by
    rw [hcapacity, Nat.pow_succ, Nat.mul_assoc]
  unfold GrowArray.grow
  rw [htwice]
  dsimp only
  rw [hbytes]
  by_cases hgranted : realloc (a.capacity * 2 * size) = true
  · left
    have hcells : a.capacity * 2 * size / size = a.capacity * 2 := Nat.mul_div_cancel _ hsize
    rw [hcells]
    have hkept : (resize a.cells (a.capacity * 2)).take a.count = a.cells.take a.count := by
      refine take_resize ?_ (by omega)
      rw [h.block]
      exact h.le
    refine ⟨_, if_pos hgranted, ?_, rfl, hkept, rfl⟩
    refine ⟨h.count, hkept.trans h.cells, length_resize _ _, ?_, ?_, k + 1, hnext.symm, ?_⟩
    · show a.count ≤ a.capacity * 2
      omega
    · show a.capacity * 2 * size < 2 ^ 63
      by_contra hlarge
      rw [hlimit _ (Nat.not_lt.mp hlarge)] at hgranted
      cases hgranted
    · intro j hj
      rcases Nat.lt_succ_iff_lt_or_eq.mp hj with hless | rfl
      · exact hdoubled j hless
      · rwa [hnext]
  · right
    refine ⟨if_neg hgranted, k, ?_, ?_⟩
    · rw [← h.count, hfull, hcapacity]
    · rw [hnext]
      exact Bool.eq_false_iff.mpr hgranted

/-- The append: one element more, everything before it as it was, or `realloc` has
refused the next doubling. -/
theorem Holds.push (h : Holds realloc size initial a xs) (hsize : 0 < size)
    (hlimit : ∀ bytes, 2 ^ 63 ≤ bytes → realloc bytes = false) (hpos : 0 < initial) (x : α) :
    (∃ b, a.push realloc size x = .stored b ∧ Holds realloc size initial b (xs ++ [x]) ∧
      b.cells.take a.count = a.cells.take a.count ∧ a.count < b.capacity) ∨
    (a.push realloc size x = .refused ∧
      ∃ k, xs.length = initial * 2 ^ k ∧ realloc (initial * 2 ^ (k + 1) * size) = false) := by
  unfold GrowArray.push
  by_cases hfull : a.count = a.capacity
  · rw [if_pos hfull]
    rcases h.grow hsize hlimit hfull with ⟨b, hgrow, hb, hcount, hkept, hcapacity⟩ |
      ⟨hrefused, hwhy⟩
    · obtain ⟨k, hinitial, _⟩ := h.doubled
      have hcap : 0 < a.capacity := hinitial ▸ Nat.mul_pos hpos (Nat.two_pow_pos k)
      have hroom : b.count < b.capacity := by omega
      obtain ⟨c, hstore, hc, hkept', hcapacity'⟩ := hb.store hsize hroom x
      rw [hgrow]
      left
      refine ⟨c, hstore, hc, ?_, ?_⟩
      · rw [← hkept, ← hcount, hkept']
      · omega
    · rw [hrefused]
      exact .inr ⟨rfl, hwhy⟩
  · rw [if_neg hfull]
    have hroom : a.count < a.capacity := Nat.lt_of_le_of_ne h.le hfull
    obtain ⟨b, hstore, hb, hkept, hcapacity⟩ := h.store hsize hroom x
    exact .inl ⟨b, hstore, hb, hkept, hcapacity ▸ hroom⟩

end GrowArray

end SysLab.Foundation
