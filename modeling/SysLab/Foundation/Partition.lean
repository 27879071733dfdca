import Mathlib.Algebra.BigOperators.Ring.Finset
import Mathlib.Algebra.Order.BigOperators.Group.Finset
import Mathlib.Data.Set.Function

/-!
# Segments of a range

Segments of given lengths, one after the other from zero on, and the even division of
a range into so many segments.

* `exists_segment`, `segment_unique` — every number below the end of the last segment
  lies in exactly one.
* `bijOn_cell` — the same when each element is a row of so many cells.
* `start_share` — the even segments of a range end with it.
-/

namespace SysLab.Foundation

/-- Where segment `i` begins. -/
def start (count : Nat → Nat) (i : Nat) : Nat := ∑ j ∈ Finset.range i, count j

section Segments

variable {count : Nat → Nat} {n i i' j j' : Nat}

theorem start_succ (count : Nat → Nat) (i : Nat) :
    start count (i + 1) = start count i + count i := Finset.sum_range_succ count i

/-- A segment ends before a later one begins. -/
theorem segment_le (count : Nat → Nat) (h : i < n) : start count i + count i ≤ start count n := by
  rw [← start_succ]
  exact Finset.sum_le_sum_of_subset (Finset.range_mono h)

theorem start_mul (count : Nat → Nat) (width i : Nat) :
    start (fun i => count i * width) i = start count i * width :=
  (Finset.sum_mul (Finset.range i) count width).symm

theorem exists_segment {k : Nat} (h : k < start count n) :
    ∃ i < n, ∃ j < count i, start count i + j = k := by
  induction n with
  | zero => exact absurd h (Nat.not_lt_zero k)
  | succ n ih =>
      rw [start_succ] at h
      by_cases hlast : k < start count n
      · obtain ⟨i, hi, hj⟩ := ih hlast
        exact ⟨i, Nat.lt_succ_of_lt hi, hj⟩
      · exact ⟨n, Nat.lt_succ_self n, k - start count n, by omega, by omega⟩

theorem segment_unique (count : Nat → Nat) (hj : j < count i) (hj' : j' < count i')
    (h : start count i + j = start count i' + j') : i = i' ∧ j = j' := by
  have hi : i = i' := by
    rcases Nat.lt_trichotomy i i' with hlt | heq | hlt
    · have := segment_le count hlt
      omega
    · exact heq
    · have := segment_le count hlt
      omega
  subst hi
  exact ⟨rfl, by omega⟩

end Segments

/-! ## Rows -/

/-- Cell `r` in row `j` of segment `i`, all rows being `width` cells wide. -/
def cell (count : Nat → Nat) (width : Nat) (x : Nat × Nat × Nat) : Nat :=
  (start count x.1 + x.2.1) * width + x.2.2

/-- Each cell has its own number, and no number is left out. -/
theorem bijOn_cell (count : Nat → Nat) (width n : Nat) :
    Set.BijOn (cell count width) {x | x.1 < n ∧ x.2.1 < count x.1 ∧ x.2.2 < width}
      (Set.Iio (start count n * width)) := by
  refine ⟨?_, ?_, ?_⟩
  · rintro ⟨i, j, r⟩ ⟨hi, hj, hr⟩
    have hrow : start count i + j + 1 ≤ start count n :=
      Nat.le_trans (Nat.add_le_add_left hj _) (segment_le count hi)
    calc (start count i + j) * width + r < (start count i + j) * width + width :=
          Nat.add_lt_add_left hr _
      _ = (start count i + j + 1) * width := (Nat.succ_mul _ _).symm
      _ ≤ start count n * width := Nat.mul_le_mul_right width hrow
  · rintro ⟨i, j, r⟩ ⟨_, hj, hr⟩ ⟨i', j', r'⟩ ⟨_, hj', hr'⟩ heq
    dsimp only [cell] at hj hj' hr hr' heq
    have hdiv : ∀ q s, s < width → (q * width + s) / width = q := by
      intro q s hs
      rw [Nat.mul_comm, Nat.mul_add_div (Nat.zero_lt_of_lt hs), Nat.div_eq_of_lt hs,
        Nat.add_zero]
    have hrow : start count i + j = start count i' + j' := by
      rw [← hdiv (start count i + j) r hr, heq, hdiv (start count i' + j') r' hr']
    obtain ⟨rfl, rfl⟩ := segment_unique count hj hj' hrow
    rw [Nat.add_left_cancel heq]
  · intro k hk
    have hwidth : 0 < width := Nat.pos_of_ne_zero fun hzero => by
      rw [hzero, Nat.mul_zero] at hk
      exact Nat.not_lt_zero k hk
    obtain ⟨i, hi, j, hj, hrow⟩ :=
      exists_segment ((Nat.div_lt_iff_lt_mul hwidth).mpr hk)
    refine ⟨(i, j, k % width), ⟨hi, hj, Nat.mod_lt k hwidth⟩, ?_⟩
    show (start count i + j) * width + k % width = k
    rw [hrow, Nat.mul_comm, Nat.div_add_mod]

/-! ## Even division -/

/-- The length of part `i` of `total` divided into `parts`: the first ones take one
more, as long as something is left over. -/
def share (total parts i : Nat) : Nat :=
  total / parts + if i < total % parts then 1 else 0

theorem start_share_eq (total parts i : Nat) :
    start (share total parts) i = i * (total / parts) + min i (total % parts) := by
  induction i with
  | zero => simp [start]
  | succ i ih =>
      rw [start_succ, ih, share, Nat.succ_mul]
      split
      · omega
      · omega

/-- The parts are all of it. -/
theorem start_share {parts : Nat} (h : 0 < parts) (total : Nat) :
    start (share total parts) parts = total := by
  have hmod := Nat.mod_lt total h
  rw [start_share_eq, Nat.min_eq_right (Nat.le_of_lt hmod), Nat.div_add_mod]

theorem share_pos {total parts : Nat} (h : 0 < parts) (hle : parts ≤ total) (i : Nat) :
    0 < share total parts i :=
  Nat.add_pos_left (Nat.div_pos hle h) _

theorem share_le_succ (total parts i i' : Nat) :
    share total parts i ≤ share total parts i' + 1 := by
  rw [share, share]
  split
  · omega
  · omega

end SysLab.Foundation
