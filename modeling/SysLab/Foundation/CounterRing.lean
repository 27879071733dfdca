import Mathlib.Data.Nat.ModEq
import Mathlib.Logic.Function.Basic

/-!
# Rings with free-running counters

A queue in an array of `2 ^ k` slots between a `head` and a `tail` that are
counted up modulo `2 ^ w` and never brought back into the array: a counter is
masked where a slot is needed.  `RingSize` is what makes that work, the number
of entries being a power of two below `2 ^ w`.

`Holds size r q` says that the ring holds the entries `q`, the oldest first.

* `Holds.distance` — the difference of the counters is the number of entries,
  wherever they have wrapped; `full_iff` and `empty_iff` are the two tests made
  of it.
* `Holds.slot_ne` — the slot at the tail is none of those in use.
* `Holds.write`, `Holds.advance` — an entry is put there, and handed over.
* `Holds.drop` — the oldest entries are given up.
-/

namespace SysLab.Foundation

/-- The number of slots, a power of two, and the mask that goes with it. -/
structure RingSize (w : Nat) where
  entries : BitVec w
  mask : BitVec w
  pow : ∃ k, entries.toNat = 2 ^ k
  mask_eq : mask = entries - 1

/-- The slot a counter stands for. -/
def RingSize.slot {w : Nat} (size : RingSize w) (counter : BitVec w) : BitVec w :=
  counter &&& size.mask

/-- The two counters and the slots. -/
structure CounterRing (w : Nat) (α : Type*) where
  head : BitVec w
  tail : BitVec w
  slots : BitVec w → α

/-- The counter `n` places past `counter`. -/
def RingSize.past {w : Nat} (counter : BitVec w) (n : Nat) : BitVec w :=
  counter + BitVec.ofNat w n

namespace RingSize

variable {w : Nat} {size : RingSize w} {counter : BitVec w} {i j n : Nat}

@[simp] theorem past_zero (counter : BitVec w) : past counter 0 = counter := by
  simp [past]

theorem past_past (counter : BitVec w) (m n : Nat) :
    past (past counter m) n = past counter (m + n) := by
  simp [past, BitVec.add_assoc, BitVec.ofNat_add]

theorem past_one (counter : BitVec w) : past counter 1 = counter + 1 := rfl

theorem toNat_past (counter : BitVec w) (n : Nat) :
    (past counter n).toNat = (counter.toNat + n) % 2 ^ w := by
  simp [past, BitVec.toNat_add]

/-- How far apart two counters are. -/
theorem past_sub (counter : BitVec w) (h : n < 2 ^ w) :
    (past counter n - counter).toNat = n := by
  have hcancel : past counter n - counter = BitVec.ofNat w n := by
    rw [past, BitVec.add_comm, BitVec.add_sub_cancel]
  rw [hcancel, BitVec.toNat_ofNat, Nat.mod_eq_of_lt h]

theorem entries_pos (size : RingSize w) : 0 < size.entries.toNat := by
  obtain ⟨k, hk⟩ := size.pow
  rw [hk]
  exact Nat.two_pow_pos k

theorem entries_lt (size : RingSize w) : size.entries.toNat < 2 ^ w :=
  size.entries.isLt

theorem toNat_mask (size : RingSize w) :
    size.mask.toNat = size.entries.toNat - 1 := by
  have hpos := size.entries_pos
  have hlt := size.entries_lt
  have hone : (1 : BitVec w).toNat = 1 := by
    show 1 % 2 ^ w = 1
    exact Nat.mod_eq_of_lt (by omega)
  rw [size.mask_eq, BitVec.toNat_sub, hone]
  rw [show 2 ^ w - 1 + size.entries.toNat = (size.entries.toNat - 1) + 2 ^ w by omega,
    Nat.add_mod_right, Nat.mod_eq_of_lt (by omega)]

theorem toNat_slot (size : RingSize w) (counter : BitVec w) :
    (size.slot counter).toNat = counter.toNat % size.entries.toNat := by
  obtain ⟨k, hk⟩ := size.pow
  rw [slot, BitVec.toNat_and, size.toNat_mask, hk, Nat.and_two_pow_sub_one_eq_mod]

/-- The number of slots divides the range of the counters, so that wrapping a
counter does not show in its slot. -/
theorem toNat_slot_past (size : RingSize w) (counter : BitVec w) (n : Nat) :
    (size.slot (past counter n)).toNat = (counter.toNat + n) % size.entries.toNat := by
  obtain ⟨k, hk⟩ := size.pow
  have hk_le : k ≤ w := by
    have hlt := size.entries_lt
    rw [hk] at hlt
    exact Nat.le_of_lt ((Nat.pow_lt_pow_iff_right (by decide)).mp hlt)
  rw [toNat_slot, toNat_past, hk, Nat.mod_mod_of_dvd _ (Nat.pow_dvd_pow 2 hk_le)]

/-- Less than a whole round apart, two counters have slots of their own. -/
theorem slot_past_inj (hi : i < size.entries.toNat) (hj : j < size.entries.toNat)
    (h : size.slot (past counter i) = size.slot (past counter j)) : i = j := by
  have hmod : counter.toNat + i ≡ counter.toNat + j [MOD size.entries.toNat] := by
    have hnat := congrArg BitVec.toNat h
    rwa [toNat_slot_past, toNat_slot_past] at hnat
  exact (Nat.ModEq.add_left_cancel' _ hmod).eq_of_lt_of_lt hi hj

end RingSize

namespace CounterRing

open RingSize

variable {w : Nat} {α : Type*} {size : RingSize w} {r : CounterRing w α} {q : List α}
  {x : α}

/-- The entries between head and tail are `q`. -/
structure Holds (size : RingSize w) (r : CounterRing w α) (q : List α) : Prop where
  fits : q.length ≤ size.entries.toNat
  tail : r.tail = past r.head q.length
  slots : ∀ i (hi : i < q.length), r.slots (size.slot (past r.head i)) = q[i]

namespace Holds

theorem nil (size : RingSize w) (counter : BitVec w) (slots : BitVec w → α) :
    Holds size ⟨counter, counter, slots⟩ [] := by
  refine ⟨Nat.zero_le _, (past_zero counter).symm, ?_⟩
  intro i hi
  exact absurd hi (Nat.not_lt_zero i)

/-- The difference of the counters. -/
theorem distance (h : Holds size r q) : (r.tail - r.head).toNat = q.length := by
  rw [h.tail]
  exact past_sub r.head (Nat.lt_of_le_of_lt h.fits size.entries_lt)

theorem full_iff (h : Holds size r q) :
    size.entries ≤ r.tail - r.head ↔ q.length = size.entries.toNat := by
  rw [BitVec.le_def, h.distance]
  exact ⟨Nat.le_antisymm h.fits, fun heq => heq ▸ Nat.le_refl _⟩

theorem empty_iff (h : Holds size r q) : r.head = r.tail ↔ q = [] := by
  constructor
  · intro heq
    have hdistance := h.distance
    rw [heq, BitVec.sub_self, BitVec.toNat_zero] at hdistance
    exact List.length_eq_zero_iff.mp hdistance.symm
  · rintro rfl
    rw [h.tail]
    exact (past_zero r.head).symm

/-- The slot at the tail is free. -/
theorem slot_ne (h : Holds size r q) (hroom : q.length < size.entries.toNat) {i : Nat}
    (hi : i < q.length) : size.slot (past r.head i) ≠ size.slot r.tail := by
  rw [h.tail]
  intro heq
  exact hi.ne (slot_past_inj (hi.trans hroom) hroom heq)

/-- Writing to the slot at the tail disturbs nothing. -/
theorem write (h : Holds size r q) (hroom : q.length < size.entries.toNat) (x : α) :
    Holds size { r with slots := Function.update r.slots (size.slot r.tail) x } q := by
  refine ⟨h.fits, h.tail, ?_⟩
  intro i hi
  show Function.update r.slots (size.slot r.tail) x (size.slot (past r.head i)) = q[i]
  rw [Function.update_of_ne (h.slot_ne hroom hi)]
  exact h.slots i hi

/-- The tail moves past an entry that has been written. -/
theorem advance (h : Holds size r q) (hroom : q.length < size.entries.toNat)
    (hx : r.slots (size.slot r.tail) = x) :
    Holds size { r with tail := r.tail + 1 } (q ++ [x]) := by
  have hlength : (q ++ [x]).length = q.length + 1 := by simp
  refine ⟨hlength ▸ hroom, ?_, ?_⟩
  · show r.tail + 1 = past r.head (q ++ [x]).length
    rw [hlength, ← past_past, past_one, h.tail]
  · intro i hi
    rw [hlength] at hi
    show r.slots (size.slot (past r.head i)) = (q ++ [x])[i]
    by_cases hlast : i = q.length
    · subst hlast
      rw [List.getElem_concat_length rfl, ← h.tail]
      exact hx
    · have hold : i < q.length := by omega
      rw [List.getElem_append_left hold]
      exact h.slots i hold

/-- The head moves past `n` entries. -/
theorem drop (h : Holds size r q) {n : Nat} (hn : n ≤ q.length) :
    Holds size { r with head := past r.head n } (q.drop n) := by
  have hlength : (q.drop n).length = q.length - n := List.length_drop
  have hfits := h.fits
  refine ⟨by omega, ?_, ?_⟩
  · show r.tail = past (past r.head n) (q.drop n).length
    rw [past_past, hlength, h.tail]
    congr 1
    omega
  · intro i hi
    show r.slots (size.slot (past (past r.head n) i)) = (q.drop n)[i]
    rw [past_past, List.getElem_drop]
    exact h.slots (n + i) (by omega)

/-- The entry at the head. -/
theorem first (h : Holds size r (x :: q)) : r.slots (size.slot r.head) = x := by
  have hslot := h.slots 0 (Nat.succ_pos _)
  rw [past_zero] at hslot
  exact hslot

/-- It is given up. -/
theorem pop (h : Holds size r (x :: q)) : Holds size { r with head := r.head + 1 } q :=
  h.drop (Nat.succ_le_succ (Nat.zero_le _))

end Holds

end CounterRing

end SysLab.Foundation
