import Mathlib.Data.Set.Function
import Mathlib.Data.Set.Card
import Mathlib.Logic.Function.Basic

/-!
# Tables of slots registered under keys

A server keeps its clients in a table `t : ι → σ` whose cells are either free
or *live*, a live cell holding a key.  `Registers dom live key t K` says that
the live cells of `dom` and the set `K` of keys are in bijection: no key is
held twice, none is lost and none is invented.  Filling a free cell, emptying
a live one and rewriting a live one each have a rule, so that a server's step
never reopens the bijection.

`firstFree` is the linear search by which such tables are filled.
-/

namespace SysLab.Foundation

variable {ι : Type*} {σ : Type*} {κ : Type*}

/-- The live cells of a table. -/
def occupied (dom : Set ι) (live : σ → Prop) (t : ι → σ) : Set ι :=
  {i | i ∈ dom ∧ live (t i)}

/-- The live cells of `dom` hold exactly the keys `K`, each once. -/
def Registers (dom : Set ι) (live : σ → Prop) (key : σ → κ) (t : ι → σ)
    (K : Set κ) : Prop :=
  Set.BijOn (fun i => key (t i)) (occupied dom live t) K

namespace Registers

variable {dom : Set ι} {live : σ → Prop} {key : σ → κ} {t : ι → σ} {K : Set κ}

theorem mem (h : Registers dom live key t K) {i : ι} (hi : i ∈ dom)
    (hl : live (t i)) : key (t i) ∈ K :=
  h.mapsTo ⟨hi, hl⟩

theorem exists_slot (h : Registers dom live key t K) {k : κ} (hk : k ∈ K) :
    ∃ i ∈ dom, live (t i) ∧ key (t i) = k := by
  obtain ⟨i, ⟨hi, hl⟩, rfl⟩ := h.surjOn hk
  exact ⟨i, hi, hl, rfl⟩

/-- Two live cells with one key are one cell. -/
theorem eq_of_key_eq (h : Registers dom live key t K) {i j : ι}
    (hi : i ∈ dom) (hli : live (t i)) (hj : j ∈ dom) (hlj : live (t j))
    (hk : key (t i) = key (t j)) : i = j :=
  h.injOn ⟨hi, hli⟩ ⟨hj, hlj⟩ hk

/-- A table without live cells registers nothing. -/
theorem empty (h : ∀ i ∈ dom, ¬ live (t i)) : Registers dom live key t ∅ := by
  have hnone : occupied dom live t = ∅ := by
    ext i
    simp only [Set.mem_empty_iff_false, iff_false]
    exact fun hi => h i hi.1 hi.2
  rw [Registers, hnone]
  exact Set.bijOn_empty _

/-- There are no more keys than cells. -/
theorem card_le [DecidableEq κ] {K : Finset κ} {n : Nat} {s : Finset ι}
    (h : Registers (s : Set ι) live key t K) (hs : s.card = n) :
    K.card ≤ n := by
  have himage : (K : Set κ) ⊆ (s.image fun i => key (t i) : Finset κ) := by
    intro k hk
    obtain ⟨i, hi, _, rfl⟩ := h.exists_slot hk
    exact Finset.mem_coe.mpr (Finset.mem_image_of_mem _ hi)
  calc
    K.card ≤ (s.image fun i => key (t i)).card :=
      Finset.card_le_card (Finset.coe_subset.mp himage)
    _ ≤ s.card := Finset.card_image_le
    _ = n := hs

/-- When every cell is live there are as many keys as cells. -/
theorem card_of_full {K : Finset κ} {s : Finset ι}
    (h : Registers (s : Set ι) live key t (K : Set κ))
    (hfull : ∀ i ∈ s, live (t i)) : s.card ≤ K.card := by
  refine Finset.card_le_card_of_injOn (fun i => key (t i)) ?_ ?_
  · intro i hi
    exact h.mem hi (hfull i hi)
  · intro i hi j hj hkey
    exact h.eq_of_key_eq hi (hfull i hi) hj (hfull j hj) hkey

variable [DecidableEq ι]

/-- Filling a free cell under a new key registers that key. -/
theorem occupy (h : Registers dom live key t K) {i : ι} {c : σ}
    (hi : i ∈ dom) (hfree : ¬ live (t i)) (hc : live c) (hnew : key c ∉ K) :
    Registers dom live key (Function.update t i c) (insert (key c) K) := by
  have hocc : occupied dom live (Function.update t i c) =
      insert i (occupied dom live t) := by
    ext j
    by_cases hj : j = i
    · subst hj; simp [occupied, hi, hc]
    · simp [occupied, hj]
  have hagree : Set.EqOn (fun j => key (t j))
      (fun j => key (Function.update t i c j)) (occupied dom live t) := by
    intro j hj
    have hji : j ≠ i := by rintro rfl; exact hfree hj.2
    simp [hji]
  rw [Registers, hocc]
  simpa using (h.congr hagree).insert (a := i) (by simpa using hnew)

/-- Emptying a live cell takes its key out. -/
theorem vacate (h : Registers dom live key t K) {i : ι} {c : σ}
    (hi : i ∈ dom) (hl : live (t i)) (hc : ¬ live c) :
    Registers dom live key (Function.update t i c) (K \ {key (t i)}) := by
  have hocc : occupied dom live (Function.update t i c) =
      occupied dom live t \ {i} := by
    ext j
    by_cases hj : j = i
    · subst hj; simp [occupied, hc]
    · simp [occupied, hj]
  have hagree : Set.EqOn (fun j => key (t j))
      (fun j => key (Function.update t i c j)) (occupied dom live t \ {i}) := by
    intro j hj
    have hji : j ≠ i := hj.2
    simp [hji]
  rw [Registers, hocc]
  exact (Set.BijOn.sdiff_singleton h ⟨hi, hl⟩).congr hagree

/-- Rewriting a live cell under the same key changes no registration. -/
theorem rewrite (h : Registers dom live key t K) {i : ι} {c : σ}
    (hl : live (t i)) (hc : live c) (hk : key c = key (t i)) :
    Registers dom live key (Function.update t i c) K := by
  have hocc : occupied dom live (Function.update t i c) =
      occupied dom live t := by
    ext j
    by_cases hj : j = i
    · subst hj; simp [occupied, hc, hl]
    · simp [occupied, hj]
  rw [Registers, hocc]
  refine h.congr (fun j _ => ?_)
  by_cases hj : j = i
  · subst hj; simp [hk]
  · simp [hj]

end Registers

/-! ## Linear search for a free cell -/

/-- The first index of `[lo, lo + n)` whose cell is free. -/
def firstFree (free : Nat → Bool) (lo n : Nat) : Option Nat :=
  (List.range' lo n).find? free

theorem firstFree_some {free : Nat → Bool} {lo n i : Nat}
    (h : firstFree free lo n = some i) :
    lo ≤ i ∧ i < lo + n ∧ free i = true := by
  have hmem := List.mem_of_find?_eq_some h
  have hfree := List.find?_some h
  simp only [List.mem_range'_1] at hmem
  exact ⟨hmem.1, hmem.2, hfree⟩

theorem firstFree_eq_none {free : Nat → Bool} {lo n : Nat} :
    firstFree free lo n = none ↔
      ∀ i, lo ≤ i → i < lo + n → free i = false := by
  simp [firstFree, List.find?_eq_none, List.mem_range'_1]

theorem firstFree_congr {free free' : Nat → Bool} {lo n : Nat}
    (h : ∀ i, lo ≤ i → i < lo + n → free i = free' i) :
    firstFree free lo n = firstFree free' lo n := by
  induction n generalizing lo with
  | zero => rfl
  | succ n ih =>
      have hrest : firstFree free (lo + 1) n = firstFree free' (lo + 1) n :=
        ih fun i hi hin => h i (by omega) (by omega)
      rw [firstFree, firstFree] at hrest ⊢
      rw [List.range'_succ, List.find?_cons, List.find?_cons, hrest,
        h lo (Nat.le_refl lo) (by omega)]

/-- A table searched one index further on. -/
theorem firstFree_succ (free : Nat → Bool) (lo n : Nat) :
    firstFree free (lo + 1) n =
      (firstFree (fun i => free (i + 1)) lo n).map (· + 1) := by
  induction n generalizing lo with
  | zero => rfl
  | succ n ih =>
      have hrest := ih (lo + 1)
      rw [firstFree, firstFree] at hrest ⊢
      rw [List.range'_succ, List.range'_succ, List.find?_cons, List.find?_cons, hrest]
      cases free (lo + 1) <;> rfl

end SysLab.Foundation
