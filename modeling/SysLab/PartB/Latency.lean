import SysLab.Foundation.Comparison

/-!
# The load client's P99

`cmp_u64` of `load_client.c`, and the latency that `main` reports as P99 after
sorting with it.  `qsort` is the C library's, known by `Sorts` only.
-/

namespace SysLab.PartB.LoadClient

open SysLab.Foundation

/-- `cmp_u64`. -/
def cmpU64 (aa bb : UInt64) : Int :=
  (if bb < aa then 1 else 0) - (if aa < bb then 1 else 0)

/-- `total_requests * 99 / 100`. -/
def p99Index (totalRequests : Nat) : Nat := totalRequests * 99 / 100

/-- `latencies[total_requests * 99 / 100]` after `qsort`. -/
def p99 (qsort : (UInt64 → UInt64 → Int) → List UInt64 → List UInt64)
    (latencies : List UInt64) : Option UInt64 :=
  (qsort cmpU64 latencies)[p99Index latencies.length]?

/-! ## `cmp_u64` -/

theorem cmpU64_nonpos (aa bb : UInt64) : cmpU64 aa bb ≤ 0 ↔ aa ≤ bb := by
  simp only [cmpU64, UInt64.lt_iff_toNat_lt, UInt64.le_iff_toNat_le]
  split <;> split <;> omega

theorem cmpU64_swap (aa bb : UInt64) : cmpU64 aa bb = -cmpU64 bb aa := by
  rw [cmpU64, cmpU64]
  omega

theorem cmpU64_consistent : Consistent cmpU64 where
  swap aa bb := by rw [cmpU64_swap, Int.sign_neg]
  trans aa bb cc := by
    simp only [cmpU64_nonpos]
    exact UInt64.le_trans

/-! ## The reported latency -/

theorem p99Index_lt {n : Nat} (h : 0 < n) : p99Index n < n := by
  rw [p99Index]
  omega

/-- The P99 is a 99% quantile.  `cmp_u64` is a consistent comparison, so that
whatever the sorting routine, the reported latency is one of those measured, at
least 99% of them are no longer, at least 1% no shorter; and it does not depend on
the order in which they were stored. -/
theorem p99_quantile {qsort : (UInt64 → UInt64 → Int) → List UInt64 → List UInt64}
    (hq : Sorts qsort) {latencies : List UInt64} (hne : latencies ≠ []) :
    Consistent cmpU64 ∧
    ∃ value, p99 qsort latencies = some value ∧ value ∈ latencies ∧
      99 * latencies.length ≤ 100 * latencies.countP (· ≤ value) ∧
      latencies.length ≤ 100 * latencies.countP (value ≤ ·) ∧
      ∀ latencies', latencies'.Perm latencies → p99 qsort latencies' = some value := by
  refine ⟨cmpU64_consistent, ?_⟩
  obtain ⟨hperm, hsorted⟩ := hq cmpU64 cmpU64_consistent latencies
  have hle : (qsort cmpU64 latencies).Pairwise (· ≤ ·) :=
    hsorted.imp fun h => (cmpU64_nonpos _ _).mp h
  have hpos : 0 < latencies.length := List.length_pos_iff.mpr hne
  have hindex : p99Index latencies.length < (qsort cmpU64 latencies).length := by
    rw [hperm.length_eq]
    exact p99Index_lt hpos
  have hvalue : p99 qsort latencies =
      some (qsort cmpU64 latencies)[p99Index latencies.length] :=
    List.getElem?_eq_getElem hindex
  have hbefore := le_countP_before UInt64.le_refl hle hindex
  have hfrom := le_countP_from UInt64.le_refl hle hindex
  rw [hperm.countP_eq] at hbefore hfrom
  rw [hperm.length_eq] at hfrom
  have hrank : p99Index latencies.length = latencies.length * 99 / 100 := rfl
  refine ⟨_, hvalue, hperm.mem_iff.mp (List.getElem_mem hindex), by omega, by omega, ?_⟩
  · intro latencies' hperm'
    have hsame : qsort cmpU64 latencies' = qsort cmpU64 latencies :=
      hq.unique hq cmpU64_consistent
        (fun a b hab hba =>
          UInt64.le_antisymm ((cmpU64_nonpos a b).mp hab) ((cmpU64_nonpos b a).mp hba)) hperm'
    rw [p99, hsame, hperm'.length_eq]
    exact hvalue

/-- Two of three latencies are the same. -/
theorem p99_quantile_three : ∃ value,
    p99 (fun cmp xs => xs.mergeSort fun a b => decide (cmp a b ≤ 0)) [7, 3, 7] = some value ∧
      value ∈ [7, 3, 7] ∧ 3 ≤ 100 * [7, 3, 7].countP (value ≤ ·) := by
  obtain ⟨_, value, hvalue, hmem, _, hfrom, _⟩ :=
    p99_quantile mergeSort_sorts (List.cons_ne_nil (7 : UInt64) [3, 7])
  exact ⟨value, hvalue, hmem, hfrom⟩

end SysLab.PartB.LoadClient
