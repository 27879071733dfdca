import SysLab.PartA.Options
import SysLab.PartB.Options

/-!
# Unsigned numbers on the command lines

`parse_size` of `parta_bench` and `parse_size` and `parse_port` of Part B check what
`strtoull` or `strtoul` returns, and not what is written.
-/

namespace SysLab

open SysLab.Foundation

/-- The parsers return the number that is written unless that is a number out of range
which `strtoul` makes a size, or a port, of: for `parta_bench` one below zero or from
`2 ^ 64` on; in Part B the same, but for what is still below the minimum after `2 ^ 64`
has been added; for a port only one that `2 ^ 64` brings to at most 65535. -/
theorem unsigned_as_written (text : List Char) (name : String) (minValue : UInt64) :
    ((∀ value, PartA.parseSize text = .ok value →
        ∃ m : Numeral, m.text = text ∧ m.value = value ∧ 1 ≤ value) ↔
      ∀ m : Numeral, m.text = text → 0 ≤ m.value ∧ m.value < 2 ^ 64) ∧
    ((∀ value, PartB.parseSize text name minValue = .ok value →
        ∃ m : Numeral, m.text = text ∧ m.value = value ∧ minValue.toNat ≤ value) ↔
      ∀ m : Numeral, m.text = text → 0 ≤ m.value ∧ m.value < 2 ^ 64 ∨
        -2 ^ 64 < m.value ∧ m.value < 0 ∧ m.value + 2 ^ 64 < minValue.toNat) ∧
    ((∀ value, PartB.parsePort text = .ok value →
        ∃ m : Numeral, m.text = text ∧ m.value = value ∧ value ≤ 65535) ↔
      ∀ m : Numeral, m.text = text →
        ¬ (-2 ^ 64 < m.value ∧ m.value ≤ -2 ^ 64 + 65535)) := by
  have hmin : (minValue.toNat : Int) ≤ 2 ^ 64 - 1 := by
    have := minValue.toNat_lt
    omega
  refine ⟨?_, ?_, ?_⟩
  · refine PartA.parseSize_returns.as_written_iff.trans ?_
    refine forall_congr' fun m => imp_congr_right fun _ => ?_
    have hvalue := toUnsigned_value m
    split at hvalue <;> omega
  · refine (PartB.parseSize_returns name minValue).as_written_iff.trans ?_
    refine forall_congr' fun m => imp_congr_right fun _ => ?_
    have hvalue := toUnsigned_value m
    split at hvalue <;> omega
  · refine PartB.parsePort_returns.as_written_iff.trans ?_
    refine forall_congr' fun m => imp_congr_right fun _ => ?_
    have hvalue := toUnsigned_value m
    split at hvalue <;> omega

/-- `-1` as a size, and a port that becomes 1. -/
theorem unsigned_not_as_written :
    PartA.parseSize "-1".toList = .ok (2 ^ 64 - 1) ∧
    PartB.parseSize "-1".toList "payload-size" 1 = .ok (2 ^ 64 - 1) ∧
    PartB.parsePort "-18446744073709551615".toList = .ok 1 ∧
    (¬ ∃ m : Numeral, m.text = "-1".toList ∧ m.value = (2 ^ 64 - 1 : Nat)) ∧
    ¬ ∃ m : Numeral, m.text = "-18446744073709551615".toList ∧ m.value = (1 : Nat) := by
  refine ⟨rfl, rfl, rfl, ?_, ?_⟩
  · rintro ⟨m, htext, hvalue⟩
    have hscan : scan m.text = some (.minus, ['1'], []) := by
      rw [htext]
      rfl
    rw [value_of_scan hscan] at hvalue
    exact absurd hvalue (by decide)
  · rintro ⟨m, htext, hvalue⟩
    have hscan : scan m.text = some (.minus, "18446744073709551615".toList, []) := by
      rw [htext]
      rfl
    rw [value_of_scan hscan] at hvalue
    exact absurd hvalue (by decide)

end SysLab
