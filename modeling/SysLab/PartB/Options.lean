import SysLab.Foundation.Numeral

/-!
# The numbers on a command line

`parse_port`, `parse_int` and `parse_size` of `common.c`, or the message they exit
with.
-/

namespace SysLab.PartB

open SysLab.Foundation

/-- `parse_port`; what it returns is cut to a `uint16_t`. -/
def parsePort (text : List Char) : Except String Nat :=
  let (value, rest) := strtoul text
  if text = [] ∨ rest ≠ [] ∨ 65535 < value then .error "invalid port"
  else .ok (value % 2 ^ 16)

/-- `parse_int`; what it returns is cut from a `long` to an `int`. -/
def parseInt (text : List Char) (name : String) (minValue : Int) : Except String Int :=
  let (value, rest) := strtol text
  if text = [] ∨ rest ≠ [] ∨ value < minValue then .error ("invalid " ++ name)
  else .ok (value.bmod (2 ^ 32))

/-- `parse_size`. -/
def parseSize (text : List Char) (name : String) (minValue : UInt64) :
    Except String Nat :=
  let (value, rest) := strtoul text
  if text = [] ∨ rest ≠ [] ∨ value < minValue.toNat then .error ("invalid " ++ name)
  else .ok value

/-! ## What they accept -/

theorem exists_of_map {α β : Type} {x : Except String α} {f : α → β} {b : β}
    (h : x.map f = .ok b) : ∃ a, x = .ok a ∧ f a = b := by
  cases x with
  | error message => cases h
  | ok a => exact ⟨a, rfl, Except.ok.inj h⟩

/-- The checks of both parsers, with what they refuse and what they do to the rest. -/
theorem returns_of_check {p r : Nat → Prop} [DecidablePred r] {f : Nat → Nat}
    (hp : ∀ n, p n ↔ ¬ r n) (hf : ∀ n, p n → f n = n) (message : String) :
    ReturnsUnsigned (fun text =>
      if text = [] ∨ (strtoul text).2 ≠ [] ∨ r (strtoul text).1 then .error message
      else .ok (f (strtoul text).1)) p := by
  intro text value
  dsimp only
  split
  · next hrefused =>
      simp only [reduceCtorEq, false_iff]
      rintro ⟨hne, hread, hvalue⟩
      rw [hread] at hrefused
      rcases hrefused with h | h | h
      · exact hne h
      · exact h rfl
      · exact (hp value).mp hvalue h
  · next haccepted =>
      simp only [not_or, not_not] at haccepted
      obtain ⟨hne, hend, haccepted⟩ := haccepted
      have hvalue := (hp _).mpr haccepted
      rw [hf _ hvalue, Except.ok.injEq]
      constructor
      · rintro rfl
        exact ⟨hne, Prod.ext rfl hend, hvalue⟩
      · exact fun h => congrArg Prod.fst h.2.1

theorem parsePort_returns : ReturnsUnsigned parsePort (· ≤ 65535) :=
  returns_of_check (r := (65535 < ·)) (f := (· % 2 ^ 16))
    (fun _ => Nat.not_lt.symm) (fun n hn => Nat.mod_eq_of_lt (by omega)) "invalid port"

theorem parseSize_returns (name : String) (minValue : UInt64) :
    ReturnsUnsigned (parseSize · name minValue) (minValue.toNat ≤ ·) :=
  returns_of_check (r := (· < minValue.toNat)) (f := id)
    (fun _ => Nat.not_lt.symm) (fun _ _ => rfl) ("invalid " ++ name)

/-! ## What `parse_int` returns -/

/-- The conversion of a `long` to an `int`. -/
theorem bmod_int (z : Int) :
    z.bmod (2 ^ 32) = if z % 2 ^ 32 < 2 ^ 31 then z % 2 ^ 32 else z % 2 ^ 32 - 2 ^ 32 :=
  Int.bmod_def z (2 ^ 32)

theorem parseInt_eq_ok {text : List Char} {name : String} {minValue n : Int} :
    parseInt text name minValue = .ok n ↔
      ∃ m : Numeral, m.text = text ∧ minValue ≤ toSigned m.value ∧
        (toSigned m.value).bmod (2 ^ 32) = n := by
  unfold parseInt
  dsimp only
  split
  · next hrefused =>
      simp only [reduceCtorEq, false_iff]
      rintro ⟨m, rfl, hmin, _⟩
      rw [strtol_text] at hrefused
      rcases hrefused with h | h | h
      · exact m.text_ne_nil h
      · exact h rfl
      · exact Int.not_le.mpr h hmin
  · next haccepted =>
      simp only [not_or, not_not, Int.not_lt] at haccepted
      obtain ⟨hne, hend, hmin⟩ := haccepted
      rw [strtol_rest] at hend
      obtain ⟨m, rfl⟩ := exists_numeral hne hend
      rw [strtol_text] at hmin ⊢
      rw [Except.ok.injEq]
      constructor
      · exact fun h => ⟨m, rfl, hmin, h⟩
      · rintro ⟨m', htext, _, hn⟩
        rwa [value_eq_of_text htext] at hn

/-- It returns the number that is written, from the minimum on, exactly if that is
not too large for an `int`. -/
theorem parseInt_as_written_iff (text : List Char) (name : String) (minValue : Int32) :
    (∀ n, parseInt text name minValue.toInt = .ok n →
        ∃ m : Numeral, m.text = text ∧ m.value = n ∧ minValue.toInt ≤ n) ↔
      ∀ m : Numeral, m.text = text → m.value < 2 ^ 31 := by
  have hlower := minValue.le_toInt
  have hupper := minValue.toInt_lt
  constructor
  · rintro hwritten m rfl
    by_contra hlarge
    have hsigned : 2 ^ 31 ≤ toSigned m.value := by
      unfold toSigned
      omega
    obtain ⟨m', htext, hvalue, _⟩ :=
      hwritten _ (parseInt_eq_ok.mpr ⟨m, rfl, by omega, rfl⟩)
    rw [value_eq_of_text htext, bmod_int] at hvalue
    split at hvalue
    · omega
    · omega
  · intro hsmall n hparse
    obtain ⟨m, rfl, hmin, rfl⟩ := parseInt_eq_ok.mp hparse
    have hvalue := hsmall m rfl
    have hsigned : toSigned m.value = m.value := by
      unfold toSigned at hmin ⊢
      omega
    rw [hsigned] at hmin ⊢
    have hint : m.value.bmod (2 ^ 32) = m.value := by
      rw [bmod_int]
      split
      · omega
      · omega
    exact ⟨m, rfl, hint.symm, by omega⟩

/-- A number from 1 on is still positive as a `long` that is converted to an
`int`. -/
def StaysPositive (z : Int) : Prop := z < 2 ^ 63 ∧ 0 < z % 2 ^ 32 ∧ z % 2 ^ 32 < 2 ^ 31

/-- With a minimum of 1. -/
theorem parseInt_positive_iff {text : List Char} {name : String} {n : Int}
    (h : parseInt text name 1 = .ok n) :
    1 ≤ n ↔ ∀ m : Numeral, m.text = text → StaysPositive m.value := by
  obtain ⟨m, rfl, hmin, rfl⟩ := parseInt_eq_ok.mp h
  have hone : 1 ≤ (toSigned m.value).bmod (2 ^ 32) ↔ StaysPositive m.value := by
    unfold toSigned at hmin
    rw [bmod_int, StaysPositive, toSigned]
    split
    · omega
    · omega
  rw [hone]
  constructor
  · intro hpos m' htext
    rwa [value_eq_of_text htext]
  · exact fun hpos => hpos m rfl

end SysLab.PartB
