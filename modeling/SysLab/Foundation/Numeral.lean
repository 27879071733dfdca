import Mathlib.Algebra.Group.Int.Defs
import Mathlib.Algebra.Group.Nat.Defs
import Mathlib.Data.List.TakeWhile
import SysLab.Foundation.KeyValue

/-!
# Decimal numerals and how C reads them

A `Numeral` is what the `strto` functions of the C library accept in base 10: white
space, perhaps a sign, and digits.  `strtoul` and `strtol` return a 64-bit result
and the text from where they stopped.  Digits that are out of range give the largest
number, behind a minus sign `strtol` the smallest; otherwise a minus sign makes
`strtoul` negate modulo `2 ^ 64`.

* `strtoul_text`, `strtol_text` — what they make of a numeral.
* `exists_numeral` — if `strtoul` stops at the end of a text that is not empty, that
  is a numeral.
* `ReturnsUnsigned.as_written_iff` — when a parser made of `strtoul` returns the number
  that is written.
-/

namespace SysLab.Foundation

/-- An optional sign. -/
inductive Sign
  | none
  | plus
  | minus
  deriving DecidableEq, Repr

/-- As it is written. -/
def Sign.text : Sign → List Char
  | .none => []
  | .plus => ['+']
  | .minus => ['-']

/-- With the sign, `n` is this number. -/
def Sign.apply (n : Nat) : Sign → Int
  | .minus => -n
  | _ => n

/-- The number that digits stand for. -/
def decimal (digits : List Char) : Nat :=
  digits.foldl (fun n c => 10 * n + (c.toNat - '0'.toNat)) 0

/-- A decimal numeral. -/
structure Numeral where
  spaces : List Char
  sign : Sign
  digits : List Char
  space : ∀ c ∈ spaces, isSpace c = true
  nonempty : digits ≠ []
  digit : ∀ c ∈ digits, c.isDigit = true

namespace Numeral

def text (m : Numeral) : List Char := m.spaces ++ (m.sign.text ++ m.digits)

def magnitude (m : Numeral) : Nat := decimal m.digits

/-- The number that is written. -/
def value (m : Numeral) : Int := m.sign.apply m.magnitude

end Numeral

/-! ## The two functions -/

/-- The sign that a text begins with, and what follows it. -/
def splitSign : List Char → Sign × List Char
  | '+' :: rest => (.plus, rest)
  | '-' :: rest => (.minus, rest)
  | rest => (.none, rest)

/-- The sign and the digits a text begins with, and what follows; `none` without
digits. -/
def scan (text : List Char) : Option (Sign × List Char × List Char) :=
  let (sign, rest) := splitSign (text.dropWhile isSpace)
  let digits := rest.takeWhile Char.isDigit
  if digits = [] then none else some (sign, digits, rest.dropWhile Char.isDigit)

/-- An unsigned result. -/
def toUnsigned (sign : Sign) (magnitude : Nat) : Nat :=
  if 2 ^ 64 ≤ magnitude then 2 ^ 64 - 1
  else if sign = .minus then (2 ^ 64 - magnitude) % 2 ^ 64
  else magnitude

/-- A signed result. -/
def toSigned (value : Int) : Int := max (-2 ^ 63) (min (2 ^ 63 - 1) value)

/-- `strtoul(text, &end, 10)`, and `strtoull`: the result, and the text at `end`. -/
def strtoul (text : List Char) : Nat × List Char :=
  match scan text with
  | none => (0, text)
  | some (sign, digits, rest) => (toUnsigned sign (decimal digits), rest)

/-- `strtol(text, &end, 10)`. -/
def strtol (text : List Char) : Int × List Char :=
  match scan text with
  | none => (0, text)
  | some (sign, digits, rest) => (toSigned (sign.apply (decimal digits)), rest)

/-! ## On numerals -/

theorem isSpace_of_digit {c : Char} (h : c.isDigit = true) : isSpace c = false := by
  by_contra hspace
  rw [Bool.not_eq_false] at hspace
  simp only [isSpace, Bool.or_eq_true, decide_eq_true_eq] at hspace
  rcases hspace with ((((rfl | rfl) | rfl) | rfl) | rfl) | rfl <;> exact absurd h (by decide)

/-- A digit is no sign. -/
theorem splitSign_digit {c : Char} (h : c.isDigit = true) (cs : List Char) :
    splitSign (c :: cs) = (.none, c :: cs) := by
  unfold splitSign
  split
  · next heq =>
      cases heq
      exact absurd h (by decide)
  · next heq =>
      cases heq
      exact absurd h (by decide)
  · rfl

theorem splitSign_text (sign : Sign) {c : Char} (h : c.isDigit = true) (cs : List Char) :
    splitSign (sign.text ++ c :: cs) = (sign, c :: cs) := by
  cases sign with
  | none => exact splitSign_digit h cs
  | plus => rfl
  | minus => rfl

/-- The sign and what follows it are the text. -/
theorem text_splitSign (text : List Char) :
    (splitSign text).1.text ++ (splitSign text).2 = text := by
  unfold splitSign
  split <;> rfl

theorem dropWhile_sign (sign : Sign) {c : Char} (h : c.isDigit = true) (cs : List Char) :
    (sign.text ++ c :: cs).dropWhile isSpace = sign.text ++ c :: cs := by
  cases sign with
  | none => exact List.dropWhile_cons_of_neg (by simp [isSpace_of_digit h])
  | plus => rfl
  | minus => rfl

/-- A numeral is scanned to its end. -/
theorem scan_text (m : Numeral) : scan m.text = some (m.sign, m.digits, []) := by
  obtain ⟨c, cs, hdigits⟩ := List.exists_cons_of_ne_nil m.nonempty
  have hc : c.isDigit = true := m.digit c (hdigits ▸ List.mem_cons_self)
  have hbody : m.text.dropWhile isSpace = m.sign.text ++ m.digits := by
    rw [Numeral.text, List.dropWhile_append_of_pos m.space, hdigits, dropWhile_sign _ hc]
  have hsplit : splitSign (m.sign.text ++ m.digits) = (m.sign, m.digits) := by
    rw [hdigits, splitSign_text _ hc]
  have htake : m.digits.takeWhile Char.isDigit = m.digits :=
    List.takeWhile_eq_self_iff.mpr m.digit
  have hdrop : m.digits.dropWhile Char.isDigit = [] :=
    List.dropWhile_eq_nil_iff.mpr m.digit
  rw [scan, hbody, hsplit]
  dsimp only
  rw [htake, hdrop, if_neg m.nonempty]

/-- A scan that comes to the end has seen a numeral. -/
theorem exists_of_scan {text : List Char} {sign : Sign} {digits : List Char}
    (h : scan text = some (sign, digits, [])) :
    ∃ m : Numeral, m.text = text ∧ m.sign = sign ∧ m.digits = digits := by
  have hspaces : text.takeWhile isSpace ++ text.dropWhile isSpace = text :=
    List.takeWhile_append_dropWhile
  have hsign := text_splitSign (text.dropWhile isSpace)
  unfold scan at h
  rcases hsplit : splitSign (text.dropWhile isSpace) with ⟨sign', rest⟩
  rw [hsplit] at h hsign
  dsimp only at h hsign
  split at h
  · cases h
  · next hne =>
      simp only [Option.some.injEq, Prod.mk.injEq] at h
      obtain ⟨rfl, rfl, hend⟩ := h
      have hdigits : rest.takeWhile Char.isDigit = rest := by
        have hrest : rest.takeWhile Char.isDigit ++ rest.dropWhile Char.isDigit = rest :=
          List.takeWhile_append_dropWhile
        rwa [hend, List.append_nil] at hrest
      refine ⟨⟨text.takeWhile isSpace, sign', rest.takeWhile Char.isDigit,
        fun c hc => List.mem_takeWhile_imp hc, hne,
        fun c hc => List.mem_takeWhile_imp hc⟩, ?_, rfl, rfl⟩
      show text.takeWhile isSpace ++ (sign'.text ++ rest.takeWhile Char.isDigit) = text
      rw [hdigits, hsign, hspaces]

theorem Numeral.text_ne_nil (m : Numeral) : m.text ≠ [] := by
  intro hnil
  have hscan := scan_text m
  rw [hnil] at hscan
  cases hscan

theorem strtoul_text (m : Numeral) :
    strtoul m.text = (toUnsigned m.sign m.magnitude, []) := by
  rw [strtoul, scan_text]
  rfl

/-- The result is a 64-bit number. -/
theorem strtoul_le (text : List Char) : (strtoul text).1 ≤ 2 ^ 64 - 1 := by
  unfold strtoul
  split
  · exact Nat.zero_le _
  · next sign digits _ _ =>
      dsimp only
      unfold toUnsigned
      split
      · exact Nat.le_refl _
      · split
        · omega
        · omega

/-- Any other text is not read to its end. -/
theorem exists_numeral {text : List Char} (hne : text ≠ []) (hend : (strtoul text).2 = []) :
    ∃ m : Numeral, m.text = text := by
  unfold strtoul at hend
  split at hend
  · exact absurd hend hne
  · next sign digits rest hscan =>
      dsimp only at hend
      subst hend
      obtain ⟨m, hm, _⟩ := exists_of_scan hscan
      exact ⟨m, hm⟩

/-- A text is one number only. -/
theorem value_of_scan {m : Numeral} {sign : Sign} {digits : List Char}
    (h : scan m.text = some (sign, digits, [])) : m.value = sign.apply (decimal digits) := by
  rw [scan_text] at h
  cases h
  rfl

theorem value_eq_of_text {m m' : Numeral} (h : m.text = m'.text) : m.value = m'.value :=
  value_of_scan (h ▸ scan_text m')

/-- What `strtoul` returns, by the number that is written. -/
theorem toUnsigned_value (m : Numeral) :
    (toUnsigned m.sign m.magnitude : Int) =
      if m.value < 2 ^ 64 ∧ -2 ^ 64 < m.value then m.value % 2 ^ 64 else 2 ^ 64 - 1 := by
  have habs : m.value = m.magnitude ∧ m.sign ≠ .minus ∨
      m.value = -m.magnitude ∧ m.sign = .minus := by
    unfold Numeral.value
    cases m.sign with
    | none => exact .inl ⟨rfl, Sign.noConfusion⟩
    | plus => exact .inl ⟨rfl, Sign.noConfusion⟩
    | minus => exact .inr ⟨rfl, rfl⟩
  unfold toUnsigned
  by_cases hlarge : 2 ^ 64 ≤ m.magnitude
  · have hrange : ¬ (m.value < 2 ^ 64 ∧ -2 ^ 64 < m.value) := by omega
    rw [if_pos hlarge, if_neg hrange]
    rfl
  · have hrange : m.value < 2 ^ 64 ∧ -2 ^ 64 < m.value := by omega
    rw [if_neg hlarge, if_pos hrange]
    rcases habs with ⟨hvalue, hsign⟩ | ⟨hvalue, hsign⟩
    · rw [if_neg hsign]
      omega
    · rw [if_pos hsign]
      omega

theorem strtol_text (m : Numeral) : strtol m.text = (toSigned m.value, []) := by
  rw [strtol, scan_text]
  rfl

/-- Both functions stop at the same place. -/
theorem strtol_rest (text : List Char) : (strtol text).2 = (strtoul text).2 := by
  unfold strtol strtoul
  cases scan text with
  | none => rfl
  | some read => rfl

/-! ## A number as it is printed -/

/-- What `%d` makes of a number. -/
def Numeral.ofInt (z : Int) : Numeral where
  spaces := []
  sign := if z < 0 then .minus else .none
  digits := Nat.toDigits 10 z.natAbs
  space _ hc := absurd hc List.not_mem_nil
  nonempty := Nat.toDigits_ne_nil
  digit _ hc := Nat.isDigit_of_mem_toDigits (by decide) (by decide) hc

theorem Numeral.value_ofInt (z : Int) : (ofInt z).value = z := by
  have hmagnitude : (ofInt z).magnitude = z.natAbs := Nat.ofDigitChars_ten_toDigits
  rw [value, hmagnitude, ofInt]
  split
  · show -(z.natAbs : Int) = z
    omega
  · show (z.natAbs : Int) = z
    omega

/-! ## Parsers made of `strtoul` -/

/-- The parser returns what `strtoul` makes of the whole text, if that meets `p`. -/
def ReturnsUnsigned (parse : List Char → Except String Nat) (p : Nat → Prop) : Prop :=
  ∀ text value, parse text = .ok value ↔ text ≠ [] ∧ strtoul text = (value, []) ∧ p value

namespace ReturnsUnsigned

variable {parse : List Char → Except String Nat} {p : Nat → Prop} {text : List Char}

/-- It returns something for numerals only. -/
theorem exists_text (h : ReturnsUnsigned parse p) {value : Nat}
    (hparse : parse text = .ok value) : ∃ m : Numeral, m.text = text := by
  obtain ⟨hne, hread, _⟩ := (h text value).mp hparse
  exact exists_numeral hne (by rw [hread])

theorem parse_text (h : ReturnsUnsigned parse p) (m : Numeral) (value : Nat) :
    parse m.text = .ok value ↔ toUnsigned m.sign m.magnitude = value ∧ p value := by
  rw [h, strtoul_text, Prod.mk.injEq]
  simp [m.text_ne_nil]

/-- It returns the number that is written, which meets `p`, exactly if that is what
`strtoul` makes of it, or if that is refused. -/
theorem as_written_iff (h : ReturnsUnsigned parse p) :
    (∀ value, parse text = .ok value →
        ∃ m : Numeral, m.text = text ∧ m.value = value ∧ p value) ↔
      ∀ m : Numeral, m.text = text → p (toUnsigned m.sign m.magnitude) →
        m.value = toUnsigned m.sign m.magnitude := by
  constructor
  · rintro hwritten m rfl hp
    obtain ⟨m', htext, hvalue, _⟩ := hwritten _ ((h.parse_text m _).mpr ⟨rfl, hp⟩)
    rw [← hvalue, value_eq_of_text htext]
  · intro hwritten value hparse
    obtain ⟨m, rfl⟩ := h.exists_text hparse
    obtain ⟨rfl, hp⟩ := (h.parse_text m value).mp hparse
    exact ⟨m, rfl, hwritten m rfl hp, hp⟩

end ReturnsUnsigned

end SysLab.Foundation
