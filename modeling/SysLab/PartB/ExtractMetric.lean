import Mathlib.Algebra.Group.Nat.Defs
import SysLab.Foundation.KeyValue

/-!
# Reading the load client's report

`extract_metric` of `run_benchmarks.sh`, its awk program record by record and
field by field.

`-F'='` cuts a line of several pairs so that a key behind the first stands in
one field with the value before it.  `extractMetric_iff` says which keys are
found all the same.
-/

namespace SysLab.PartB

open SysLab.Foundation

/-- What awk makes of texts: the value that `-v key=text` assigns, escape
sequences expanded, and the comparison of two texts that both look like
numbers. -/
structure Awk where
  assign : List Char → List Char
  compareNumbers : List Char → List Char → Option Bool

/-- Only a backslash begins an escape sequence, and neither two words with a
space between them nor a text with an underscore looks like a number. -/
structure Awk.Lawful (awk : Awk) : Prop where
  assign_plain : ∀ text, '\\' ∉ text → awk.assign text = text
  two_words : ∀ (v w : Word) y,
    awk.compareNumbers (v.chars ++ ' ' :: w.chars) y = none
  underscore : ∀ x y, '_' ∈ y → awk.compareNumbers x y = none

/-- `x == y`, texts that do not both look like numbers being compared as
strings. -/
def Awk.eq (awk : Awk) (x y : List Char) : Bool :=
  (awk.compareNumbers x y).getD (decide (x = y))

/-- The fields of a record under `-F'='`; an empty record has none. -/
def awkFields (record : List Char) : List (List Char) :=
  if record = [] then [] else record.splitOn '='

/-- `a[1]` after `split(text, a, /[[:space:]]+/)`. -/
def firstPiece (text : List Char) : List Char := text.takeWhile fun c => !isSpace c

/-- The `for` loop over the fields of a record; the field behind the last one is
empty. -/
def scanFields (awk : Awk) (key : List Char) : List (List Char) → Option (List Char)
  | [] => none
  | field :: rest =>
      if awk.eq field key then some (firstPiece (rest.headD []))
      else scanFields awk key rest

/-- `extract_metric`: the line it prints, if it prints one. -/
def extractMetric (awk : Awk) (file : List (List Char)) (key : List Char) :
    Option (List Char) :=
  file.findSome? fun record => scanFields awk (awk.assign key) (awkFields record)

/-! ## On lines of pairs -/

/-- The value attached to the first occurrence of a key. -/
def firstValue (log : List Line) (key : Word) : Option Word :=
  ((log.flatMap Line.pairs).find? fun pair => pair.1 = key).map Prod.snd

/-- What is printed at a field: the value that follows it, if one does. -/
def printed (field : List Char × Option Word) : List Char :=
  (field.2.map Word.chars).getD []

section Scan

variable {awk : Awk}

theorem scanFields_from (key : List Char) (value : Word) (rest : List (Word × Word)) :
    scanFields awk key ((Line.fieldsFrom value rest).map Prod.fst) =
      ((Line.fieldsFrom value rest).find? fun field => awk.eq field.1 key).map printed := by
  induction rest generalizing value with
  | nil =>
      rw [Line.fieldsFrom, List.map_singleton, scanFields, List.find?_singleton]
      split
      · rfl
      · rfl
  | cons pair rest ih =>
      rw [Line.fieldsFrom, List.map_cons, scanFields, List.find?_cons, ih]
      by_cases hmatch : awk.eq (value.chars ++ ' ' :: pair.1.chars) key
      · rw [if_pos hmatch, hmatch]
        show some (firstPiece _) = some pair.2.chars
        rw [firstPiece, Line.takeWhile_fieldsFrom]
      · rw [if_neg hmatch, Bool.eq_false_iff.mpr hmatch]

/-- A line is scanned for the first field equal to the key. -/
theorem scanFields_text (key : List Char) (line : Line) :
    scanFields awk key (awkFields line.text) =
      (line.fields.find? fun field => awk.eq field.1 key).map printed := by
  rw [awkFields, if_neg line.text_ne_nil, Line.splitOn_text, Line.fields, List.map_cons,
    scanFields, List.find?_cons, scanFields_from]
  by_cases hmatch : awk.eq line.first.1.chars key
  · rw [if_pos hmatch, hmatch]
    show some (firstPiece _) = some line.first.2.chars
    rw [firstPiece, Line.takeWhile_fieldsFrom]
  · rw [if_neg hmatch, Bool.eq_false_iff.mpr hmatch]

/-- The program prints what follows the first field of the log that awk finds
equal to the key. -/
theorem extractMetric_text (log : List Line) (key : List Char) :
    extractMetric awk (log.map Line.text) key =
      ((log.flatMap Line.fields).find?
        fun field => awk.eq field.1 (awk.assign key)).map printed := by
  rw [extractMetric, List.findSome?_map, List.find?_flatMap, List.map_findSome?]
  congr 1
  funext line
  exact scanFields_text _ line

end Scan

/-! ## Which keys are found -/

/-- The first field of the log that awk finds equal to the key is followed by
the value `v`. -/
def Followed (awk : Awk) (log : List Line) (key v : Word) : Prop :=
  ∃ text, (log.flatMap Line.fields).find?
    (fun field => awk.eq field.1 (awk.assign key.chars)) = some (text, some v)

/-- A line begins with the key, or ends with a value equal to it. -/
def Touched (awk : Awk) (key : Word) (line : Line) : Bool :=
  awk.eq line.first.1.chars key.chars || awk.eq line.last.chars key.chars

/-- The first such line begins with the key and goes on with the value `v`. -/
def AtFront (awk : Awk) (log : List Line) (key v : Word) : Prop :=
  ∃ line, log.find? (Touched awk key) = some line ∧
    awk.eq line.first.1.chars key.chars ∧ line.first.2 = v

section Find

variable {awk : Awk}

/-- A field that holds a value and a key is not equal to a word. -/
theorem eq_two_words (hawk : awk.Lawful) (value next key : Word) :
    awk.eq (value.chars ++ ' ' :: next.chars) key.chars = false := by
  rw [Awk.eq, hawk.two_words, Option.getD_none, decide_eq_false_iff_not]
  intro h
  have hspace : ' ' ∈ key.chars := by
    rw [← h]
    exact List.mem_append_right _ List.mem_cons_self
  exact absurd (key.plain _ hspace).2 (by decide)

theorem find?_fieldsFrom (hawk : awk.Lawful) (key value : Word)
    (rest : List (Word × Word)) :
    ((Line.fieldsFrom value rest).find? fun field => awk.eq field.1 key.chars) =
      if awk.eq (Line.lastFrom value rest).chars key.chars then
        some ((Line.lastFrom value rest).chars, none)
      else none := by
  induction rest generalizing value with
  | nil =>
      rw [Line.fieldsFrom, List.find?_singleton]
      rfl
  | cons pair rest ih =>
      rw [Line.fieldsFrom, List.find?_cons, eq_two_words hawk, ih]
      rfl

/-- On a line only the first key and the last value can be equal to a word. -/
theorem find?_fields (hawk : awk.Lawful) (key : Word) (line : Line) :
    (line.fields.find? fun field => awk.eq field.1 key.chars) =
      if awk.eq line.first.1.chars key.chars then
        some (line.first.1.chars, some line.first.2)
      else if awk.eq line.last.chars key.chars then some (line.last.chars, none)
      else none := by
  rw [Line.fields, List.find?_cons, find?_fieldsFrom hawk]
  by_cases hmatch : awk.eq line.first.1.chars key.chars
  · rw [if_pos hmatch, hmatch]
  · rw [if_neg hmatch, Bool.eq_false_iff.mpr hmatch]
    rfl

theorem find?_fields_isSome (hawk : awk.Lawful) (key : Word) (line : Line) :
    (line.fields.find? fun field => awk.eq field.1 key.chars).isSome =
      Touched awk key line := by
  rw [find?_fields hawk, Touched]
  by_cases hfirst : awk.eq line.first.1.chars key.chars
  · rw [if_pos hfirst, hfirst]
    rfl
  · rw [if_neg hfirst, Bool.eq_false_iff.mpr hfirst, Bool.false_or]
    by_cases hlast : awk.eq line.last.chars key.chars
    · rw [if_pos hlast, hlast]
      rfl
    · rw [if_neg hlast, Bool.eq_false_iff.mpr hlast]
      rfl

/-- A value follows such a field only behind the first key. -/
theorem find?_fields_value (hawk : awk.Lawful) (key v : Word) (line : Line) :
    (∃ text, (line.fields.find? fun field => awk.eq field.1 key.chars) =
        some (text, some v)) ↔
      awk.eq line.first.1.chars key.chars ∧ line.first.2 = v := by
  rw [find?_fields hawk]
  by_cases hfirst : awk.eq line.first.1.chars key.chars
  · rw [if_pos hfirst]
    constructor
    · rintro ⟨text, htext⟩
      cases htext
      exact ⟨hfirst, rfl⟩
    · rintro ⟨_, rfl⟩
      exact ⟨_, rfl⟩
  · rw [if_neg hfirst]
    constructor
    · rintro ⟨text, htext⟩
      split at htext <;> cases htext
    · rintro ⟨hfirst', _⟩
      exact absurd hfirst' hfirst

/-- The first line with a field equal to a word decides. -/
theorem followed_iff (hawk : awk.Lawful) (log : List Line) (key v : Word)
    (hplain : '\\' ∉ key.chars) : Followed awk log key v ↔ AtFront awk log key v := by
  unfold Followed AtFront
  rw [hawk.assign_plain _ hplain, List.find?_flatMap]
  induction log with
  | nil => simp
  | cons line log ih =>
      have hsome := find?_fields_isSome hawk key line
      rw [List.findSome?_cons, List.find?_cons]
      by_cases htouched : Touched awk key line
      · rw [htouched, Option.isSome_iff_exists] at hsome
        obtain ⟨field, hfield⟩ := hsome
        have hvalue := find?_fields_value hawk key v line
        rw [hfield] at hvalue
        rw [hfield, htouched]
        refine hvalue.trans ⟨fun h => ⟨line, rfl, h⟩, ?_⟩
        rintro ⟨line', hline, h⟩
        cases hline
        exact h
      · rw [Bool.eq_false_iff.mpr htouched, Option.isSome_eq_false_iff,
          Option.isNone_iff_eq_none] at hsome
        rw [hsome, Bool.eq_false_iff.mpr htouched]
        exact ih

end Find

theorem exists_firstValue {log : List Line} {key : Word}
    (hkey : key ∈ (log.flatMap Line.pairs).map Prod.fst) :
    ∃ v, firstValue log key = some v := by
  obtain ⟨pair, hpair, rfl⟩ := List.mem_map.mp hkey
  have hfound : ((log.flatMap Line.pairs).find? fun p => p.1 = pair.1).isSome :=
    List.find?_isSome.mpr ⟨pair, hpair, decide_eq_true rfl⟩
  obtain ⟨found, hfound⟩ := Option.isSome_iff_exists.mp hfound
  exact ⟨found.2, by rw [firstValue, hfound]; rfl⟩

/-- A value is printed exactly if it follows the field awk stops at. -/
theorem extractMetric_eq_some {awk : Awk} (log : List Line) (key v : Word) :
    extractMetric awk (log.map Line.text) key.chars = some v.chars ↔
      Followed awk log key v := by
  rw [extractMetric_text, Option.map_eq_some_iff]
  constructor
  · rintro ⟨⟨text, _ | w⟩, hfind, hprinted⟩
    · exact absurd hprinted.symm v.nonempty
    · have hw : w = v := Word.ext hprinted
      exact ⟨text, hw ▸ hfind⟩
  · rintro ⟨text, hfind⟩
    exact ⟨_, hfind, rfl⟩

/-- `extract_metric` prints the value attached to the first occurrence of a key
exactly if the first field that awk finds equal to the key is followed by that
value: if, for a key without escape sequences, the first line that begins with
the key, or ends with a value equal to it, begins with it and goes on with that
value. -/
theorem extractMetric_iff {awk : Awk} (hawk : awk.Lawful) (log : List Line)
    (key : Word) (hkey : key ∈ (log.flatMap Line.pairs).map Prod.fst) :
    (extractMetric awk (log.map Line.text) key.chars =
        (firstValue log key).map Word.chars ↔
      ∃ v, firstValue log key = some v ∧ Followed awk log key v) ∧
    ('\\' ∉ key.chars →
      (extractMetric awk (log.map Line.text) key.chars =
          (firstValue log key).map Word.chars ↔
        ∃ v, firstValue log key = some v ∧ AtFront awk log key v)) := by
  obtain ⟨v, hv⟩ := exists_firstValue hkey
  rw [hv, Option.map_some, extractMetric_eq_some]
  constructor
  · constructor
    · exact fun h => ⟨v, rfl, h⟩
    · rintro ⟨w, hw, h⟩
      cases hw
      exact h
  · intro hplain
    rw [followed_iff hawk log key v hplain]
    constructor
    · exact fun h => ⟨v, rfl, h⟩
    · rintro ⟨w, hw, h⟩
      cases hw
      exact h

/-! ## The load client's report -/

/-- A decimal number: its digits as a number, and how many are behind the
point. -/
def decimal (text : List Char) : Option (Nat × Nat) :=
  if text.all (fun c => c.isDigit || c = '.') && text.count '.' ≤ 1 &&
      text.any Char.isDigit then
    some ((text.filter Char.isDigit).foldl (fun n c => 10 * n + (c.toNat - 48)) 0,
      if '.' ∈ text then (text.reverse.takeWhile (· ≠ '.')).length else 0)
  else none

/-- An awk that knows decimal numbers and no escape sequences. -/
def Awk.simple : Awk where
  assign text := text
  compareNumbers x y :=
    match decimal x, decimal y with
    | some (a, i), some (b, j) => some (decide (a * 10 ^ j = b * 10 ^ i))
    | _, _ => none

theorem decimal_eq_none {text : List Char} {c : Char} (hc : c ∈ text)
    (hother : (c.isDigit || c = '.') = false) : decimal text = none := by
  have hall : text.all (fun c => c.isDigit || c = '.') = false := by
    rw [List.all_eq_false]
    exact ⟨c, hc, Bool.eq_false_iff.mp hother⟩
  rw [decimal, hall]
  rfl

theorem Awk.simple_lawful : Awk.simple.Lawful where
  assign_plain _ _ := rfl
  two_words v w y := by
    have hspace : ' ' ∈ v.chars ++ ' ' :: w.chars :=
      List.mem_append_right _ List.mem_cons_self
    simp only [Awk.simple, decimal_eq_none hspace (by decide)]
  underscore x y hy := by
    simp only [Awk.simple, decimal_eq_none hy (by decide)]
    split
    · rename_i hnone
      cases hnone
    · rfl

/-- A word given by its text. -/
def word (text : String) (h : text.toList.isEmpty = false)
    (hplain : text.toList.all (fun c => c != '=' && !isSpace c) = true) : Word where
  chars := text.toList
  nonempty hnil := by
    rw [hnil] at h
    cases h
  plain c hc := by
    have hboth := List.all_eq_true.mp hplain c hc
    rw [Bool.and_eq_true, bne_iff_ne, Bool.not_eq_true'] at hboth
    exact hboth

def throughputMib : Word := word "throughput_mib_per_sec" (by decide) (by decide)

def requestsPerSec : Word := word "requests_per_sec" (by decide) (by decide)

/-- The last two lines of the load client's report on `poll_server`. -/
def pollReport : List Line :=
  [⟨(throughputMib, word "282.399" (by decide) (by decide)),
    [(requestsPerSec, word "144588.364" (by decide) (by decide))]⟩,
   ⟨(word "avg_latency_ms" (by decide) (by decide),
      word "0.025760" (by decide) (by decide)),
    [(word "p99_latency_ms" (by decide) (by decide),
      word "0.036117" (by decide) (by decide))]⟩]

/-- The throughput, in front, is found. -/
theorem extractMetric_iff_throughput :
    extractMetric Awk.simple (pollReport.map Line.text) throughputMib.chars =
      (firstValue pollReport throughputMib).map Word.chars := by
  have hiff := (extractMetric_iff Awk.simple_lawful pollReport throughputMib
    (by decide)).2 (by decide)
  exact hiff.mpr ⟨_, rfl, pollReport.head (by decide), by decide, by decide, rfl⟩

/-- The request rate, behind it, is not: nothing is printed. -/
theorem requests_per_sec_missed :
    (firstValue pollReport requestsPerSec =
        some (word "144588.364" (by decide) (by decide)) ∧
      extractMetric Awk.simple (pollReport.map Line.text) requestsPerSec.chars = none) ∧
    ¬ ∀ awk : Awk, awk.Lawful → ∀ (log : List Line) (key : Word),
      key ∈ (log.flatMap Line.pairs).map Prod.fst →
        extractMetric awk (log.map Line.text) key.chars =
          (firstValue log key).map Word.chars := by
  have hfirst : firstValue pollReport requestsPerSec =
      some (word "144588.364" (by decide) (by decide)) := by decide
  have hmissed : extractMetric Awk.simple (pollReport.map Line.text)
      requestsPerSec.chars = none := by decide
  refine ⟨⟨hfirst, hmissed⟩, fun hall => ?_⟩
  have hsame := hall Awk.simple Awk.simple_lawful pollReport requestsPerSec (by decide)
  rw [hmissed, hfirst] at hsame
  cases hsame

end SysLab.PartB
