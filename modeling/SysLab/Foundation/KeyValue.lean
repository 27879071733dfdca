import Mathlib.Data.List.Basic

/-!
# Lines of `key=value` pairs

A line is one or more `key=value` pairs with a space between two of them.  A
`Word`, which a key and a value each are, is not empty and holds no `=` and no
white space, so that a line can be taken apart again.

`splitOn_text` says what cutting a line at each `=` gives: not the keys and the
values, but the first key, then each value together with the key behind it, and
the last value.  `fields` lists these with the value that follows each.
-/

namespace SysLab.Foundation

/-- `[[:space:]]`. -/
def isSpace (c : Char) : Bool :=
  c = ' ' || c = '\t' || c = '\n' || c = '\x0b' || c = '\x0c' || c = '\r'

/-- A key or a value. -/
structure Word where
  chars : List Char
  nonempty : chars ≠ []
  plain : ∀ c ∈ chars, c ≠ '=' ∧ isSpace c = false

theorem Word.ext {v w : Word} (h : v.chars = w.chars) : v = w := by
  cases v
  cases w
  congr

instance : DecidableEq Word := fun v w =>
  decidable_of_iff (v.chars = w.chars) ⟨Word.ext, fun h => h ▸ rfl⟩

/-- The pairs of a line, at least one. -/
structure Line where
  first : Word × Word
  rest : List (Word × Word)
  deriving DecidableEq

namespace Line

def pairs (line : Line) : List (Word × Word) := line.first :: line.rest

/-- `key=value`. -/
def pairText (pair : Word × Word) : List Char := pair.1.chars ++ '=' :: pair.2.chars

/-- The line as it is written. -/
def text (line : Line) : List Char := [' '].intercalate (line.pairs.map pairText)

/-- From a value on, the last one. -/
def lastFrom (value : Word) : List (Word × Word) → Word
  | [] => value
  | pair :: rest => lastFrom pair.2 rest

/-- The value behind the last `=`. -/
def last (line : Line) : Word := lastFrom line.first.2 line.rest

/-- From a value on: it and the key behind it, and so on. -/
def fieldsFrom (value : Word) : List (Word × Word) → List (List Char × Option Word)
  | [] => [(value.chars, none)]
  | (key, value') :: rest =>
      (value.chars ++ ' ' :: key.chars, some value') :: fieldsFrom value' rest

/-- The fields of a line, each with the value that follows it. -/
def fields (line : Line) : List (List Char × Option Word) :=
  (line.first.1.chars, some line.first.2) :: fieldsFrom line.first.2 line.rest

/-! ## Cutting a line at each `=` -/

theorem fieldsFrom_ne_nil (value : Word) (rest : List (Word × Word)) :
    (fieldsFrom value rest).map Prod.fst ≠ [] := by
  cases rest <;> exact List.cons_ne_nil _ _

theorem equals_notMem (w : Word) : '=' ∉ w.chars := fun h => (w.plain _ h).1 rfl

/-- No field holds a `=`. -/
theorem equals_notMem_fieldsFrom (value : Word) (rest : List (Word × Word)) :
    ∀ field ∈ (fieldsFrom value rest).map Prod.fst, '=' ∉ field := by
  induction rest generalizing value with
  | nil =>
      intro field hmem
      rw [fieldsFrom, List.map_singleton, List.mem_singleton] at hmem
      exact hmem ▸ equals_notMem value
  | cons pair rest ih =>
      intro field hmem
      rw [fieldsFrom, List.map_cons, List.mem_cons] at hmem
      rcases hmem with rfl | hmem
      · show '=' ∉ value.chars ++ ' ' :: pair.1.chars
        rw [List.mem_append, List.mem_cons]
        rintro (h | h | h)
        · exact equals_notMem value h
        · cases h
        · exact equals_notMem pair.1 h
      · exact ih pair.2 field hmem

/-- The pairs joined by spaces are the fields joined by `=`. -/
theorem text_from (head : List Char) (value : Word) (rest : List (Word × Word)) :
    [' '].intercalate ((head ++ value.chars) :: rest.map pairText) =
      head ++ ['='].intercalate ((fieldsFrom value rest).map Prod.fst) := by
  induction rest generalizing head value with
  | nil => simp [fieldsFrom]
  | cons pair rest ih =>
      have hpair : pairText pair = (pair.1.chars ++ ['=']) ++ pair.2.chars := by
        rw [pairText, List.append_assoc]
        rfl
      rw [List.map_cons, List.intercalate_cons_cons, hpair, ih, fieldsFrom, List.map_cons,
        List.intercalate_cons_of_ne_nil (fieldsFrom_ne_nil _ _)]
      simp only [List.append_assoc, List.cons_append, List.nil_append]

/-- Cut at each `=`, a line falls into its fields. -/
theorem splitOn_text (line : Line) :
    line.text.splitOn '=' = line.fields.map Prod.fst := by
  have htext : line.text = line.first.1.chars ++ '=' ::
      ['='].intercalate ((fieldsFrom line.first.2 line.rest).map Prod.fst) := by
    have hpair : pairText line.first =
        (line.first.1.chars ++ ['=']) ++ line.first.2.chars := by
      rw [pairText, List.append_assoc]
      rfl
    rw [text, pairs, List.map_cons, hpair, text_from, List.append_assoc]
    rfl
  rw [htext, List.splitOn_append_cons_self_of_not_mem (equals_notMem _),
    List.splitOn_intercalate '=' (equals_notMem_fieldsFrom _ _) (fieldsFrom_ne_nil _ _)]
  rfl

theorem text_ne_nil (line : Line) : line.text ≠ [] := by
  intro h
  have hsplit := splitOn_text line
  rw [h] at hsplit
  have hhead : ([] : List Char) = line.first.1.chars := (List.cons.inj hsplit).1
  exact line.first.1.nonempty hhead.symm

/-! ## What follows a field -/

/-- The first word of a text that begins with a word and a space, or is one. -/
theorem takeWhile_word (w : Word) (tail : List Char)
    (h : tail = [] ∨ ∃ rest, tail = ' ' :: rest) :
    (w.chars ++ tail).takeWhile (fun c => !isSpace c) = w.chars := by
  rw [List.takeWhile_append_of_pos fun c hc => by rw [(w.plain c hc).2]; rfl]
  rcases h with rfl | ⟨rest, rfl⟩
  · rw [List.takeWhile_nil, List.append_nil]
  · rw [List.takeWhile_cons_of_neg (by decide), List.append_nil]

/-- The field from a value on begins with it. -/
theorem takeWhile_fieldsFrom (value : Word) (rest : List (Word × Word)) :
    (((fieldsFrom value rest).map Prod.fst).headD []).takeWhile
      (fun c => !isSpace c) = value.chars := by
  cases rest with
  | nil =>
      have h := takeWhile_word value [] (.inl rfl)
      rwa [List.append_nil] at h
  | cons pair rest => exact takeWhile_word value _ (.inr ⟨_, rfl⟩)

end Line

end SysLab.Foundation
