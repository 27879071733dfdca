import Mathlib.Data.List.Basic

/-!
# Comma-separated records

A record is a list of fields.  Programs print records as lines, the fields separated by
commas, and read them back with an automaton that takes the text line by line, a line
with its end still on it; this is the reader of Python's `csv` module in its default
dialect, `none` for an error.  A field in double quotes may contain anything, and a
double quote in it is written twice.

* `text` — records as lines, without quotes.
* `read` — what the automaton makes of a text; records without fields, from empty
  lines, are among them.
* `read_text` — records of plain fields are read back.
-/

namespace SysLab.Foundation.Csv

/-- A field, and a record. -/
abbrev Field := List Char
abbrev Record := List Field

/-! ## Printing -/

/-- The fields with commas between them. -/
def joined : Record → List Char
  | [] => []
  | [field] => field
  | field :: fields => field ++ ',' :: joined fields

/-- A line. -/
def line (record : Record) : List Char := joined record ++ ['\n']

/-- All the lines. -/
def text (records : List Record) : List Char := records.flatMap line

/-! ## Reading -/

/-- Lines with their ends: a line feed, a carriage return, or both. -/
def lines : List Char → List (List Char)
  | [] => []
  | '\n' :: rest => ['\n'] :: lines rest
  | '\r' :: '\n' :: rest => ['\r', '\n'] :: lines rest
  | '\r' :: rest => ['\r'] :: lines rest
  | c :: rest =>
      match lines rest with
      | [] => [[c]]
      | l :: ls => (c :: l) :: ls

/-- Where the automaton is. -/
inductive Phase
  | startRecord
  | startField
  | inField
  | inQuotedField
  | quoteInQuotedField
  | eatLineEnd
  deriving DecidableEq, Repr

/-- With the field and the fields before it. -/
structure Reader where
  phase : Phase
  field : Field
  fields : Record
  deriving DecidableEq, Repr

namespace Reader

/-- At the beginning of a record. -/
def empty : Reader := ⟨.startRecord, [], []⟩

/-- The field is finished. -/
def save (r : Reader) (phase : Phase) : Reader := ⟨phase, [], r.fields ++ [r.field]⟩

/-- A character of the field. -/
def add (r : Reader) (c : Char) (phase : Phase) : Reader := ⟨phase, r.field ++ [c], r.fields⟩

/-- Does a record or a field end before this? -/
def isLineEnd : Option Char → Bool
  | none => true
  | some c => c = '\n' || c = '\r'

/-- After a field that a line end follows. -/
def saveAtEnd (r : Reader) (c : Option Char) : Reader :=
  r.save (if c = none then .startRecord else .eatLineEnd)

/-- At the beginning of a field. -/
def startField (r : Reader) (c : Option Char) : Reader :=
  match c with
  | none => r.saveAtEnd c
  | some ch =>
      if isLineEnd c then r.saveAtEnd c
      else if ch = '"' then { r with phase := .inQuotedField }
      else if ch = ',' then r.save .startField
      else r.add ch .inField

/-- A character, or the end of the line behind its last one. -/
def step (r : Reader) (c : Option Char) : Option Reader :=
  match r.phase with
  | .startRecord =>
      if c = none then some r
      else if isLineEnd c then some { r with phase := .eatLineEnd }
      else some (r.startField c)
  | .startField => some (r.startField c)
  | .inField =>
      match c with
      | none => some (r.saveAtEnd c)
      | some ch =>
          if isLineEnd c then some (r.saveAtEnd c)
          else if ch = ',' then some (r.save .startField)
          else some (r.add ch .inField)
  | .inQuotedField =>
      match c with
      | none => some r
      | some ch =>
          if ch = '"' then some { r with phase := .quoteInQuotedField }
          else some (r.add ch .inQuotedField)
  | .quoteInQuotedField =>
      match c with
      | none => some (r.saveAtEnd c)
      | some ch =>
          if ch = '"' then some (r.add ch .inQuotedField)
          else if ch = ',' then some (r.save .startField)
          else if isLineEnd c then some (r.saveAtEnd c)
          else some (r.add ch .inField)
  | .eatLineEnd =>
      match c with
      | none => some { r with phase := .startRecord }
      | some _ => if isLineEnd c then some r else none

/-- The characters of a line. -/
def steps (r : Reader) : List Char → Option Reader
  | [] => r.step none
  | c :: rest => (r.step (some c)).bind fun r => r.steps rest

/-- The records in the lines that follow. -/
def records (r : Reader) : List (List Char) → Option (List Record)
  | [] =>
      if r.field ≠ [] ∨ r.phase = .inQuotedField then some [(r.save .startRecord).fields]
      else some []
  | l :: ls =>
      (r.steps l).bind fun r =>
        if r.phase = .startRecord then (empty.records ls).map (r.fields :: ·)
        else r.records ls

end Reader

/-- All the records of a text. -/
def read (text : List Char) : Option (List Record) := Reader.empty.records (lines text)

/-! ## Round trip -/

/-- No comma, quote or line end. -/
def Plain (field : Field) : Prop := ∀ c ∈ field, c ≠ ',' ∧ c ≠ '"' ∧ c ≠ '\n' ∧ c ≠ '\r'

instance (field : Field) : Decidable (Plain field) :=
  List.decidableBAll (fun c => c ≠ ',' ∧ c ≠ '"' ∧ c ≠ '\n' ∧ c ≠ '\r') field

/-- Plain fields, and not one empty one, which would be an empty line. -/
structure PlainRecord (record : Record) : Prop where
  nonempty : record ≠ []
  not_blank : record ≠ [[]]
  plain : ∀ field ∈ record, Plain field

theorem Plain.append {field field' : Field} (h : Plain field) (h' : Plain field') :
    Plain (field ++ field') := by
  intro c hc
  rcases List.mem_append.mp hc with hc | hc
  · exact h c hc
  · exact h' c hc

/-- A text without line ends stays in one line. -/
theorem lines_append {body : List Char} (h : ∀ c ∈ body, c ≠ '\n' ∧ c ≠ '\r')
    (rest : List Char) : lines (body ++ '\n' :: rest) = (body ++ ['\n']) :: lines rest := by
  induction body with
  | nil => rfl
  | cons c body ih =>
      obtain ⟨hnewline, hreturn⟩ := h c List.mem_cons_self
      have htail := ih fun c hc => h c (List.mem_cons_of_mem _ hc)
      show lines (c :: (body ++ '\n' :: rest)) = _
      rw [lines.eq_5]
      · rw [htail]
        rfl
      · exact hnewline
      · intro _ hc _
        exact hreturn hc
      · exact hreturn

namespace Reader

theorem isLineEnd_of_plain {c : Char} (h : c ≠ ',' ∧ c ≠ '"' ∧ c ≠ '\n' ∧ c ≠ '\r') :
    isLineEnd (some c) = false := by
  simp [isLineEnd, h.2.2.1, h.2.2.2]

/-- In a field, plain characters are added to it. -/
theorem steps_inField {field : Field} (h : Plain field) (start : Field) (fields : Record)
    (rest : List Char) :
    (⟨.inField, start, fields⟩ : Reader).steps (field ++ rest) =
      (⟨.inField, start ++ field, fields⟩ : Reader).steps rest := by
  induction field generalizing start with
  | nil => rw [List.append_nil, List.nil_append]
  | cons c field ih =>
      have hc := h c List.mem_cons_self
      have hstep : (⟨.inField, start, fields⟩ : Reader).step (some c) =
          some ⟨.inField, start ++ [c], fields⟩ := by
        simp only [step, isLineEnd_of_plain hc, if_neg hc.1, Bool.false_eq_true, if_false, add]
      rw [List.cons_append, steps, hstep, Option.bind_some,
        ih fun c hc => h c (List.mem_cons_of_mem _ hc), List.append_assoc]
      rfl

/-- At the beginning of a field too. -/
theorem steps_startField {field : Field} (h : Plain field) (hne : field ≠ [])
    {phase : Phase} (hphase : phase = .startRecord ∨ phase = .startField) (fields : Record)
    (rest : List Char) :
    (⟨phase, [], fields⟩ : Reader).steps (field ++ rest) =
      (⟨.inField, field, fields⟩ : Reader).steps rest := by
  obtain ⟨c, field, rfl⟩ := List.exists_cons_of_ne_nil hne
  have hc := h c List.mem_cons_self
  have hstart : (⟨phase, [], fields⟩ : Reader).startField (some c) =
      ⟨.inField, [c], fields⟩ := by
    simp only [startField, isLineEnd_of_plain hc, Bool.false_eq_true, if_false, if_neg hc.1,
      if_neg hc.2.1]
    rfl
  have hstep : (⟨phase, [], fields⟩ : Reader).step (some c) = some ⟨.inField, [c], fields⟩ := by
    rcases hphase with rfl | rfl
    · simp only [step, reduceCtorEq, if_false, isLineEnd_of_plain hc, Bool.false_eq_true, hstart]
    · simp only [step, hstart]
  rw [List.cons_append, steps, hstep, Option.bind_some,
    steps_inField (fun c hc => h c (List.mem_cons_of_mem _ hc))]
  rfl

/-- A record read to the end of its line, after some of its fields. -/
theorem steps_joined {record : Record} (hne : record ≠ []) (h : ∀ field ∈ record, Plain field)
    {phase : Phase} {fields : Record}
    (hphase : phase = .startField ∨ phase = .startRecord ∧ record ≠ [[]]) :
    (⟨phase, [], fields⟩ : Reader).steps (line record) =
      some ⟨.startRecord, [], fields ++ record⟩ := by
  induction record generalizing phase fields with
  | nil => exact absurd rfl hne
  | cons field record ih =>
      have hplain := h field List.mem_cons_self
      have hphase' : phase = .startRecord ∨ phase = .startField := by
        rcases hphase with hphase | ⟨hphase, _⟩
        · exact .inr hphase
        · exact .inl hphase
      cases record with
      | nil =>
          show (⟨phase, [], fields⟩ : Reader).steps (field ++ ['\n']) = _
          by_cases hempty : field = []
          · subst hempty
            rcases hphase with rfl | ⟨_, hblank⟩
            · rfl
            · exact absurd rfl hblank
          · rw [steps_startField hplain hempty hphase']
            rfl
      | cons field' record =>
          have hrest : (⟨.startField, [], fields ++ [field]⟩ : Reader).steps
              (line (field' :: record)) =
                some ⟨.startRecord, [], fields ++ [field] ++ field' :: record⟩ :=
            ih (List.cons_ne_nil _ _) (fun f hf => h f (List.mem_cons_of_mem _ hf)) (.inl rfl)
          have hline : line (field :: field' :: record) =
              field ++ ',' :: line (field' :: record) := List.append_assoc ..
          rw [List.append_assoc, List.singleton_append] at hrest
          rw [hline, ← hrest]
          by_cases hempty : field = []
          · subst hempty
            rcases hphase' with rfl | rfl
            · rfl
            · rfl
          · rw [steps_startField hplain hempty hphase']
            rfl

end Reader

/-- Records of plain fields, printed and read. -/
theorem read_text {records : List Record} (h : ∀ record ∈ records, PlainRecord record) :
    read (text records) = some records := by
  have hbody : ∀ record : Record, (∀ field ∈ record, Plain field) →
      ∀ c ∈ joined record, c ≠ '\n' ∧ c ≠ '\r' := by
    intro record
    induction record with
    | nil => intro _ c hc; cases hc
    | cons field record ih =>
        intro hplain c hc
        have hfield := hplain field List.mem_cons_self
        cases record with
        | nil => exact (hfield c hc).2.2
        | cons field' record =>
            rcases List.mem_append.mp hc with hc | hc
            · exact (hfield c hc).2.2
            · rcases List.mem_cons.mp hc with rfl | hc
              · decide
              · exact ih (fun f hf => hplain f (List.mem_cons_of_mem _ hf)) c hc
  unfold read
  induction records with
  | nil => rfl
  | cons record records ih =>
      have hrecord := h record List.mem_cons_self
      have hlines : lines (text (record :: records)) = line record :: lines (text records) := by
        show lines ((joined record ++ ['\n']) ++ text records) = _
        rw [List.append_assoc]
        exact lines_append (hbody record hrecord.plain) (text records)
      have hsteps : Reader.empty.steps (line record) = some ⟨.startRecord, [], record⟩ :=
        Reader.steps_joined hrecord.nonempty hrecord.plain (.inr ⟨rfl, hrecord.not_blank⟩)
      rw [hlines, Reader.records, hsteps, Option.bind_some, if_pos rfl,
        ih fun r hr => h r (List.mem_cons_of_mem _ hr)]
      rfl

end SysLab.Foundation.Csv
