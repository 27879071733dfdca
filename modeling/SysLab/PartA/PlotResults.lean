import Mathlib.Data.Char
import Mathlib.Data.List.Lex
import Mathlib.Data.Prod.Lex
import SysLab.Foundation.Grouping
import SysLab.PartA.BenchRuns

/-!
# `plot_results.py`

What the script makes of the CSV file: `load_rows`, `filter_rows`, the charts that are
saved with their points, and the lines of the summary.  The drawing and the texts around
the numbers are left out.  `float` is a parameter, with any linearly ordered numbers as its
results; a row without the columns that `main` uses makes the script fail, as does any field
that `int` or `float` refuses.
-/

namespace SysLab.PartA.PlotResults

open SysLab.Foundation
open SysLab.Foundation.Csv (Field Record)

/-! ## `load_rows` -/

/-- `int(text)`, of ASCII characters. -/
def int (text : Field) : Option Int :=
  let stripped := (text.dropWhile isSpace).reverse.dropWhile isSpace |>.reverse
  let (sign, digits) := splitSign stripped
  if (digits.splitOn '_').all fun group => group ≠ [] ∧ group.all Char.isDigit then
    some (sign.apply (decimal (digits.filter (· ≠ '_'))))
  else none

/-- A row of the list that `load_rows` returns. -/
structure PlotRow (φ : Type) where
  method : Field
  syncMode : Field
  bufferSize : Int
  totalBytes : Int
  realSec : φ
  userSec : φ
  sysSec : φ
  mibPerSec : φ
  deriving DecidableEq

/-- `row[name]` of a row of `DictReader`: the last column of that name. -/
def column (names row : Record) (name : String) : Option Field :=
  ((names.zip row).reverse.find? fun c => c.1 = name.toList).map Prod.snd

section Script

variable {φ : Type} (float : Field → Option φ)

/-- The body of the loop of `load_rows`. -/
def loadRow (names row : Record) : Option (PlotRow φ) := do
  let bufferSize ← (column names row "buffer_size").bind int
  let totalBytes ← (column names row "total_bytes").bind int
  let realSec ← (column names row "real_sec").bind float
  let userSec ← (column names row "user_sec").bind float
  let sysSec ← (column names row "sys_sec").bind float
  let mibPerSec ← (column names row "mib_per_sec").bind float
  let method ← column names row "method"
  let syncMode ← column names row "sync_mode"
  pure ⟨method, syncMode, bufferSize, totalBytes, realSec, userSec, sysSec, mibPerSec⟩

/-- `load_rows`, on the text of the file; `DictReader` passes over empty lines. -/
def loadRows (text : List Char) : Option (List (PlotRow φ)) :=
  match Csv.read text with
  | none => none
  | some [] => some []
  | some (names :: records) => (records.filter (· ≠ [])).mapM (loadRow float names)

/-- An ASCII file as a text. -/
def asciiText (bytes : List UInt8) : Option (List Char) :=
  if bytes.all (· < 128) then some (bytes.map fun b => Char.ofNat b.toNat) else none

end Script

section Report

variable {φ : Type} [LinearOrder φ]

/-! ## Charts -/

/-- `filter_rows`. -/
def filterRows (rows : List (PlotRow φ)) (method : String) (syncMode : Option String) :
    List (PlotRow φ) :=
  let result := rows.filter fun row => row.method = method.toList
  match syncMode with
  | none => result
  | some mode => result.filter fun row => row.syncMode = mode.toList

/-- The points of a line in `save_line_chart` and `save_time_chart`. -/
def points (field : PlotRow φ → φ) (rows : List (PlotRow φ)) : List (Int × φ) :=
  (rows.insertionSort fun r r' => r.bufferSize ≤ r'.bufferSize).map fun r =>
    (r.bufferSize, field r)

/-- `read_family` and `write_family`. -/
def readFamily (rows : List (PlotRow φ)) : List (String × List (PlotRow φ)) :=
  [("read()", filterRows rows "read" none), ("fread()", filterRows rows "fread" none),
    ("my_fread()", filterRows rows "my_fread" none)]

def writeFamily (rows : List (PlotRow φ)) : List (String × List (PlotRow φ)) :=
  [("write() no O_SYNC", filterRows rows "write" (some "off")),
    ("write() with O_SYNC", filterRows rows "write" (some "on"))]

/-- The lines of a chart with their labels. -/
def chart (field : PlotRow φ → φ) (family : List (String × List (PlotRow φ))) :
    List (String × List (Int × φ)) :=
  family.map fun x => (x.1, points field x.2)

/-! ## The summary -/

/-- The keys of `best_rows`, compared one component after the other. -/
abbrev Key := Field ×ₗ Field

def PlotRow.key (row : PlotRow φ) : Key := toLex (row.method, row.syncMode)

/-- `best_rows.items()`, sorted. -/
def bestRows (rows : List (PlotRow φ)) : List (Key × List (PlotRow φ)) :=
  (Grouping.groups PlotRow.key rows).insertionSort fun g g' => g.1 ≤ g'.1

/-- The row of a line of the summary; no group is empty. -/
def summaryLine : Key × List (PlotRow φ) → Option (Key × PlotRow φ)
  | (_, []) => none
  | (key, row :: rest) => some (key, Grouping.firstMax PlotRow.mibPerSec row rest)

def summary (rows : List (PlotRow φ)) : List (Key × PlotRow φ) :=
  (bestRows rows).filterMap summaryLine

/-- What a chart shows: lines over the buffer sizes, or bars. -/
inductive Figure (φ : Type)
  | lines (series : List (String × List (Int × φ)))
  | bars (values : List (String × φ))

/-- What the script writes: the charts by the names of their files, and the summary. -/
structure Output (φ : Type) where
  figures : List (String × Figure φ)
  summary : List (Key × PlotRow φ)

/-- `getc_vs_fgetc.png`, if there are rows for both. -/
def barChart (rows : List (PlotRow φ)) : List (String × Figure φ) :=
  match filterRows rows "getc" none, filterRows rows "fgetc" none with
  | r :: _, r' :: _ =>
      [("getc_vs_fgetc.png", .bars [("getc()", r.mibPerSec), ("fgetc()", r'.mibPerSec)])]
  | _, _ => []

/-- The output from the rows. -/
def output (rows : List (PlotRow φ)) : Output φ where
  figures :=
    [("read_throughput.png", .lines (chart PlotRow.mibPerSec (readFamily rows))),
      ("read_wall_time.png", .lines (chart PlotRow.realSec (readFamily rows))),
      ("write_throughput.png", .lines (chart PlotRow.mibPerSec (writeFamily rows))),
      ("write_wall_time.png", .lines (chart PlotRow.realSec (writeFamily rows)))] ++
    barChart rows
  summary := summary rows

/-- `main` past its arguments, on the CSV file; `none` if it fails. -/
def main (float : Field → Option φ) (csv : List UInt8) : Option (Output φ) :=
  (asciiText csv).bind fun text =>
    (loadRows float text).bind fun rows => if rows = [] then none else some (output rows)

end Report

end SysLab.PartA.PlotResults
