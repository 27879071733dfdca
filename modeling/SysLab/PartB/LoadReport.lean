import SysLab.Foundation.Numeral
import SysLab.PartB.ExtractMetric

/-!
# The load client's report

The four lines that `main` of `load_client.c` prints, and what `extract_metric` finds
in them.

* `extractMetric_report` — a key in front of the second, the third or the fourth line
  is found with its value, no other key is.
-/

namespace SysLab.PartB.LoadClient

open SysLab.Foundation

/-- A number as `printf` shows it. -/
structure Figure extends Word where
  no_underscore : '_' ∉ chars

theorem mem_text_ofInt {z : Int} {c : Char} (hc : c ∈ (Numeral.ofInt z).text) :
    c = '-' ∨ c.isDigit = true := by
  have hsplit : (Numeral.ofInt z).text =
      (Numeral.ofInt z).sign.text ++ (Numeral.ofInt z).digits := rfl
  rw [hsplit, List.mem_append] at hc
  rcases hc with hc | hc
  · left
    simp only [Numeral.ofInt] at hc
    split at hc
    · exact List.mem_singleton.mp hc
    · exact absurd hc List.not_mem_nil
  · exact .inr ((Numeral.ofInt z).digit c hc)

/-- What `%d`, `%zu` and `PRIu64` print. -/
def intFigure (z : Int) : Figure where
  chars := (Numeral.ofInt z).text
  nonempty := (Numeral.ofInt z).text_ne_nil
  plain c hc := by
    rcases mem_text_ofInt hc with rfl | hdigit
    · decide
    · exact ⟨fun h => absurd (h ▸ hdigit) (by decide), isSpace_of_digit hdigit⟩
  no_underscore hc := by
    rcases mem_text_ofInt hc with h | h
    · exact absurd h (by decide)
    · exact absurd h (by decide)

/-- A text that is a word. -/
def IsWord (text : String) : Bool :=
  !text.toList.isEmpty && text.toList.all fun c => c != '=' && !isSpace c

/-- A key of the report. -/
def reportKey (text : String) (h : IsWord text = true) : Word :=
  have hboth := Bool.and_eq_true_iff.mp h
  word text ((Bool.not_eq_true' _).mp hboth.1) hboth.2

def avgLatencyMs : Word := reportKey "avg_latency_ms" (by decide)

def p99LatencyMs : Word := reportKey "p99_latency_ms" (by decide)

/-- What `main` of `load_client.c` prints; the last five are made of floating-point
numbers. -/
structure Report where
  connections : Int
  requestsPerConnection : Int
  payloadSize : Nat
  totalRequests : Int
  totalBytes : Nat
  durationSec : Figure
  throughputMib : Figure
  rps : Figure
  avgLatencyMs : Figure
  p99LatencyMs : Figure

namespace Report

variable (r : Report)

/-- The first line, up to the word behind its last value. -/
def options : Line where
  first := (reportKey "connections" (by decide), (intFigure r.connections).toWord)
  rest :=
    [(reportKey "requests_per_connection" (by decide),
      (intFigure r.requestsPerConnection).toWord),
     (reportKey "payload_size" (by decide), (intFigure r.payloadSize).toWord)]

def totals : Line where
  first := (reportKey "duration_sec" (by decide), r.durationSec.toWord)
  rest :=
    [(reportKey "total_requests" (by decide), (intFigure r.totalRequests).toWord),
     (reportKey "total_bytes" (by decide), (intFigure r.totalBytes).toWord)]

def rates : Line where
  first := (PartB.throughputMib, r.throughputMib.toWord)
  rest := [(requestsPerSec, r.rps.toWord)]

def latencies : Line where
  first := (LoadClient.avgLatencyMs, r.avgLatencyMs.toWord)
  rest := [(LoadClient.p99LatencyMs, r.p99LatencyMs.toWord)]

def lines : List (List Char) :=
  (r.options.text ++ " bytes".toList) :: [r.totals, r.rates, r.latencies].map Line.text

end Report

section Extract

variable {awk : Awk}

/-- A key with an underscore is compared as a string. -/
theorem eq_underscore (hawk : awk.Lawful) {x key : List Char} (hkey : '_' ∈ key) :
    awk.eq x key = decide (x = key) := by
  rw [Awk.eq, hawk.underscore x key hkey, Option.getD_none]

/-- On a line that ends with a figure, such a key is found in front only. -/
theorem scanFields_line (hawk : awk.Lawful) {key : Word} (hkey : '_' ∈ key.chars) (line : Line)
    (hlast : '_' ∉ line.last.chars) :
    scanFields awk key.chars (awkFields line.text) =
      if line.first.1 = key then some line.first.2.chars else none := by
  have hend : line.last.chars ≠ key.chars := fun h => hlast (h ▸ hkey)
  rw [scanFields_text, find?_fields hawk, eq_underscore hawk hkey, eq_underscore hawk hkey]
  by_cases hfirst : line.first.1 = key
  · rw [if_pos hfirst, hfirst, if_pos (decide_eq_true rfl)]
    rfl
  · have hchars : line.first.1.chars ≠ key.chars := fun h => hfirst (Word.ext h)
    rw [if_neg hfirst, if_neg (by simpa using hchars), if_neg (by simpa using hend)]
    rfl

/-- On the first line of a report it is not found. -/
theorem scanFields_options (hawk : awk.Lawful) {key : Word} (hkey : '_' ∈ key.chars)
    (r : Report) :
    scanFields awk key.chars (awkFields (r.options.text ++ " bytes".toList)) = none := by
  let bytes : Word := reportKey "bytes" (by decide)
  let connections : Word := reportKey "connections" (by decide)
  let requests : Word := reportKey "requests_per_connection" (by decide)
  let payload : Word := reportKey "payload_size" (by decide)
  have htext : r.options.text ++ " bytes".toList =
      connections.chars ++ '=' ::
        (((intFigure r.connections).chars ++ ' ' :: requests.chars) ++ '=' ::
          (((intFigure r.requestsPerConnection).chars ++ ' ' :: payload.chars) ++ '=' ::
            ((intFigure r.payloadSize).chars ++ ' ' :: bytes.chars))) := by
    have hbytes : " bytes".toList = ' ' :: bytes.chars := rfl
    rw [hbytes]
    simp only [Line.text, Line.pairs, Report.options, List.map_cons, List.map_nil, Line.pairText,
      List.intercalate_cons_cons, List.intercalate_singleton, List.append_assoc,
      List.cons_append, List.nil_append]
    rfl
  have hpair : ∀ v w : Word, '=' ∉ v.chars ++ ' ' :: w.chars := by
    intro v w hmem
    rcases List.mem_append.mp hmem with h | h
    · exact Line.equals_notMem v h
    · rcases List.mem_cons.mp h with h | h
      · cases h
      · exact Line.equals_notMem w h
  have hfields : awkFields (r.options.text ++ " bytes".toList) =
      [connections.chars, (intFigure r.connections).chars ++ ' ' :: requests.chars,
        (intFigure r.requestsPerConnection).chars ++ ' ' :: payload.chars,
        (intFigure r.payloadSize).chars ++ ' ' :: bytes.chars] := by
    rw [awkFields, if_neg (by simp), htext,
      List.splitOn_append_cons_self_of_not_mem (Line.equals_notMem _),
      List.splitOn_append_cons_self_of_not_mem (hpair _ _),
      List.splitOn_append_cons_self_of_not_mem (hpair _ _),
      List.splitOn_eq_singleton (hpair _ _)]
  have hconnections : awk.eq connections.chars key.chars = false := by
    rw [eq_underscore hawk hkey, decide_eq_false_iff_not]
    intro h
    have hmem : '_' ∈ connections.chars := h ▸ hkey
    exact absurd hmem (by decide)
  rw [hfields]
  simp only [scanFields, hconnections, eq_two_words hawk, Bool.false_eq_true, if_false]

/-- A key with an underscore and no escape sequence is found in front of the last three
lines only. -/
theorem extractMetric_report (hawk : awk.Lawful) (r : Report) (key : Word)
    (hkey : '_' ∈ key.chars) (hplain : '\\' ∉ key.chars) :
    extractMetric awk r.lines key.chars =
      [r.totals, r.rates, r.latencies].findSome? fun line =>
        if line.first.1 = key then some line.first.2.chars else none := by
  have htotals := scanFields_line hawk hkey r.totals (intFigure _).no_underscore
  have hrates := scanFields_line hawk hkey r.rates r.rps.no_underscore
  have hlatencies := scanFields_line hawk hkey r.latencies r.p99LatencyMs.no_underscore
  rw [extractMetric, hawk.assign_plain _ hplain, Report.lines, List.findSome?_cons,
    scanFields_options hawk hkey]
  simp only [List.findSome?_map, List.findSome?_cons, List.findSome?_nil, Function.comp_apply,
    htotals, hrates, hlatencies]

end Extract

end SysLab.PartB.LoadClient
