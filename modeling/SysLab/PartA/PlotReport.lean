import SysLab.PartA.PlotResults

/-!
# From the benchmark to the summary

`load_rows` reads back the rows that `write_result` printed, and the summary has one line
for each method and mode among them, in order, with the first of the rows of largest
throughput.
-/

namespace SysLab.PartA.PlotResults

open SysLab.Foundation
open SysLab.Foundation.Csv (Field Record Plain PlainRecord)

/-! ## Reading back -/

theorem digits_numeralText (n : Nat) : ∀ c ∈ numeralText n, c.isDigit = true := fun _ hc =>
  Nat.isDigit_of_mem_toDigits (by decide) (by decide) hc

theorem dropWhile_isSpace {text : Field} (h : ∀ c ∈ text, c.isDigit = true) :
    text.dropWhile isSpace = text := by
  cases text with
  | nil => rfl
  | cons c text =>
      exact List.dropWhile_cons_of_neg (by simp [isSpace_of_digit (h c List.mem_cons_self)])

/-- `int` reads what `%zu` prints. -/
theorem int_numeralText (n : Nat) : int (numeralText n) = some (n : Int) := by
  have hdigit := digits_numeralText n
  have hreverse : ∀ c ∈ (numeralText n).reverse, c.isDigit = true := fun c hc =>
    hdigit c (List.mem_reverse.mp hc)
  have hvalue : decimal (numeralText n) = n := Nat.ofDigitChars_ten_toDigits
  have hsign : splitSign (numeralText n) = (.none, numeralText n) := by
    obtain ⟨c, cs, hcons⟩ := List.exists_cons_of_ne_nil (Nat.toDigits_ne_nil (n := n) (b := 10))
    have htext : numeralText n = c :: cs := hcons
    rw [htext]
    exact splitSign_digit (hdigit c (htext ▸ List.mem_cons_self)) cs
  have hunderscore : '_' ∉ numeralText n := fun hmem => by
    have hfalse := hdigit _ hmem
    revert hfalse
    decide
  have hfilter : (numeralText n).filter (· ≠ '_') = numeralText n :=
    List.filter_eq_self.mpr fun c hc => by
      simp only [ne_eq, decide_not, Bool.not_eq_true', decide_eq_false_iff_not]
      rintro rfl
      exact hunderscore hc
  have hne : numeralText n ≠ [] := Nat.toDigits_ne_nil
  unfold int
  rw [dropWhile_isSpace hdigit, dropWhile_isSpace hreverse, List.reverse_reverse]
  dsimp only
  rw [hsign]
  dsimp only
  rw [List.splitOn_eq_singleton hunderscore, hfilter, hvalue, if_pos]
  · rfl
  · simpa [hne] using hdigit

/-- ASCII characters, and no comma, quote or line end. -/
def Word (text : Field) : Prop := Plain text ∧ ∀ c ∈ text, c.toNat < 128

instance (text : Field) : Decidable (Word text) :=
  @instDecidableAnd _ _ inferInstance (List.decidableBAll (fun c => c.toNat < 128) text)

/-- The texts of a `timing_t` are words that `float` reads. -/
structure Readable {φ : Type} (float : Field → Option φ) (timing : Timing) : Prop where
  words : ∀ text ∈ [timing.realSec, timing.userSec, timing.sysSec, timing.mibPerSec], Word text
  realSec : (float timing.realSec).isSome
  userSec : (float timing.userSec).isSome
  sysSec : (float timing.sysSec).isSome
  mibPerSec : (float timing.mibPerSec).isSome

/-- The names of the columns. -/
def csvNames : Record :=
  ["method", "buffer_size", "sync_mode", "total_bytes", "real_sec", "user_sec", "sys_sec",
    "mib_per_sec", "notes"].map String.toList

/-- The fields of a row. -/
def fields (row : Row) : Record :=
  [row.method.toList, numeralText row.bufferSize, row.syncMode.toList,
    numeralText row.totalBytes, row.timing.realSec, row.timing.userSec, row.timing.sysSec,
    row.timing.mibPerSec, row.notes.toList]

/-- What `main` prints are records. -/
theorem csvText_eq (rows : List Row) : csvText rows = Csv.text (csvNames :: rows.map fields) := by
  have hrow : ∀ row : Row, row.text = Csv.line (fields row) := by
    intro row
    simp [Row.text, Csv.line, Csv.joined, fields]
  have hheader : csvHeader = Csv.line csvNames := by decide
  rw [csvText, hheader, Csv.text, List.flatMap_cons, List.flatMap_map]
  exact congrArg _ (List.flatMap_congr fun row _ => hrow row)

/-- A row that was printed, and one that was loaded. -/
structure Matches {φ : Type} (float : Field → Option φ) (row : Row) (p : PlotRow φ) : Prop where
  method : p.method = row.method.toList
  syncMode : p.syncMode = row.syncMode.toList
  bufferSize : p.bufferSize = row.bufferSize
  totalBytes : p.totalBytes = row.totalBytes
  realSec : float row.timing.realSec = some p.realSec
  userSec : float row.timing.userSec = some p.userSec
  sysSec : float row.timing.sysSec = some p.sysSec
  mibPerSec : float row.timing.mibPerSec = some p.mibPerSec

theorem loadRow_fields {φ : Type} {float : Field → Option φ} {row : Row}
    (h : Readable float row.timing) :
    ∃ p, loadRow float csvNames (fields row) = some p ∧ Matches float row p := by
  obtain ⟨realSec, hreal⟩ := Option.isSome_iff_exists.mp h.realSec
  obtain ⟨userSec, huser⟩ := Option.isSome_iff_exists.mp h.userSec
  obtain ⟨sysSec, hsys⟩ := Option.isSome_iff_exists.mp h.sysSec
  obtain ⟨mibPerSec, hmib⟩ := Option.isSome_iff_exists.mp h.mibPerSec
  have hcolumns : column csvNames (fields row) "buffer_size" = some (numeralText row.bufferSize) ∧
      column csvNames (fields row) "total_bytes" = some (numeralText row.totalBytes) ∧
      column csvNames (fields row) "real_sec" = some row.timing.realSec ∧
      column csvNames (fields row) "user_sec" = some row.timing.userSec ∧
      column csvNames (fields row) "sys_sec" = some row.timing.sysSec ∧
      column csvNames (fields row) "mib_per_sec" = some row.timing.mibPerSec ∧
      column csvNames (fields row) "method" = some row.method.toList ∧
      column csvNames (fields row) "sync_mode" = some row.syncMode.toList :=
    ⟨rfl, rfl, rfl, rfl, rfl, rfl, rfl, rfl⟩
  obtain ⟨h1, h2, h3, h4, h5, h6, h7, h8⟩ := hcolumns
  refine ⟨⟨row.method.toList, row.syncMode.toList, row.bufferSize, row.totalBytes, realSec,
    userSec, sysSec, mibPerSec⟩, ?_, ⟨rfl, rfl, rfl, rfl, hreal, huser, hsys, hmib⟩⟩
  simp only [loadRow, h1, h2, h3, h4, h5, h6, h7, h8, Option.bind_some, int_numeralText, hreal,
    huser, hsys, hmib]
  rfl

/-- So are the texts that `main` passes to `write_result`. -/
structure Named (row : Row) : Prop where
  method : Word row.method.toList
  syncMode : Word row.syncMode.toList
  notes : Word row.notes.toList

theorem named_row (call : Call) (total : Nat) (timing : Timing) :
    Named (call.row total timing) := by
  have hwords : ∀ text ∈ ["read", "getc", "fgetc", "fread", "my_fread", "write", "n/a", "off",
      "on", "read()", "getc() macro path", "fgetc() function path", "fread()",
      "custom buffered read()", "write() without O_SYNC", "write() with O_SYNC"],
      Word text.toList := by decide
  cases call with
  | readSyscall _ _ =>
      exact ⟨hwords _ (by simp [Call.row]), hwords _ (by simp [Call.row]),
        hwords _ (by simp [Call.row])⟩
  | getcLike _ useFunction =>
      cases useFunction
      all_goals exact ⟨hwords _ (by simp [Call.row]), hwords _ (by simp [Call.row]),
        hwords _ (by simp [Call.row])⟩
  | freadStdio _ _ =>
      exact ⟨hwords _ (by simp [Call.row]), hwords _ (by simp [Call.row]),
        hwords _ (by simp [Call.row])⟩
  | myFread _ _ _ =>
      exact ⟨hwords _ (by simp [Call.row]), hwords _ (by simp [Call.row]),
        hwords _ (by simp [Call.row])⟩
  | writeSyscall _ _ _ useOsync =>
      cases useOsync
      all_goals exact ⟨hwords _ (by simp [Call.row]), hwords _ (by simp [Call.row]),
        hwords _ (by simp [Call.row])⟩

theorem timing_row (call : Call) (total : Nat) (timing : Timing) :
    (call.row total timing).timing = timing := by
  cases call with
  | readSyscall _ _ => rfl
  | getcLike _ useFunction => cases useFunction <;> rfl
  | freadStdio _ _ => rfl
  | myFread _ _ _ => rfl
  | writeSyscall _ _ _ useOsync => cases useOsync <;> rfl

theorem word_numeralText (n : Nat) : Word (numeralText n) := by
  have hdigit := digits_numeralText n
  refine ⟨fun c hc => ?_, fun c hc => ?_⟩
  · have hc' := hdigit c hc
    refine ⟨?_, ?_, ?_, ?_⟩ <;> rintro rfl <;> revert hc' <;> decide
  · have hc' := hdigit c hc
    simp only [Char.isDigit, Bool.and_eq_true, decide_eq_true_eq] at hc'
    have hle : c.val.toNat ≤ 57 := hc'.2
    show c.val.toNat < 128
    omega

section Loaded

variable {φ : Type} {float : Field → Option φ} {rows : List Row}

theorem word_fields {row : Row} (hnamed : Named row) (h : Readable float row.timing) :
    ∀ field ∈ fields row, Word field := by
  have htiming := h.words
  simp only [List.forall_mem_cons, List.not_mem_nil, false_imp_iff, implies_true, and_true]
    at htiming
  simp only [fields, List.forall_mem_cons, List.not_mem_nil, false_imp_iff, implies_true,
    and_true]
  exact ⟨hnamed.method, word_numeralText _, hnamed.syncMode, word_numeralText _, htiming.1,
    htiming.2.1, htiming.2.2.1, htiming.2.2.2, hnamed.notes⟩

theorem mapM_loadRow (h : ∀ row ∈ rows, Readable float row.timing) :
    ∃ plotted, (rows.map fields).mapM (loadRow float csvNames) = some plotted ∧
      List.Forall₂ (Matches float) rows plotted := by
  induction rows with
  | nil => exact ⟨[], rfl, .nil⟩
  | cons row rows ih =>
      obtain ⟨p, hp, hmatches⟩ := loadRow_fields (h row List.mem_cons_self)
      obtain ⟨plotted, hplotted, hall⟩ := ih fun r hr => h r (List.mem_cons_of_mem _ hr)
      refine ⟨p :: plotted, ?_, .cons hmatches hall⟩
      rw [List.map_cons, List.mapM_cons, hp, hplotted]
      rfl

/-- `load_rows` reads back what `main` of `parta_bench` printed. -/
theorem loadRows_csvText (hnamed : ∀ row ∈ rows, Named row)
    (h : ∀ row ∈ rows, Readable float row.timing) :
    ∃ plotted, loadRows float (csvText rows) = some plotted ∧
      List.Forall₂ (Matches float) rows plotted := by
  have hrecords : ∀ record ∈ csvNames :: rows.map fields, PlainRecord record := by
    intro record hrecord
    rcases List.mem_cons.mp hrecord with rfl | hrecord
    · exact ⟨by decide, by decide, by decide⟩
    · obtain ⟨row, hrow, rfl⟩ := List.mem_map.mp hrecord
      exact ⟨List.cons_ne_nil _ _, by simp [fields], fun field hfield =>
        (word_fields (hnamed row hrow) (h row hrow) field hfield).1⟩
  have hkeep : (rows.map fields).filter (· ≠ []) = rows.map fields := by
    refine List.filter_eq_self.mpr fun record hrecord => ?_
    obtain ⟨row, _, rfl⟩ := List.mem_map.mp hrecord
    exact decide_eq_true (List.cons_ne_nil _ _)
  rw [loadRows, csvText_eq, Csv.read_text hrecords]
  dsimp only
  rw [hkeep]
  exact mapM_loadRow h

/-- The file is ASCII. -/
theorem asciiText_csvText (hnamed : ∀ row ∈ rows, Named row)
    (h : ∀ row ∈ rows, Readable float row.timing) :
    asciiText (asciiBytes (csvText rows)) = some (csvText rows) := by
  have hjoined : ∀ record : Record, (∀ field ∈ record, ∀ c ∈ field, c.toNat < 128) →
      ∀ c ∈ Csv.joined record, c.toNat < 128 := by
    intro record
    induction record with
    | nil => intro _ c hc; cases hc
    | cons field record ih =>
        intro hfields c hc
        cases record with
        | nil => exact hfields field List.mem_cons_self c hc
        | cons field' record =>
            rcases List.mem_append.mp hc with hc | hc
            · exact hfields field List.mem_cons_self c hc
            · rcases List.mem_cons.mp hc with rfl | hc
              · decide
              · exact ih (fun f hf => hfields f (List.mem_cons_of_mem _ hf)) c hc
  have hascii : ∀ c ∈ csvText rows, c.toNat < 128 := by
    intro c hc
    rw [csvText_eq] at hc
    obtain ⟨record, hrecord, hline⟩ := List.mem_flatMap.mp hc
    have hfields : ∀ field ∈ record, ∀ c ∈ field, c.toNat < 128 := by
      rcases List.mem_cons.mp hrecord with rfl | hrecord
      · have hnames : ∀ name ∈ csvNames, Word name := by decide
        exact fun name hname => (hnames name hname).2
      · obtain ⟨row, hrow, rfl⟩ := List.mem_map.mp hrecord
        exact fun field hfield =>
          (word_fields (hnamed row hrow) (h row hrow) field hfield).2
    rcases List.mem_append.mp hline with hbody | hend
    · exact hjoined record hfields c hbody
    · rw [List.mem_singleton] at hend
      rw [hend]
      decide
  have hbyte : ∀ c : Char, c.toNat < 128 → (UInt8.ofNat c.toNat).toNat = c.toNat := by
    intro c hc
    rw [UInt8.toNat_ofNat', Nat.mod_eq_of_lt (by omega)]
  unfold asciiText asciiBytes
  rw [if_pos, List.map_map]
  · refine congrArg some (Eq.trans (List.map_congr_left fun c hc => ?_) (List.map_id _))
    show Char.ofNat (UInt8.ofNat c.toNat).toNat = c
    rw [hbyte c (hascii c hc), Char.ofNat_toNat]
  · rw [List.all_map, List.all_eq_true]
    intro c hc
    show decide (UInt8.ofNat c.toNat < 128) = true
    refine decide_eq_true (UInt8.lt_iff_toNat_lt.mpr ?_)
    rw [hbyte c (hascii c hc)]
    exact hascii c hc

end Loaded

/-! ## The summary -/

theorem bestRows_perm {φ : Type} (rows : List (PlotRow φ)) :
    (bestRows rows).Perm (Grouping.groups PlotRow.key rows) :=
  List.perm_insertionSort _ _

/-- A group is not empty. -/
theorem exists_of_mem_bestRows {φ : Type} {rows : List (PlotRow φ)}
    {g : Key × List (PlotRow φ)} (hg : g ∈ bestRows rows) :
    ∃ row rest, g.2 = row :: rest ∧ row :: rest = rows.filter fun r => r.key = g.1 := by
  have hgrouped := Grouping.grouped PlotRow.key rows
  have hmem := (bestRows_perm rows).mem_iff.mp hg
  have hitems := hgrouped.items g hmem
  obtain ⟨row, hrow, hkey⟩ := (hgrouped.keys g.1).mp (List.mem_map_of_mem hmem)
  have hin : row ∈ g.2 := by
    rw [hitems]
    exact List.mem_filter.mpr ⟨hrow, decide_eq_true hkey⟩
  obtain ⟨first, rest, hcons⟩ := List.exists_cons_of_ne_nil (List.ne_nil_of_mem hin)
  exact ⟨first, rest, hcons, hcons ▸ hitems⟩

section Summary

variable {φ : Type} [LinearOrder φ] {rows : List (PlotRow φ)}

theorem summary_keys (rows : List (PlotRow φ)) :
    (summary rows).map Prod.fst = (bestRows rows).map Prod.fst := by
  have hkeys : ∀ gs : List (Key × List (PlotRow φ)), (∀ g ∈ gs, g.2 ≠ []) →
      (gs.filterMap summaryLine).map Prod.fst = gs.map Prod.fst := by
    intro gs hne
    induction gs with
    | nil => rfl
    | cons g gs ih =>
        obtain ⟨k, items⟩ := g
        cases items with
        | nil => exact absurd rfl (hne _ List.mem_cons_self)
        | cons row rest =>
            exact congrArg (k :: ·) (ih fun g hg => hne g (List.mem_cons_of_mem _ hg))
  refine hkeys _ fun g hg => ?_
  obtain ⟨row, rest, hcons, _⟩ := exists_of_mem_bestRows hg
  rw [hcons]
  exact List.cons_ne_nil _ _

/-- The keys of the lines are strictly increasing, and they are those of the rows. -/
theorem summary_sorted (rows : List (PlotRow φ)) :
    ((summary rows).map Prod.fst).Pairwise (· < ·) ∧
      ∀ k, k ∈ (summary rows).map Prod.fst ↔ ∃ row ∈ rows, row.key = k := by
  have hgrouped := Grouping.grouped PlotRow.key rows
  have hperm := (bestRows_perm rows).map Prod.fst
  rw [summary_keys]
  constructor
  · have htotal : Std.Total fun g g' : Key × List (PlotRow φ) => g.1 ≤ g'.1 :=
      ⟨fun g g' => le_total g.1 g'.1⟩
    have htrans : IsTrans (Key × List (PlotRow φ)) fun g g' => g.1 ≤ g'.1 :=
      ⟨fun _ _ _ h h' => le_trans h h'⟩
    have hsorted : (bestRows rows).Pairwise fun g g' => g.1 ≤ g'.1 :=
      List.pairwise_insertionSort _ _
    have hnodup : ((bestRows rows).map Prod.fst).Nodup := hperm.nodup_iff.mpr hgrouped.nodup
    exact (List.pairwise_map.mpr hsorted).imp₂ (fun _ _ hle hne => lt_of_le_of_ne hle hne) hnodup
  · intro k
    rw [hperm.mem_iff]
    exact hgrouped.keys k

/-- A line has the first of the rows of its key that have the largest throughput. -/
theorem summary_best {line : Key × PlotRow φ} (hline : line ∈ summary rows) :
    ∃ before after, rows = before ++ line.2 :: after ∧ line.2.key = line.1 ∧
      (∀ r ∈ before, r.key = line.1 → r.mibPerSec < line.2.mibPerSec) ∧
      ∀ r ∈ after, r.key = line.1 → r.mibPerSec ≤ line.2.mibPerSec := by
  obtain ⟨g, hg, hsome⟩ := List.mem_filterMap.mp hline
  obtain ⟨row, rest, hcons, hfilter⟩ := exists_of_mem_bestRows hg
  rw [← Prod.eta g, hcons] at hsome
  cases hsome
  obtain ⟨before, after, heq, hbefore, hafter⟩ :=
    Grouping.firstMax_spec PlotRow.mibPerSec row rest
  rw [heq] at hfilter
  obtain ⟨l₁, l₂, hrows, hl₁, hl₂⟩ := List.filter_eq_append_iff.mp hfilter.symm
  obtain ⟨l₃, l₄, rfl, hl₃, hkey, hl₄⟩ := List.filter_eq_cons_iff.mp hl₂
  refine ⟨l₁ ++ l₃, l₄, by rw [hrows, List.append_assoc], of_decide_eq_true hkey, ?_, ?_⟩
  · intro r hr hrkey
    rcases List.mem_append.mp hr with hr | hr
    · exact hbefore r (hl₁ ▸ List.mem_filter.mpr ⟨hr, decide_eq_true hrkey⟩)
    · exact absurd (decide_eq_true hrkey) (hl₃ r hr)
  · intro r hr hrkey
    exact hafter r (hl₄ ▸ List.mem_filter.mpr ⟨hr, decide_eq_true hrkey⟩)

end Summary

/-! ## Of a run of the benchmark -/

/-- The key of a method and a mode. -/
def keyOf (method syncMode : String) : Key := toLex (method.toList, syncMode.toList)

/-- The keys of the calls of a plan: those of the writes only if there is a size from 32
on. -/
def planKeys (config : Config) : List Key :=
  [keyOf "fgetc" "n/a", keyOf "fread" "n/a", keyOf "getc" "n/a", keyOf "my_fread" "n/a",
    keyOf "read" "n/a"] ++
  if ∃ size ∈ config.sizes, 32 ≤ size then [keyOf "write" "off", keyOf "write" "on"] else []

theorem planKeys_sorted (config : Config) : (planKeys config).Pairwise (· < ·) := by
  unfold planKeys
  split
  · decide
  · decide

/-- The key of the row for a call. -/
def callKey : Call → Key
  | .readSyscall _ _ => keyOf "read" "n/a"
  | .getcLike _ useFunction => if useFunction then keyOf "fgetc" "n/a" else keyOf "getc" "n/a"
  | .freadStdio _ _ => keyOf "fread" "n/a"
  | .myFread _ _ _ => keyOf "my_fread" "n/a"
  | .writeSyscall _ _ _ useOsync =>
      if useOsync then keyOf "write" "on" else keyOf "write" "off"

theorem Matches.key {φ : Type} {float : Field → Option φ} {call : Call} {total : Nat}
    {timing : Timing} {p : PlotRow φ} (h : Matches float (call.row total timing) p) : p.key = callKey call := by
  rw [PlotRow.key, h.method, h.syncMode]
  cases call with
  | readSyscall _ _ => rfl
  | getcLike _ useFunction => cases useFunction <;> rfl
  | freadStdio _ _ => rfl
  | myFread _ _ _ => rfl
  | writeSyscall _ _ _ useOsync => cases useOsync <;> rfl

section PlanKeys

variable {config : Config} {k : Key}

theorem exists_calls (hsized : config.Sized) {f : Nat → Call} {l : Key}
    (hf : ∀ size, callKey (f size) = l) :
    (∃ call ∈ config.calls f 0, callKey call = k) ↔ k = l := by
  obtain ⟨size, hsize⟩ := List.exists_mem_of_ne_nil _ hsized.nonempty
  constructor
  · rintro ⟨call, hcall, rfl⟩
    obtain ⟨n, _, rfl⟩ := List.mem_map.mp hcall
    exact hf n
  · rintro rfl
    exact ⟨f size, List.mem_map_of_mem hsize, hf size⟩

theorem exists_writes (config : Config) (useOsync : Bool) {l : Key}
    (hwrite : ∀ size, callKey (config.writeCall useOsync size) = l) :
    (∃ call ∈ config.writes useOsync 0, callKey call = k) ↔
      (∃ size ∈ config.sizes, 32 ≤ size) ∧ k = l := by
  constructor
  · rintro ⟨call, hcall, rfl⟩
    obtain ⟨n, hn, rfl⟩ := List.mem_map.mp hcall
    obtain ⟨hmem, hlarge⟩ := List.mem_filter.mp hn
    exact ⟨⟨n, hmem, of_decide_eq_true hlarge⟩, hwrite n⟩
  · rintro ⟨⟨n, hmem, hlarge⟩, rfl⟩
    exact ⟨config.writeCall useOsync n,
      List.mem_map_of_mem (List.mem_filter.mpr ⟨hmem, decide_eq_true hlarge⟩), hwrite n⟩

/-- The order of the keys, and that of the loops. -/
theorem reorder {a b c d e p q : Prop} :
    a ∨ b ∨ c ∨ d ∨ e ∨ p ∨ q ↔ e ∨ c ∨ a ∨ b ∨ d ∨ p ∨ q := by
  tauto

theorem mem_planKeys (hsized : config.Sized) :
    k ∈ planKeys config ↔ ∃ call ∈ config.plan, callKey call = k := by
  have hplan : (∃ call ∈ config.plan, callKey call = k) ↔
      (∃ call ∈ config.calls config.readCall 0, callKey call = k) ∨
      keyOf "getc" "n/a" = k ∨ keyOf "fgetc" "n/a" = k ∨
      (∃ call ∈ config.calls config.freadCall 0, callKey call = k) ∨
      (∃ call ∈ config.calls config.myFreadCall 0, callKey call = k) ∨
      (∃ call ∈ config.writes false 0, callKey call = k) ∨
      ∃ call ∈ config.writes true 0, callKey call = k := by
    simp only [Config.plan, Config.todo, List.mem_append, List.mem_cons, or_and_right, exists_or,
      exists_eq_left]
    rfl
  have hread := exists_calls (k := k) hsized (f := config.readCall) (l := keyOf "read" "n/a")
    fun _ => rfl
  have hfread := exists_calls (k := k) hsized (f := config.freadCall) (l := keyOf "fread" "n/a")
    fun _ => rfl
  have hmyFread := exists_calls (k := k) hsized (f := config.myFreadCall)
    (l := keyOf "my_fread" "n/a") fun _ => rfl
  have hoff := exists_writes config false (k := k)
    (l := keyOf "write" "off") fun _ => rfl
  have hon := exists_writes config true (k := k)
    (l := keyOf "write" "on") fun _ => rfl
  rw [hplan, hread, hfread, hmyFread, hoff, hon, planKeys, eq_comm (b := k), eq_comm (b := k)]
  by_cases hlarge : ∃ size ∈ config.sizes, 32 ≤ size
  · rw [if_pos hlarge]
    simp only [List.cons_append, List.nil_append, List.mem_cons, List.not_mem_nil, or_false,
      hlarge, true_and]
    exact reorder ..
  · rw [if_neg hlarge]
    have horder := reorder (a := k = keyOf "fgetc" "n/a") (b := k = keyOf "fread" "n/a")
      (c := k = keyOf "getc" "n/a") (d := k = keyOf "my_fread" "n/a")
      (e := k = keyOf "read" "n/a") (p := False) (q := False)
    simpa only [List.append_nil, List.mem_cons, List.not_mem_nil, or_false, hlarge, false_and]
      using horder

end PlanKeys

section Run

variable {φ : Type} {float : Field → Option φ} {ψ : Type} {lib : CharStdio ψ}
  {env : ProgramEnv ψ} {config : Config} {files : Files} {plotted : List (PlotRow φ)}

/-- The row of the `i`-th call, printed and loaded. -/
theorem matches_get (h : List.Forall₂ (Matches float) (results env files config.plan) plotted)
    {i : Nat} {p : PlotRow φ} (hp : plotted[i]? = some p) :
    ∃ call, config.plan[i]? = some call ∧
      Matches float (call.row (call.total files) (env.call i).timing) p := by
  obtain ⟨hlength, hget⟩ := List.forall₂_iff_get.mp h
  obtain ⟨hi, hpi⟩ := List.getElem?_eq_some_iff.mp hp
  have hi' : i < config.plan.length := by
    rw [← length_results env files config.plan]
    omega
  have hmatches := hget i (by rw [length_results]; exact hi') hi
  refine ⟨config.plan[i], List.getElem?_eq_getElem hi', ?_⟩
  rw [List.get_eq_getElem, List.get_eq_getElem, hpi] at hmatches
  simpa only [results, List.getElem_mapIdx] using hmatches

theorem exists_get (h : List.Forall₂ (Matches float) (results env files config.plan) plotted)
    {i : Nat} {call : Call} (hcall : config.plan[i]? = some call) :
    ∃ p, plotted[i]? = some p ∧
      Matches float (call.row (call.total files) (env.call i).timing) p := by
  obtain ⟨hi, _⟩ := List.getElem?_eq_some_iff.mp hcall
  have hi' : i < plotted.length := by
    rw [← h.length_eq, length_results]
    exact hi
  have hp : plotted[i]? = some plotted[i] := List.getElem?_eq_getElem hi'
  obtain ⟨call', hcall', hmatches⟩ := matches_get h hp
  rw [hcall] at hcall'
  cases hcall'
  exact ⟨plotted[i], hp, hmatches⟩

/-! ## The charts -/

/-- A call, and the row that was loaded for it. -/
def LoadedAs (float : Field → Option φ) (call : Call) (p : PlotRow φ) : Prop :=
  ∃ total timing, Matches float (call.row total timing) p

theorem plan_loadedAs (h : List.Forall₂ (Matches float) (results env files config.plan) plotted) :
    List.Forall₂ (LoadedAs float) config.plan plotted := by
  refine List.forall₂_iff_get.mpr ⟨?_, fun i hi hi' => ?_⟩
  · rw [← h.length_eq, length_results]
  · have hp : plotted[i]? = some plotted[i] := List.getElem?_eq_getElem hi'
    obtain ⟨call, hcall, hmatches⟩ := matches_get h hp
    rw [List.getElem?_eq_getElem hi] at hcall
    cases hcall
    exact ⟨_, _, hmatches⟩

/-- The sizes of the rows that were selected, and of the calls. -/
theorem filter_loadedAs (size : Call → Nat) {p : PlotRow φ → Bool} {q : Call → Bool}
    {calls : List Call} (h : List.Forall₂ (LoadedAs float) calls plotted)
    (hpq : ∀ call x, LoadedAs float call x → p x = q call ∧ x.bufferSize = size call) :
    (plotted.filter p).map PlotRow.bufferSize =
      (calls.filter q).map fun call => (size call : Int) := by
  induction h with
  | nil => rfl
  | cons hloaded _ ih =>
      obtain ⟨hfilter, hsize⟩ := hpq _ _ hloaded
      rw [List.filter_cons, List.filter_cons, hfilter]
      split
      · rw [List.map_cons, List.map_cons, ih, hsize]
      · exact ih

/-- The places of the points along the axis, in order. -/
def places (sizes : List Nat) : List Int :=
  (sizes.map fun size : Nat => (size : Int)).insertionSort (· ≤ ·)

theorem points_places (field : PlotRow φ → φ) {rows : List (PlotRow φ)} {sizes : List Nat}
    (h : rows.map PlotRow.bufferSize = sizes.map fun size : Nat => (size : Int)) :
    (points field rows).map Prod.fst = places sizes := by
  rw [points, List.map_map, places, ← h]
  exact List.map_insertionSort _ _ PlotRow.bufferSize rows fun _ _ _ _ => Iff.rfl

/-- What a row has of its call. -/
def callRow (call : Call) : Row := call.row 0 ⟨[], [], [], []⟩

theorem LoadedAs.row {call : Call} {p : PlotRow φ} (h : LoadedAs float call p) :
    p.method = (callRow call).method.toList ∧ p.syncMode = (callRow call).syncMode.toList ∧
      p.bufferSize = (callRow call).bufferSize := by
  obtain ⟨total, timing, hmatches⟩ := h
  have hsame : (call.row total timing).method = (callRow call).method ∧
      (call.row total timing).syncMode = (callRow call).syncMode ∧
      (call.row total timing).bufferSize = (callRow call).bufferSize := by
    cases call with
    | readSyscall _ _ => exact ⟨rfl, rfl, rfl⟩
    | getcLike _ useFunction => cases useFunction <;> exact ⟨rfl, rfl, rfl⟩
    | freadStdio _ _ => exact ⟨rfl, rfl, rfl⟩
    | myFread _ _ _ => exact ⟨rfl, rfl, rfl⟩
    | writeSyscall _ _ _ useOsync => cases useOsync <;> exact ⟨rfl, rfl, rfl⟩
  rw [← hsame.1, ← hsame.2.1, ← hsame.2.2]
  exact ⟨hmatches.method, hmatches.syncMode, hmatches.bufferSize⟩

/-- The rows of a method, and of a method and mode. -/
theorem filterRows_sizes (h : List.Forall₂ (LoadedAs float) config.plan plotted)
    (method : String) :
    (filterRows plotted method none).map PlotRow.bufferSize =
      (config.plan.filter fun call => (callRow call).method.toList = method.toList).map
        fun call => ((callRow call).bufferSize : Int) := by
  refine filter_loadedAs (fun call => (callRow call).bufferSize) h fun call x hloaded => ?_
  obtain ⟨hmethod, _, hsize⟩ := hloaded.row
  exact ⟨by rw [hmethod], hsize⟩

theorem filterRows_mode_sizes (h : List.Forall₂ (LoadedAs float) config.plan plotted)
    (method mode : String) :
    (filterRows plotted method (some mode)).map PlotRow.bufferSize =
      (config.plan.filter fun call => (callRow call).syncMode.toList = mode.toList ∧
        (callRow call).method.toList = method.toList).map
        fun call => ((callRow call).bufferSize : Int) := by
  have hboth : filterRows plotted method (some mode) =
      plotted.filter fun row => row.syncMode = mode.toList ∧ row.method = method.toList := by
    rw [filterRows, List.filter_filter]
    simp only [Bool.decide_and]
  rw [hboth]
  refine filter_loadedAs (fun call => (callRow call).bufferSize) h fun call x hloaded => ?_
  obtain ⟨hmethod, hmode, hsize⟩ := hloaded.row
  exact ⟨by rw [hmethod, hmode], hsize⟩

/-- The calls of a plan, by the method and the mode of their rows. -/
inductive Planned (config : Config) : String → String → Call → Prop
  | read (size : Nat) : Planned config "read" "n/a" (config.readCall size)
  | getc : Planned config "getc" "n/a" (config.getcCall false)
  | fgetc : Planned config "fgetc" "n/a" (config.getcCall true)
  | fread (size : Nat) : Planned config "fread" "n/a" (config.freadCall size)
  | myFread (size : Nat) : Planned config "my_fread" "n/a" (config.myFreadCall size)
  | writeOff (size : Nat) : Planned config "write" "off" (config.writeCall false size)
  | writeOn (size : Nat) : Planned config "write" "on" (config.writeCall true size)

theorem planned_of_mem {call : Call} (hcall : call ∈ config.plan) :
    Planned config (callRow call).method (callRow call).syncMode call := by
  simp only [Config.plan, Config.todo, List.mem_append, List.mem_cons] at hcall
  rcases hcall with hread | rfl | rfl | hfread | hmyFread | hoff | hon
  · obtain ⟨size, _, rfl⟩ := List.mem_map.mp hread
    exact .read size
  · exact .getc
  · exact .fgetc
  · obtain ⟨size, _, rfl⟩ := List.mem_map.mp hfread
    exact .fread size
  · obtain ⟨size, _, rfl⟩ := List.mem_map.mp hmyFread
    exact .myFread size
  · obtain ⟨size, _, rfl⟩ := List.mem_map.mp hoff
    exact .writeOff size
  · obtain ⟨size, _, rfl⟩ := List.mem_map.mp hon
    exact .writeOn size

/-- The sizes in a plan of each way to read and to write. -/
theorem plan_sizes (config : Config) :
    let reads (method : String) : List Int :=
      (config.plan.filter fun c => (callRow c).method.toList = method.toList).map
        fun c => ((callRow c).bufferSize : Int)
    let writes (mode : String) : List Int :=
      (config.plan.filter fun c => (callRow c).syncMode.toList = mode.toList ∧
        (callRow c).method.toList = "write".toList).map fun c => ((callRow c).bufferSize : Int)
    let sizes : List Int := config.sizes.map fun size : Nat => (size : Int)
    let large : List Int := (config.sizes.filter (32 ≤ ·)).map fun size : Nat => (size : Int)
    reads "read" = sizes ∧ reads "fread" = sizes ∧ reads "my_fread" = sizes ∧
      writes "off" = large ∧ writes "on" = large := by
  refine ⟨?_, ?_, ?_, ?_, ?_⟩
  all_goals simp [Config.plan, Config.todo, Config.calls, Config.writes, List.filter_append,
    List.filter_map, Function.comp_def, callRow, Call.row, Config.readCall, Config.getcCall,
    Config.freadCall, Config.myFreadCall, Config.writeCall]

/-- The call of a row, and what was measured in it. -/
theorem exists_call (h : List.Forall₂ (Matches float) (results env files config.plan) plotted)
    {p : PlotRow φ} (hp : p ∈ plotted) :
    ∃ i call method mode, config.plan[i]? = some call ∧ Planned config method mode call ∧
      p.method = method.toList ∧ p.syncMode = mode.toList ∧
      p.bufferSize = (callRow call).bufferSize ∧
      Matches float (call.row (call.total files) (env.call i).timing) p := by
  obtain ⟨i, hi⟩ := List.mem_iff_getElem?.mp hp
  obtain ⟨call, hcall, hmatches⟩ := matches_get h hi
  obtain ⟨hmethod, hmode, hsize⟩ := LoadedAs.row ⟨_, _, hmatches⟩
  exact ⟨i, call, _, _, hcall, planned_of_mem (List.mem_of_getElem? hcall), hmethod, hmode,
    hsize, hmatches⟩

/-- A line of a chart: a point for each of the sizes, with what was measured in a call of
that size. -/
structure Line (float : Field → Option φ) (env : ProgramEnv ψ) (config : Config)
    (measured : Timing → Field) (sizes : List Nat) (call : Nat → Call)
    (line : List (Int × φ)) : Prop where
  places : line.map Prod.fst = places sizes
  measured : ∀ x ∈ line, ∃ i size, config.plan[i]? = some (call size) ∧ x.1 = size ∧
    float (measured (env.call i).timing) = some x.2

/-- A chart of the three ways to read. -/
def ReadChart (float : Field → Option φ) (env : ProgramEnv ψ) (config : Config)
    (measured : Timing → Field) (series : List (String × List (Int × φ))) : Prop :=
  ∃ read fread myFread, series = [("read()", read), ("fread()", fread), ("my_fread()", myFread)] ∧
    Line float env config measured config.sizes config.readCall read ∧
    Line float env config measured config.sizes config.freadCall fread ∧
    Line float env config measured config.sizes config.myFreadCall myFread

/-- A chart of the writes, which have no points if no size is at least 32. -/
def WriteChart (float : Field → Option φ) (env : ProgramEnv ψ) (config : Config)
    (measured : Timing → Field) (series : List (String × List (Int × φ))) : Prop :=
  ∃ off on, series = [("write() no O_SYNC", off), ("write() with O_SYNC", on)] ∧
    Line float env config measured (config.sizes.filter (32 ≤ ·)) (config.writeCall false) off ∧
    Line float env config measured (config.sizes.filter (32 ≤ ·)) (config.writeCall true) on

/-- The charts: throughput and time of the reads and of the writes, and the throughput of
`getc` and of `fgetc`. -/
structure Drawn (float : Field → Option φ) (env : ProgramEnv ψ) (config : Config)
    (figures : List (String × Figure φ)) : Prop where
  figures : ∃ readThroughput readWallTime writeThroughput writeWallTime getc fgetc,
    figures =
      [("read_throughput.png", .lines readThroughput), ("read_wall_time.png", .lines readWallTime),
        ("write_throughput.png", .lines writeThroughput),
        ("write_wall_time.png", .lines writeWallTime),
        ("getc_vs_fgetc.png", .bars [("getc()", getc), ("fgetc()", fgetc)])] ∧
    ReadChart float env config Timing.mibPerSec readThroughput ∧
    ReadChart float env config Timing.realSec readWallTime ∧
    WriteChart float env config Timing.mibPerSec writeThroughput ∧
    WriteChart float env config Timing.realSec writeWallTime ∧
    (∃ i, config.plan[i]? = some (config.getcCall false) ∧
      float (env.call i).timing.mibPerSec = some getc) ∧
    ∃ i, config.plan[i]? = some (config.getcCall true) ∧
      float (env.call i).timing.mibPerSec = some fgetc

section Charts

variable (h : List.Forall₂ (Matches float) (results env files config.plan) plotted)
  {measured : Timing → Field} {field : PlotRow φ → φ}
  (hfield : ∀ row p, Matches float row p → float (measured row.timing) = some (field p))

include h hfield

/-- The line of the rows of one kind. -/
theorem line_of_rows {rows : List (PlotRow φ)} {sizes : List Nat} {call : Nat → Call}
    (hsizes : rows.map PlotRow.bufferSize = sizes.map fun size : Nat => (size : Int))
    (hrows : ∀ p ∈ rows, p ∈ plotted ∧ ∀ method mode call', Planned config method mode call' →
      p.method = method.toList → p.syncMode = mode.toList →
      ∃ size, call' = call size ∧ (callRow call').bufferSize = size) :
    Line float env config measured sizes call (points field rows) := by
  refine ⟨points_places field hsizes, fun x hx => ?_⟩
  obtain ⟨p, hp, rfl⟩ := List.mem_map.mp hx
  obtain ⟨hplotted, hcall⟩ := hrows p ((List.mem_insertionSort _).mp hp)
  obtain ⟨i, call', _, _, hget, hplanned, hmethod, hmode, hsize, hmatches⟩ :=
    exists_call h hplotted
  obtain ⟨size, rfl, hbuffer⟩ := hcall _ _ call' hplanned hmethod hmode
  have hvalue := hfield _ _ hmatches
  rw [timing_row] at hvalue
  exact ⟨i, size, hget, by rw [hsize, hbuffer], hvalue⟩

/-- The rows of a way to read are those of its calls, one for each size. -/
theorem line_of_reads {method : String} {call : Nat → Call}
    (hsizes : (config.plan.filter fun c => (callRow c).method.toList = method.toList).map
      (fun c => ((callRow c).bufferSize : Int)) = config.sizes.map fun size : Nat => (size : Int))
    (hcall : ∀ method' mode call', Planned config method' mode call' →
      method'.toList = method.toList →
      ∃ size, call' = call size ∧ (callRow call').bufferSize = size) :
    Line float env config measured config.sizes call
      (points field (filterRows plotted method none)) := by
  refine line_of_rows h hfield ((filterRows_sizes (plan_loadedAs h) method).trans hsizes) ?_
  intro p hp
  obtain ⟨hplotted, hmethod⟩ := List.mem_filter.mp hp
  exact ⟨hplotted, fun method' mode call' hplanned hmethod' _ =>
    hcall method' mode call' hplanned (hmethod'.symm.trans (of_decide_eq_true hmethod))⟩

theorem line_of_writes {mode : String} {call : Nat → Call}
    (hsizes : (config.plan.filter fun c => (callRow c).syncMode.toList = mode.toList ∧
        (callRow c).method.toList = "write".toList).map
      (fun c => ((callRow c).bufferSize : Int)) =
        (config.sizes.filter (32 ≤ ·)).map fun size : Nat => (size : Int))
    (hcall : ∀ method mode' call', Planned config method mode' call' →
      mode'.toList = mode.toList →
      ∃ size, call' = call size ∧ (callRow call').bufferSize = size) :
    Line float env config measured (config.sizes.filter (32 ≤ ·)) call
      (points field (filterRows plotted "write" (some mode))) := by
  refine line_of_rows h hfield
    ((filterRows_mode_sizes (plan_loadedAs h) "write" mode).trans hsizes) ?_
  intro p hp
  obtain ⟨hwrite, hmode⟩ := List.mem_filter.mp hp
  exact ⟨(List.mem_filter.mp hwrite).1, fun method mode' call' hplanned _ hmode' =>
    hcall method mode' call' hplanned (hmode'.symm.trans (of_decide_eq_true hmode))⟩

theorem readChart_of_plan :
    ReadChart float env config measured (chart field (readFamily plotted)) := by
  obtain ⟨hread, hfread, hmyFread, _⟩ := plan_sizes config
  refine ⟨_, _, _, rfl, line_of_reads h hfield hread ?_, line_of_reads h hfield hfread ?_,
    line_of_reads h hfield hmyFread ?_⟩
  · intro method mode call hplanned hmethod
    cases hplanned with
    | read size => exact ⟨size, rfl, rfl⟩
    | _ => exact absurd hmethod (by decide)
  · intro method mode call hplanned hmethod
    cases hplanned with
    | fread size => exact ⟨size, rfl, rfl⟩
    | _ => exact absurd hmethod (by decide)
  · intro method mode call hplanned hmethod
    cases hplanned with
    | myFread size => exact ⟨size, rfl, rfl⟩
    | _ => exact absurd hmethod (by decide)

theorem writeChart_of_plan :
    WriteChart float env config measured (chart field (writeFamily plotted)) := by
  obtain ⟨_, _, _, hoff, hon⟩ := plan_sizes config
  refine ⟨_, _, rfl, line_of_writes h hfield hoff ?_, line_of_writes h hfield hon ?_⟩
  · intro method mode call hplanned hmode
    cases hplanned with
    | writeOff size => exact ⟨size, rfl, rfl⟩
    | _ => exact absurd hmode (by decide)
  · intro method mode call hplanned hmode
    cases hplanned with
    | writeOn size => exact ⟨size, rfl, rfl⟩
    | _ => exact absurd hmode (by decide)

end Charts

/-- There is a row for `getc` and one for `fgetc`. -/
theorem bar_of_plan (h : List.Forall₂ (Matches float) (results env files config.plan) plotted)
    (method : String) (call : Call)
    (hplan : ∃ c ∈ config.plan, (callRow c).method.toList = method.toList)
    (hcall : ∀ method' mode call', Planned config method' mode call' →
      method'.toList = method.toList → call' = call) :
    ∃ p rest, filterRows plotted method none = p :: rest ∧ ∃ i, config.plan[i]? = some call ∧
      float (env.call i).timing.mibPerSec = some p.mibPerSec := by
  have hsizes := filterRows_sizes (plan_loadedAs h) method
  have hne : filterRows plotted method none ≠ [] := by
    intro hnil
    obtain ⟨c, hc, hmethod⟩ := hplan
    rw [hnil] at hsizes
    have hmem : c ∈ config.plan.filter fun c => (callRow c).method.toList = method.toList :=
      List.mem_filter.mpr ⟨hc, decide_eq_true hmethod⟩
    rw [List.map_eq_nil_iff.mp hsizes.symm] at hmem
    cases hmem
  obtain ⟨p, rest, hcons⟩ := List.exists_cons_of_ne_nil hne
  have hp : p ∈ filterRows plotted method none := by
    rw [hcons]
    exact List.mem_cons_self
  obtain ⟨hplotted, hmethod⟩ := List.mem_filter.mp hp
  obtain ⟨i, call', _, _, hget, hplanned, hmethod', _, _, hmatches⟩ := exists_call h hplotted
  obtain rfl := hcall _ _ call' hplanned (hmethod'.symm.trans (of_decide_eq_true hmethod))
  have hvalue := hmatches.mibPerSec
  rw [timing_row] at hvalue
  exact ⟨p, rest, hcons, i, hget, hvalue⟩

theorem output_drawn [LinearOrder φ]
    (h : List.Forall₂ (Matches float) (results env files config.plan) plotted) :
    Drawn float env config (output plotted).figures := by
  obtain ⟨p, rest, hgetc, hp⟩ := bar_of_plan h "getc" (config.getcCall false)
    ⟨config.getcCall false, by simp [Config.plan, Config.todo], rfl⟩ (by
      intro method mode call hplanned hmethod
      cases hplanned with
      | getc => rfl
      | _ => exact absurd hmethod (by decide))
  obtain ⟨p', rest', hfgetc, hp'⟩ := bar_of_plan h "fgetc" (config.getcCall true)
    ⟨config.getcCall true, by simp [Config.plan, Config.todo], rfl⟩ (by
      intro method mode call hplanned hmethod
      cases hplanned with
      | fgetc => rfl
      | _ => exact absurd hmethod (by decide))
  have hbars : barChart plotted = [("getc_vs_fgetc.png",
      .bars [("getc()", p.mibPerSec), ("fgetc()", p'.mibPerSec)])] := by
    rw [barChart, hgetc, hfgetc]
  refine ⟨_, _, _, _, p.mibPerSec, p'.mibPerSec, ?_,
    readChart_of_plan h fun _ _ hmatches => hmatches.mibPerSec,
    readChart_of_plan h fun _ _ hmatches => hmatches.realSec,
    writeChart_of_plan h fun _ _ hmatches => hmatches.mibPerSec,
    writeChart_of_plan h fun _ _ hmatches => hmatches.realSec, hp, hp'⟩
  rw [output, hbars]
  rfl

/-! ## The report -/

variable [LinearOrder φ]

theorem summary_of_plan (hsized : config.Sized)
    (h : List.Forall₂ (Matches float) (results env files config.plan) plotted) :
    (summary plotted).map Prod.fst = planKeys config := by
  obtain ⟨hsorted, hkeys⟩ := summary_sorted plotted
  refine Grouping.sorted_eq hsorted (planKeys_sorted config) fun k => ?_
  rw [hkeys, mem_planKeys hsized]
  constructor
  · rintro ⟨p, hp, rfl⟩
    obtain ⟨i, hi⟩ := List.mem_iff_getElem?.mp hp
    obtain ⟨call, hcall, hmatches⟩ := matches_get h hi
    exact ⟨call, List.mem_of_getElem? hcall, hmatches.key.symm⟩
  · rintro ⟨call, hcall, rfl⟩
    obtain ⟨i, hi⟩ := List.mem_iff_getElem?.mp hcall
    obtain ⟨p, hp, hmatches⟩ := exists_get h hi
    exact ⟨p, List.mem_of_getElem? hp, hmatches.key⟩

/-- The line of a key has the row of one of its calls, whose throughput no call of that
key exceeds and no earlier one reaches. -/
theorem best_of_plan
    (h : List.Forall₂ (Matches float) (results env files config.plan) plotted)
    {line : Key × PlotRow φ} (hline : line ∈ summary plotted) :
    ∃ i call, config.plan[i]? = some call ∧ callKey call = line.1 ∧
      Matches float (call.row (call.total files) (env.call i).timing) line.2 ∧
      ∀ j call', config.plan[j]? = some call' → callKey call' = line.1 →
        ∀ x, float (env.call j).timing.mibPerSec = some x →
          x ≤ line.2.mibPerSec ∧ (j < i → x < line.2.mibPerSec) := by
  obtain ⟨before, after, hrows, hkey, hbefore, hafter⟩ := summary_best hline
  have hat : plotted[before.length]? = some line.2 := by
    rw [hrows, List.getElem?_append_right (Nat.le_refl _), Nat.sub_self]
    rfl
  obtain ⟨call, hcall, hmatches⟩ := matches_get h hat
  refine ⟨before.length, call, hcall, hmatches.key.symm.trans hkey, hmatches, ?_⟩
  intro j call' hcall' hkey' x hx
  obtain ⟨p, hp, hmatches'⟩ := exists_get h hcall'
  have hpkey : p.key = line.1 := hmatches'.key.trans hkey'
  have hpx : p.mibPerSec = x := by
    have heq := hmatches'.mibPerSec
    rw [timing_row, hx] at heq
    exact (Option.some.inj heq).symm
  rw [← hpx]
  rw [hrows] at hp
  rcases Nat.lt_trichotomy j before.length with hj | rfl | hj
  · rw [List.getElem?_append_left hj] at hp
    have hless := hbefore p (List.mem_of_getElem? hp) hpkey
    exact ⟨le_of_lt hless, fun _ => hless⟩
  · rw [List.getElem?_append_right (Nat.le_refl _), Nat.sub_self] at hp
    cases hp
    exact ⟨le_refl _, fun hlt => absurd hlt (Nat.lt_irrefl _)⟩
  · obtain ⟨m, hm⟩ : ∃ m, j - before.length = m + 1 :=
      Nat.exists_eq_succ_of_ne_zero (by omega)
    rw [List.getElem?_append_right (by omega), hm, List.getElem?_cons_succ] at hp
    exact ⟨hafter p (List.mem_of_getElem? hp) hpkey, fun hlt => absurd hlt (by omega)⟩

/-- After a run of the benchmark that ended with success and lost nothing of the CSV file,
`plot_results.py` accepts the file.  It draws the five charts with what was measured; and
its summary has one line for each method and mode of the plan, in order: the row of a call
of this kind, whose throughput no other reaches before it or exceeds after it. -/
theorem report_of_run (hlib : lib.Lawful) (hstream : Delivers lib env) {args : List String}
    (hargs : parseArgs args = .ok config) (hapart : config.Apart)
    (hread : ∀ i, Readable float (env.call i).timing) {n : Nat} {f : Finished}
    (hrun : PartA.main lib env args files n = .done f) (hsuccess : f.finish = .success)
    (hferror : f.ferror = false) :
    ∃ csv out, f.files config.outputPath = some csv ∧ main float csv = some out ∧
      Drawn float env config out.figures ∧ out.summary.map Prod.fst = planKeys config ∧
      ∀ line ∈ out.summary, ∃ i call, config.plan[i]? = some call ∧ callKey call = line.1 ∧
        Matches float (call.row (call.total files) (env.call i).timing) line.2 ∧
        ∀ j call', config.plan[j]? = some call' → callKey call' = line.1 →
          ∀ x, float (env.call j).timing.mibPerSec = some x →
            x ≤ line.2.mibPerSec ∧ (j < i → x < line.2.mibPerSec) := by
  have hsized := parseArgs_sized hargs
  have hreported : Reported env config files f := by
    simp only [PartA.main, hargs] at hrun
    split at hrun
    · cases hrun
      cases hsuccess
    · split at hrun
      · cases hrun
        cases hsuccess
      · exact (main_run hlib hstream hsized hapart files n).2 f hrun
  have hrows := hreported.all hsuccess
  have hrow : ∀ row ∈ results env files config.plan, Named row ∧ Readable float row.timing := by
    intro row hrow
    obtain ⟨i, hi, rfl⟩ := List.mem_mapIdx.mp hrow
    refine ⟨named_row _ _ _, ?_⟩
    rw [timing_row]
    exact hread i
  obtain ⟨plotted, hload, hmatches⟩ := loadRows_csvText (fun row h => (hrow row h).1)
    fun row h => (hrow row h).2
  have hne : plotted ≠ [] := by
    rintro rfl
    have hlength := hmatches.length_eq
    rw [length_results] at hlength
    have hplan : config.plan ≠ [] := by simp [Config.plan, Config.todo]
    exact hplan (List.length_eq_zero_iff.mp hlength)
  obtain ⟨content, hcsv, _, hwhole⟩ := hreported.csv
  refine ⟨content, output plotted, hcsv, ?_, output_drawn hmatches, ?_, ?_⟩
  · rw [hwhole hferror, hrows, main, asciiText_csvText (fun row h => (hrow row h).1)
      fun row h => (hrow row h).2, Option.bind_some, hload, Option.bind_some, if_neg hne]
  · exact summary_of_plan hsized hmatches
  · exact fun line hline => best_of_plan hmatches hline

end Run

/-- `float` on natural numbers. -/
def wholeNumber (text : Field) : Option Nat :=
  if text ≠ [] ∧ text.all Char.isDigit then some (decimal text) else none

/-- The CSV file of the calls on five bytes is accepted, and the summary has seven lines. -/
theorem report_of_run_five : ∃ n f csv out,
    PartA.main CharStdio.memory calm ["--input", "in", "--sizes", "8,64"] fiveBytes n = .done f ∧
      f.files "results.csv" = some csv ∧ main wholeNumber csv = some out ∧
      out.figures.length = 5 ∧ out.summary.length = 7 := by
  have hargs : parseArgs ["--input", "in", "--sizes", "8,64"] = .ok smallConfig := rfl
  have hwords : ∀ text ∈ [['1'], ['0'], ['0'], ['1']], Word text := by decide
  have hread : ∀ i, Readable wholeNumber (calm.call i).timing := fun _ =>
    { words := hwords
      realSec := rfl
      userSec := rfl
      sysSec := rfl
      mibPerSec := rfl }
  obtain ⟨n, f, hrun, hsuccess, hferror, _⟩ := main_succeeds CharStdio.memory_lawful
    (fun _ => rfl) (fun _ _ => rfl) hargs smallConfig_apart calm_works smallConfig_possible
  obtain ⟨csv, out, hcsv, hout, hdrawn, hkeys, _⟩ := report_of_run CharStdio.memory_lawful
    (fun _ _ => rfl) hargs smallConfig_apart hread hrun hsuccess hferror
  refine ⟨n, f, csv, out, hrun, hcsv, hout, ?_, ?_⟩
  · obtain ⟨_, _, _, _, _, _, hfigures, _⟩ := hdrawn.figures
    rw [hfigures]
    rfl
  · have hlength := congrArg List.length hkeys
    rw [List.length_map] at hlength
    rw [hlength]
    decide

end SysLab.PartA.PlotResults
