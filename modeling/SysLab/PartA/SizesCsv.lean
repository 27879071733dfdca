import Mathlib.Data.List.Forall2
import SysLab.Foundation.GrowArray
import SysLab.Foundation.Loop
import SysLab.Foundation.Segments
import SysLab.PartA.Options

/-!
# `parse_sizes_csv`, pass by pass

The loop of `parse_sizes_csv` with the text that `strtok` keeps between its calls and
the array that grows, for any memory.  Its result is that of `parseSizesCsv` unless a
request for memory is refused.
-/

namespace SysLab.PartA.SizesCsv

open SysLab.Foundation

/-! ## The loop -/

/-- Whether each request for so many bytes is met; no function is asked twice for the
same number in one call.  No object has more than `PTRDIFF_MAX` bytes. -/
structure Memory where
  malloc : Nat → Bool
  strdup : Nat → Bool
  realloc : Nat → Bool
  limit : ∀ bytes, 2 ^ 63 ≤ bytes → realloc bytes = false

/-- `sizeof(*values)`. -/
def sizeofValue : Nat := 8

/-- The character is the delimiter. -/
def isComma (c : Char) : Bool := c == ','

/-- `strtok(s, ",")`, `saved` being the text from where the call before has stopped: the
token or the null pointer, and the text from where it stops. -/
def strtokCall (s : Option (List Char)) (saved : List Char) :
    Option (List Char) × List Char :=
  let start := (s.getD saved).dropWhile isComma
  if start = [] then (none, [])
  else
    (some (start.takeWhile fun c => !isComma c),
      (start.dropWhile fun c => !isComma c).drop 1)

/-- `rest`, the text that `strtok` keeps, and `capacity`, `count` and `values`. -/
structure Parse where
  rest : Option (List Char)
  saved : List Char
  values : GrowArray Nat

/-- How the function ends: with an array and `*count_out`, in `die_usage` or in
`die_perror`; or a store has missed the array. -/
inductive Outcome
  | returned (values : List (Option Nat)) (count : Nat)
  | usage (message : String)
  | perror (message : String)
  | undefined

/-- Past the loop. -/
def Parse.finish (s : Parse) : Outcome :=
  if s.values.count = 0 then .usage "no sizes were parsed from --sizes"
  else .returned s.values.cells s.values.count

/-- The test of the loop and its body. -/
def pass (memory : Memory) (s : Parse) : Progress Parse Outcome :=
  match strtokCall s.rest s.saved with
  | (none, _) => .done s.finish
  | (some token, saved) =>
      match parseSize token with
      | .error message => .done (.usage message)
      | .ok value =>
          match s.values.push memory.realloc sizeofValue value with
          | .stored values => .again { rest := none, saved := saved, values := values }
          | .refused => .done (.perror "realloc")
          | .outOfBounds => .done .undefined

/-- Up to the loop. -/
def start (memory : Memory) (saved csv : List Char) : Progress Parse Outcome :=
  if memory.malloc (8 * sizeofValue) then
    if memory.strdup (csv.length + 1) then .again ⟨some csv, saved, .empty 8⟩
    else .done (.perror "strdup")
  else .done (.perror "malloc")

/-- `parse_sizes_csv`, with at most `n` passes of the loop. -/
def run (memory : Memory) (saved csv : List Char) (n : Nat) : Progress Parse Outcome :=
  match start memory saved csv with
  | .again s => Loop.run (pass memory) n s
  | .done outcome => .done outcome

/-! ## `strtok` -/

theorem strtok_eq (text : List Char) : strtok text = segments isComma text := rfl

/-- The text in which the next call looks for a token. -/
def Parse.pending (s : Parse) : List Char := s.rest.getD s.saved

/-- A call takes the first token off, or there is none. -/
theorem strtokCall_cases (s : Option (List Char)) (saved : List Char) :
    (strtok (s.getD saved) = [] ∧ strtokCall s saved = (none, [])) ∨
    ∃ token saved', strtok (s.getD saved) = token :: strtok saved' ∧
      strtokCall s saved = (some token, saved') := by
  unfold strtokCall
  by_cases hnone : (s.getD saved).dropWhile isComma = []
  · left
    exact ⟨segments_of_sep (List.dropWhile_eq_nil_iff.mp hnone), if_pos hnone⟩
  · right
    exact ⟨_, _, (cut hnone).segments_eq, if_neg hnone⟩

/-! ## `parse_size` on each token -/

/-- `parse_size` returns this size. -/
def Accepts (token : List Char) (size : Nat) : Prop := parseSize token = .ok size

theorem mapM_rejected {token : List Char} {message : String}
    (h : parseSize token = .error message) (tokens : List (List Char)) :
    (token :: tokens).mapM parseSize = .error message := by
  rw [List.mapM_cons, h]
  rfl

theorem mapM_cons {token : List Char} {size : Nat} (h : Accepts token size)
    (tokens : List (List Char)) :
    (token :: tokens).mapM parseSize = (tokens.mapM parseSize).map (size :: ·) := by
  rw [List.mapM_cons, h]
  cases tokens.mapM parseSize with
  | error message => rfl
  | ok sizes => rfl

/-- `parse_size` accepts each of the tokens, or the first it rejects is the result. -/
theorem mapM_accepted {before : List (List Char)} {sizes : List Nat}
    (h : List.Forall₂ Accepts before sizes) (after : List (List Char)) :
    (before ++ after).mapM parseSize = (after.mapM parseSize).map (sizes ++ ·) := by
  induction h with
  | nil =>
      show after.mapM parseSize = _
      cases after.mapM parseSize with
      | error message => rfl
      | ok values => rfl
  | cons hsize _ ih =>
      rw [List.cons_append, mapM_cons hsize, ih]
      cases after.mapM parseSize with
      | error message => rfl
      | ok values => rfl

theorem mapM_eq_ok {tokens : List (List Char)} {sizes : List Nat} :
    tokens.mapM parseSize = .ok sizes ↔ List.Forall₂ Accepts tokens sizes := by
  constructor
  · intro h
    induction tokens generalizing sizes with
    | nil =>
        cases h
        exact .nil
    | cons token tokens ih =>
        cases hsize : parseSize token with
        | error message =>
            rw [mapM_rejected hsize] at h
            cases h
        | ok value =>
            rw [mapM_cons hsize] at h
            cases hrest : tokens.mapM parseSize with
            | error message =>
                rw [hrest] at h
                cases h
            | ok values =>
                rw [hrest] at h
                cases h
                exact .cons hsize (ih hrest)
  · intro h
    have hall := mapM_accepted h []
    rw [List.append_nil] at hall
    rw [hall]
    show Except.ok (sizes ++ []) = _
    rw [List.append_nil]

theorem accepted_of_mem {tokens : List (List Char)} {sizes : List Nat}
    (h : List.Forall₂ Accepts tokens sizes) {token : List Char} (htoken : token ∈ tokens) :
    ∃ size, parseSize token = .ok size := by
  have hboth : List.Forall₂
      (fun token size => (∃ size, parseSize token = .ok size) ∧ Accepts token size)
      tokens sizes := h.imp fun token size hsize => ⟨⟨size, hsize⟩, hsize⟩
  exact ((List.forall₂_and_left tokens sizes).mp hboth).1 token htoken

theorem exists_rejected {tokens : List (List Char)} {message : String}
    (h : tokens.mapM parseSize = .error message) :
    ∃ token ∈ tokens, parseSize token = .error message := by
  induction tokens with
  | nil => cases h
  | cons token tokens ih =>
      cases hsize : parseSize token with
      | error message' =>
          rw [mapM_rejected hsize] at h
          cases h
          exact ⟨token, List.mem_cons_self, hsize⟩
      | ok value =>
          rw [mapM_cons hsize] at h
          cases hrest : tokens.mapM parseSize with
          | error message' =>
              rw [hrest] at h
              cases h
              obtain ⟨token', hmem, hrejected⟩ := ih hrest
              exact ⟨token', List.mem_cons_of_mem token hmem, hrejected⟩
          | ok values =>
              rw [hrest] at h
              cases h

theorem parseSizesCsv_eq_ok {csv : List Char} {sizes : List Nat} :
    parseSizesCsv csv = .ok sizes ↔
      List.Forall₂ Accepts (strtok csv) sizes ∧ sizes ≠ [] := by
  rw [← mapM_eq_ok, parseSizesCsv]
  cases (strtok csv).mapM parseSize with
  | error message => simp
  | ok values =>
      cases values with
      | nil =>
          constructor
          · intro h
            cases h
          · rintro ⟨⟨⟩, hne⟩
            exact absurd rfl hne
      | cons value values =>
          constructor
          · intro h
            cases h
            exact ⟨rfl, List.cons_ne_nil value values⟩
          · exact fun h => h.1

theorem parseSizesCsv_rejected {csv token : List Char} {before after : List (List Char)}
    {sizes : List Nat} {message : String} (htokens : strtok csv = before ++ token :: after)
    (hbefore : List.Forall₂ Accepts before sizes) (h : parseSize token = .error message) :
    parseSizesCsv csv = .error message := by
  rw [parseSizesCsv, htokens, mapM_accepted hbefore, mapM_rejected h]
  rfl

theorem parseSizesCsv_eq_error {csv : List Char} {message : String}
    (h : parseSizesCsv csv = .error message) :
    strtok csv = [] ∨ ∃ token ∈ strtok csv, parseSize token = .error message := by
  rw [parseSizesCsv] at h
  cases hsizes : (strtok csv).mapM parseSize with
  | error message' =>
      rw [hsizes] at h
      cases h
      exact .inr (exists_rejected hsizes)
  | ok sizes =>
      rw [hsizes] at h
      cases sizes with
      | nil => exact .inl (List.forall₂_nil_right_iff.mp (mapM_eq_ok.mp hsizes))
      | cons size sizes => cases h

theorem parseSizesCsv_nil {csv : List Char} (h : strtok csv = []) :
    parseSizesCsv csv = .error "no sizes were parsed from --sizes" := by
  rw [parseSizesCsv, h]
  rfl

/-! ## The invariant -/

section Invariant

variable {memory : Memory} {csv : List Char} {s t : Parse} {outcome : Outcome}

/-- One of the requests that an array of `n` elements takes is refused. -/
def Memory.Refuses (memory : Memory) (csv : List Char) (n : Nat) : Prop :=
  memory.malloc (8 * sizeofValue) = false ∨ memory.strdup (csv.length + 1) = false ∨
    ∃ k, 8 * 2 ^ k < n ∧ memory.realloc (8 * 2 ^ (k + 1) * sizeofValue) = false

/-- The array holds a list. -/
abbrev Holds (memory : Memory) : GrowArray Nat → List Nat → Prop :=
  GrowArray.Holds memory.realloc sizeofValue 8

/-- What holds at each test of the loop. -/
structure Inv (memory : Memory) (csv : List Char) (s : Parse) : Prop where
  malloc : memory.malloc (8 * sizeofValue) = true
  strdup : memory.strdup (csv.length + 1) = true
  parsed : ∃ before sizes, strtok csv = before ++ strtok s.pending ∧
    List.Forall₂ Accepts before sizes ∧ Holds memory s.values sizes

/-- What an outcome says. -/
def Outcome.Settles (memory : Memory) (csv : List Char) : Outcome → Prop
  | .returned values count =>
      ∃ sizes, parseSizesCsv csv = .ok sizes ∧ count = sizes.length ∧
        values.take count = sizes.map some ∧ ¬ memory.Refuses csv (strtok csv).length
  | .usage message => parseSizesCsv csv = .error message
  | .perror _ => memory.Refuses csv (strtok csv).length
  | .undefined => False

theorem start_inv (memory : Memory) (saved csv : List Char) :
    (∀ s, start memory saved csv = .again s → Inv memory csv s) ∧
      ∀ outcome, start memory saved csv = .done outcome → outcome.Settles memory csv := by
  unfold start
  by_cases hmalloc : memory.malloc (8 * sizeofValue) = true
  · rw [if_pos hmalloc]
    by_cases hstrdup : memory.strdup (csv.length + 1) = true
    · rw [if_pos hstrdup]
      constructor
      · rintro s ⟨⟩
        exact ⟨hmalloc, hstrdup, [], [], rfl, .nil, GrowArray.holds_empty (by decide)⟩
      · intro outcome h
        cases h
    · rw [if_neg hstrdup]
      exact Progress.of_done (.inr (.inl (Bool.eq_false_iff.mpr hstrdup)))
  · rw [if_neg hmalloc]
    exact Progress.of_done (.inl (Bool.eq_false_iff.mpr hmalloc))

/-- No token is left. -/
theorem Inv.finish (h : Inv memory csv s) (hnone : strtok s.pending = []) :
    s.finish.Settles memory csv := by
  obtain ⟨before, sizes, htokens, hsizes, hholds⟩ := h.parsed
  rw [hnone, List.append_nil] at htokens
  rw [← htokens] at hsizes
  have hcount := hholds.count
  unfold Parse.finish
  by_cases hzero : s.values.count = 0
  · rw [if_pos hzero]
    have hnil : sizes = [] := List.length_eq_zero_iff.mp (hcount ▸ hzero)
    rw [hnil, List.forall₂_nil_right_iff] at hsizes
    exact parseSizesCsv_nil hsizes
  · rw [if_neg hzero]
    have hne : sizes ≠ [] := by
      rintro rfl
      exact hzero hcount
    refine ⟨sizes, parseSizesCsv_eq_ok.mpr ⟨hsizes, hne⟩, hcount, hholds.cells, ?_⟩
    rintro (hrefused | hrefused | ⟨k, hless, hrefused⟩)
    · rw [h.malloc] at hrefused
      cases hrefused
    · rw [h.strdup] at hrefused
      cases hrefused
    · rw [hsizes.length_eq] at hless
      rw [hholds.granted hless] at hrefused
      cases hrefused

/-- There is a token. -/
theorem Inv.token (h : Inv memory csv s) {token saved : List Char}
    (htoken : strtok s.pending = token :: strtok saved)
    (hcall : strtokCall s.rest s.saved = (some token, saved)) :
    (∀ t, pass memory s = .again t → Inv memory csv t ∧ t.pending = saved ∧
      t.values.cells.take s.values.count = s.values.cells.take s.values.count ∧
      s.values.count < t.values.capacity) ∧
    ∀ outcome, pass memory s = .done outcome → outcome.Settles memory csv := by
  obtain ⟨before, sizes, htokens, hsizes, hholds⟩ := h.parsed
  rw [htoken] at htokens
  unfold pass
  rw [hcall]
  dsimp only
  cases hsize : parseSize token with
  | error message => exact Progress.of_done (parseSizesCsv_rejected htokens hsizes hsize)
  | ok value =>
      dsimp only
      rcases hholds.push (by decide) memory.limit (by decide) value with
        ⟨values, hpush, hvalues, hkept, hroom⟩ | ⟨hpush, k, hk, hrefused⟩
      · rw [hpush]
        dsimp only
        constructor
        · rintro t ⟨⟩
          refine ⟨⟨h.malloc, h.strdup, before ++ [token], sizes ++ [value], ?_, ?_, hvalues⟩,
            rfl, hkept, hroom⟩
          · rw [htokens, List.append_assoc]
            rfl
          · exact List.rel_append hsizes (.cons hsize .nil)
        · intro outcome hdone
          cases hdone
      · rw [hpush]
        refine Progress.of_done (.inr (.inr ⟨k, ?_, hrefused⟩))
        -- this token is one more than the array holds
        rw [← hk, ← hsizes.length_eq, htokens, List.length_append, List.length_cons]
        omega

/-- A pass that goes round again has taken a token off and kept what was stored. -/
theorem Inv.again (h : Inv memory csv s) (hpass : pass memory s = .again t) :
    Inv memory csv t ∧ (strtok t.pending).length < (strtok s.pending).length ∧
      t.values.cells.take s.values.count = s.values.cells.take s.values.count ∧
      s.values.count < t.values.capacity := by
  rcases strtokCall_cases s.rest s.saved with ⟨_, hcall⟩ | ⟨token, saved, htoken, hcall⟩
  · rw [pass, hcall] at hpass
    cases hpass
  · obtain ⟨ht, hpending, hkept, hroom⟩ := (h.token htoken hcall).1 t hpass
    refine ⟨ht, ?_, hkept, hroom⟩
    rw [hpending, Parse.pending, htoken, List.length_cons]
    exact Nat.lt_succ_self _

theorem Inv.done (h : Inv memory csv s) (hpass : pass memory s = .done outcome) :
    outcome.Settles memory csv := by
  rcases strtokCall_cases s.rest s.saved with ⟨hnone, hcall⟩ | ⟨token, saved, htoken, hcall⟩
  · rw [pass, hcall] at hpass
    cases hpass
    exact h.finish hnone
  · exact (h.token htoken hcall).2 outcome hpass

theorem run_inv (memory : Memory) (saved csv : List Char) (n : Nat) :
    (∀ s, run memory saved csv n = .again s → Inv memory csv s) ∧
      ∀ outcome, run memory saved csv n = .done outcome → outcome.Settles memory csv := by
  obtain ⟨hagain, hdone⟩ := start_inv memory saved csv
  unfold run
  cases hstart : start memory saved csv with
  | again s =>
      exact Loop.run_inv (fun s t h hpass => (h.again hpass).1)
        (fun s outcome h hpass => h.done hpass) n (hagain s hstart)
  | done outcome => exact Progress.of_done (hdone outcome hstart)

/-- The function ends. -/
theorem exists_outcome (memory : Memory) (saved csv : List Char) :
    ∃ n outcome, run memory saved csv n = .done outcome ∧ outcome.Settles memory csv := by
  obtain ⟨hagain, hdone⟩ := start_inv memory saved csv
  unfold run
  cases hstart : start memory saved csv with
  | again s =>
      exact Loop.exists_done (fun s => (strtok s.pending).length)
        (fun s t h hpass => ⟨(h.again hpass).1, (h.again hpass).2.1⟩)
        (fun s outcome h hpass => h.done hpass) (hagain s hstart)
  | done outcome => exact ⟨0, outcome, rfl, hdone outcome hstart⟩

end Invariant

/-! ## The result -/

/-- The process has ended with an error. -/
def Outcome.Exits : Outcome → Prop
  | .usage _ => True
  | .perror _ => True
  | _ => False

/-- When the process ends with an error. -/
theorem Outcome.Settles.exits_iff {memory : Memory} {csv : List Char} {outcome : Outcome}
    (h : outcome.Settles memory csv) {spans : List (Nat × Nat)}
    (hspans : strtok csv = spans.map (slice csv)) :
    outcome.Exits ↔ spans = [] ∨
      (∃ span ∈ spans, ∃ message, parseSize (slice csv span) = .error message) ∨
      memory.Refuses csv spans.length := by
  have hlength : (strtok csv).length = spans.length := by rw [hspans, List.length_map]
  cases outcome with
  | undefined => cases h
  | perror message => exact ⟨fun _ => .inr (.inr (hlength ▸ h)), fun _ => trivial⟩
  | usage message =>
      refine ⟨fun _ => ?_, fun _ => trivial⟩
      rcases parseSizesCsv_eq_error h with hnil | ⟨token, hmem, hrejected⟩
      · rw [hspans, List.map_eq_nil_iff] at hnil
        exact .inl hnil
      · rw [hspans] at hmem
        obtain ⟨span, hspan, rfl⟩ := List.mem_map.mp hmem
        exact .inr (.inl ⟨span, hspan, message, hrejected⟩)
  | returned values count =>
      refine ⟨False.elim, fun hwhy => ?_⟩
      obtain ⟨sizes, hparse, _, _, hgranted⟩ := h
      obtain ⟨hsizes, hne⟩ := parseSizesCsv_eq_ok.mp hparse
      rcases hwhy with rfl | ⟨span, hspan, message, hrejected⟩ | hrefused
      · rw [hspans, List.map_nil, List.forall₂_nil_left_iff] at hsizes
        exact absurd hsizes hne
      · rw [hspans] at hsizes
        obtain ⟨size, hsize⟩ := accepted_of_mem hsizes (List.mem_map_of_mem hspan)
        rw [hrejected] at hsize
        cases hsize
      · exact absurd (hlength ▸ hrefused) hgranted

/-- The first sizes are those of the first spans. -/
theorem Inv.prefix_sizes {memory : Memory} {csv : List Char} {s : Parse}
    (h : Inv memory csv s) {spans : List (Nat × Nat)}
    (hspans : strtok csv = spans.map (slice csv)) :
    ∃ sizes, s.values.cells.take s.values.count = sizes.map some ∧
      List.Forall₂ (fun span size => parseSize (slice csv span) = .ok size)
        (spans.take s.values.count) sizes := by
  obtain ⟨before, sizes, htokens, hsizes, hholds⟩ := h.parsed
  have hbefore : before = (spans.take s.values.count).map (slice csv) := by
    rw [List.map_take, ← hspans, htokens, hholds.count, ← hsizes.length_eq, List.take_left]
  rw [hbefore] at hsizes
  exact ⟨sizes, hholds.cells, List.forall₂_map_left_iff.mp hsizes⟩

/-- `parse_sizes_csv` returns the sizes of the segments between the commas, in order,
and their number.  It ends, with an error exactly if there is no segment, `parse_size`
rejects one, or a request for memory that so many segments take is refused.  At each
test of its loop the array has the capacity that is noted, holds the first sizes and no
more than fit, and keeps them in the next pass, which stores within its capacity. -/
theorem parseSizesCsv_exact (memory : Memory) (saved csv : List Char) :
    ∃ spans, Runs (Free isComma csv) spans ∧
      (∃ n outcome, run memory saved csv n = .done outcome) ∧
      (∀ n values count, run memory saved csv n = .done (.returned values count) →
        count = spans.length ∧ 1 ≤ count ∧
          ∃ sizes, values.take count = sizes.map some ∧
            List.Forall₂ (fun span size => parseSize (slice csv span) = .ok size)
              spans sizes) ∧
      ((∃ n outcome, run memory saved csv n = .done outcome ∧ outcome.Exits) ↔
        spans = [] ∨
          (∃ span ∈ spans, ∃ message, parseSize (slice csv span) = .error message) ∨
          memory.Refuses csv spans.length) ∧
      (∀ n, run memory saved csv n ≠ .done .undefined) ∧
      ∀ n s, run memory saved csv n = .again s →
        s.values.count ≤ s.values.capacity ∧
        s.values.cells.length = s.values.capacity ∧
        (∃ sizes, s.values.cells.take s.values.count = sizes.map some ∧
          List.Forall₂ (fun span size => parseSize (slice csv span) = .ok size)
            (spans.take s.values.count) sizes) ∧
        ∀ t, pass memory s = .again t →
          t.values.cells.take s.values.count = s.values.cells.take s.values.count ∧
            s.values.count < t.values.capacity := by
  obtain ⟨spans, hruns, hspans⟩ := segments_eq_runs isComma csv
  rw [← strtok_eq] at hspans
  obtain ⟨n, outcome, hrun, hsettles⟩ := exists_outcome memory saved csv
  refine ⟨spans, hruns, ⟨n, outcome, hrun⟩, ?_, ?_, ?_, ?_⟩
  · intro n values count hreturned
    obtain ⟨sizes, hparse, hcount, hvalues, _⟩ := (run_inv memory saved csv n).2 _ hreturned
    obtain ⟨hsizes, hne⟩ := parseSizesCsv_eq_ok.mp hparse
    rw [hspans, List.forall₂_map_left_iff] at hsizes
    have hsame := hsizes.length_eq
    have hpos := List.length_pos_iff.mpr hne
    exact ⟨by omega, by omega, sizes, hvalues, hsizes⟩
  · constructor
    · rintro ⟨n, outcome, hdone, hexits⟩
      exact (((run_inv memory saved csv n).2 outcome hdone).exits_iff hspans).mp hexits
    · exact fun hwhy => ⟨n, outcome, hrun, (hsettles.exits_iff hspans).mpr hwhy⟩
  · exact fun n hundefined => (run_inv memory saved csv n).2 _ hundefined
  · intro n s hagain
    have hinv := (run_inv memory saved csv n).1 s hagain
    obtain ⟨before, sizes, _, _, hholds⟩ := hinv.parsed
    refine ⟨hholds.le, hholds.block, hinv.prefix_sizes hspans, fun t hpass => ?_⟩
    exact (hinv.again hpass).2.2

example :
    run ⟨fun _ => true, fun _ => true, fun bytes => decide (bytes < 2 ^ 63),
        fun _ h => decide_eq_false (Nat.not_lt.mpr h)⟩ [] ",4,,8".toList 3 =
      .done (.returned (some 4 :: some 8 :: List.replicate 6 none) 2) := rfl

/-- Without memory the sizes in `8` are not returned. -/
theorem parseSizesCsv_without_memory :
    ∃ memory : Memory, run memory [] "8".toList 0 = .done (.perror "malloc") ∧
      strtok "8".toList = ["8".toList] ∧ parseSize "8".toList = .ok 8 :=
  ⟨⟨fun _ => false, fun _ => false, fun _ => false, fun _ _ => rfl⟩, rfl, rfl, rfl⟩

end SysLab.PartA.SizesCsv
