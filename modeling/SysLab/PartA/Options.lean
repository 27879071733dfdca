import SysLab.Foundation.Numeral

/-!
# The command line of `parta_bench`

`parse_size`, `parse_sizes_csv` and `parse_args` of `main.c`, up to the end of the
process in `die_usage` or after `--help`.

An argument list made of complete options is a list of `Group`s.  `collect` says
what the loop of `parse_args` makes of one: for each option its last value counts,
so that only the order among the groups of one option matters.
-/

namespace SysLab.PartA

open SysLab.Foundation

/-! ## Sizes -/

/-- `SIZE_MAX`. -/
def sizeMax : Nat := 2 ^ 64 - 1

/-- `parse_size`, or the message of `die_usage`. -/
def parseSize (text : List Char) : Except String Nat :=
  let (value, rest) := strtoul text
  if text = [] ∨ rest ≠ [] then .error "invalid size value"
  else if value = 0 then .error "size value must be positive"
  else if sizeMax < value then .error "size value is too large for this platform"
  else .ok value

theorem parseSize_returns : ReturnsUnsigned parseSize (1 ≤ ·) := by
  intro text value
  have hrange := strtoul_le text
  unfold parseSize
  rcases hread : strtoul text with ⟨n, rest⟩
  rw [hread] at hrange
  dsimp only at hrange ⊢
  by_cases hrefused : text = [] ∨ rest ≠ []
  · rw [if_pos hrefused]
    simp only [reduceCtorEq, false_iff, Prod.mk.injEq]
    rintro ⟨hne, ⟨rfl, rfl⟩, _⟩
    rcases hrefused with h | h
    · exact hne h
    · exact h rfl
  · simp only [not_or, not_not] at hrefused
    obtain ⟨hne, rfl⟩ := hrefused
    rw [if_neg (by simp [hne])]
    split
    · next hzero =>
        simp only [reduceCtorEq, false_iff, Prod.mk.injEq]
        omega
    · next hzero =>
        rw [if_neg (by rw [sizeMax]; omega), Except.ok.injEq, Prod.mk.injEq]
        constructor
        · rintro rfl
          exact ⟨hne, ⟨rfl, rfl⟩, Nat.pos_of_ne_zero hzero⟩
        · exact fun h => h.2.1.1

/-- The tokens that `strtok(text, ",")` and the calls after it return. -/
def strtok (text : List Char) : List (List Char) :=
  (text.splitOn ',').filter fun token => !token.isEmpty

/-- `parse_sizes_csv`. -/
def parseSizesCsv (csv : List Char) : Except String (List Nat) :=
  match (strtok csv).mapM parseSize with
  | .error message => .error message
  | .ok [] => .error "no sizes were parsed from --sizes"
  | .ok values => .ok values

/-! ## `parse_args` -/

/-- `config_t`; a `NULL` path is `none`. -/
structure Config where
  inputPath : Option String
  outputPath : String
  writeDir : String
  sizes : List Nat
  sizeCount : Nat
  myfreadBufferSize : Nat
  writeTotalBytes : Nat
  quickMode : Bool
  sizesOverridden : Bool
  myfreadBufferOverridden : Bool
  writeTotalOverridden : Bool
  deriving DecidableEq, Repr

/-- The process ends: in `die_usage`, or with the help text printed. -/
inductive Stop
  | usage (message : String)
  | help
  deriving DecidableEq, Repr

/-- `k_default_sizes`. -/
def kDefaultSizes : List Nat :=
  [1, 2, 4, 8, 16, 32, 64, 128, 256, 512, 1024, 2048, 4096, 8192, 16384, 32768, 65536,
    16777216]

/-- `k_quick_sizes`. -/
def kQuickSizes : List Nat := [64, 256, 1024, 4096, 16384, 65536]

/-- `k_quick_write_total_bytes`. -/
def kQuickWriteTotalBytes : Nat := 32 * 1024 * 1024

/-- `set_default_sizes`. -/
def setDefaultSizes (config : Config) : Config :=
  { config with sizes := kDefaultSizes, sizeCount := kDefaultSizes.length }

/-- `set_quick_sizes`. -/
def setQuickSizes (config : Config) : Config :=
  { config with sizes := kQuickSizes, sizeCount := kQuickSizes.length }

/-- The configuration before the loop. -/
def initialConfig : Config :=
  setDefaultSizes {
    inputPath := none
    outputPath := "results.csv"
    writeDir := "."
    sizes := []
    sizeCount := 0
    myfreadBufferSize := 0
    writeTotalBytes := 0
    quickMode := false
    sizesOverridden := false
    myfreadBufferOverridden := false
    writeTotalOverridden := false }

/-- The options that take a value. -/
inductive ValueOption
  | input
  | output
  | writeDir
  | sizes
  | myfreadBuffer
  | writeTotalBytes
  deriving DecidableEq, Repr

/-- As it is written. -/
def ValueOption.name : ValueOption → String
  | .input => "--input"
  | .output => "--output"
  | .writeDir => "--write-dir"
  | .sizes => "--sizes"
  | .myfreadBuffer => "--myfread-buffer"
  | .writeTotalBytes => "--write-total-bytes"

/-- The comparisons of `argv[i]` with the options that take a value. -/
def valueOption (arg : String) : Option ValueOption :=
  if arg = "--input" then some .input
  else if arg = "--output" then some .output
  else if arg = "--write-dir" then some .writeDir
  else if arg = "--sizes" then some .sizes
  else if arg = "--myfread-buffer" then some .myfreadBuffer
  else if arg = "--write-total-bytes" then some .writeTotalBytes
  else none

/-- What an option does with its value. -/
def ValueOption.set (config : Config) (value : String) : ValueOption → Except Stop Config
  | .input => .ok { config with inputPath := some value }
  | .output => .ok { config with outputPath := value }
  | .writeDir => .ok { config with writeDir := value }
  | .sizes =>
      match parseSizesCsv value.toList with
      | .error message => .error (.usage message)
      | .ok values =>
          .ok { config with
            sizes := values
            sizeCount := values.length
            sizesOverridden := true }
  | .myfreadBuffer =>
      match parseSize value.toList with
      | .error message => .error (.usage message)
      | .ok size =>
          .ok { config with myfreadBufferSize := size, myfreadBufferOverridden := true }
  | .writeTotalBytes =>
      match parseSize value.toList with
      | .error message => .error (.usage message)
      | .ok size => .ok { config with writeTotalBytes := size, writeTotalOverridden := true }

/-- The loop over `argv[1 .. argc)`. -/
def parseLoop : List String → Config → Except Stop Config
  | [], config => .ok config
  | arg :: rest, config =>
      match valueOption arg, rest with
      | some option, [] => .error (.usage ("missing value for " ++ option.name))
      | some option, value :: rest =>
          match option.set config value with
          | .error stop => .error stop
          | .ok config => parseLoop rest config
      | none, rest =>
          if arg = "--quick" then parseLoop rest { config with quickMode := true }
          else if arg = "--help" ∨ arg = "-h" then .error .help
          else .error (.usage "unknown argument")

/-- What `--quick` sets, unless a value was given. -/
def applyQuick (config : Config) : Config :=
  let config := if config.sizesOverridden then config else setQuickSizes config
  let config :=
    if config.myfreadBufferOverridden then config
    else { config with myfreadBufferSize := 4096 }
  if config.writeTotalOverridden then config
  else { config with writeTotalBytes := kQuickWriteTotalBytes }

/-- `parse_args`, past the loop. -/
def finishArgs (config : Config) : Except Stop Config :=
  if config.inputPath = none then .error (.usage "--input is required")
  else if config.quickMode then .ok (applyQuick config)
  else .ok config

/-- `parse_args` on `argv[1 .. argc)`. -/
def parseArgs (args : List String) : Except Stop Config :=
  match parseLoop args initialConfig with
  | .error stop => .error stop
  | .ok config => finishArgs config

/-! ## Complete options -/

/-- `--quick`, or an option with its value. -/
inductive Group
  | quick
  | value (option : ValueOption) (text : String)
  deriving DecidableEq, Repr

/-- The arguments it consists of. -/
def Group.args : Group → List String
  | .quick => ["--quick"]
  | .value option text => [option.name, text]

/-- The option it gives; `--quick` is `none`. -/
def Group.option : Group → Option ValueOption
  | .quick => none
  | .value option _ => some option

/-- Its value, if it gives one to `option`. -/
def Group.textFor (option : ValueOption) : Group → Option String
  | .quick => none
  | .value option' text => if option' = option then some text else none

/-- What a group does in the loop. -/
def Group.apply (config : Config) : Group → Except Stop Config
  | .quick => .ok { config with quickMode := true }
  | .value option text => option.set config text

theorem valueOption_name (option : ValueOption) : valueOption option.name = some option := by
  cases option with
  | input => rfl
  | output => rfl
  | writeDir => rfl
  | sizes => rfl
  | myfreadBuffer => rfl
  | writeTotalBytes => rfl

/-- The loop takes a group off. -/
theorem parseLoop_args (group : Group) (rest : List String) (config : Config) :
    parseLoop (group.args ++ rest) config = (group.apply config).bind (parseLoop rest) := by
  cases group with
  | quick => rfl
  | value option text =>
      show parseLoop (option.name :: text :: rest) config = _
      rw [parseLoop.eq_def]
      simp only [valueOption_name, Group.apply]
      cases option.set config text with
      | error stop => rfl
      | ok config => rfl

/-! ## The last value of each option -/

/-- The last value that `f` finds. -/
def lastSome {β : Type*} (f : Group → Option β) : List Group → Option β
  | [] => none
  | group :: groups => (lastSome f groups).or (f group)

/-- The last value given to an option. -/
def last (option : ValueOption) (groups : List Group) : Option String :=
  lastSome (Group.textFor option) groups

section LastSome

variable {β : Type*} {γ : Type*} {f : Group → Option β} {groups : List Group}

theorem getD_lastSome_cons (f : Group → Option β) (group : Group) (groups : List Group)
    (x : β) :
    (lastSome f (group :: groups)).getD x =
      (lastSome f groups).getD ((lastSome f [group]).getD x) := by
  rw [lastSome, lastSome, lastSome, Option.none_or, Option.getD_or]

theorem isSome_lastSome_cons (f : Group → Option β) (group : Group) (groups : List Group)
    (b : Bool) :
    (b || (lastSome f (group :: groups)).isSome) =
      ((b || (lastSome f [group]).isSome) || (lastSome f groups).isSome) := by
  rw [lastSome, lastSome, lastSome, Option.none_or, Option.isSome_or, Bool.or_assoc,
    Bool.or_comm (f group).isSome]

/-- Groups in which `f` finds nothing do not matter. -/
theorem lastSome_filter {p : Group → Bool} (h : ∀ group, f group ≠ none → p group = true) :
    lastSome f (groups.filter p) = lastSome f groups := by
  induction groups with
  | nil => rfl
  | cons group groups ih =>
      rw [List.filter_cons]
      split
      · rw [lastSome, lastSome, ih]
      · next hp =>
          have hnone : f group = none := by
            by_contra hne
            exact hp (h group hne)
          rw [lastSome, ih, hnone, Option.or_none]

theorem exists_of_lastSome {x : β} (h : lastSome f groups = some x) :
    ∃ group ∈ groups, f group = some x := by
  induction groups with
  | nil => cases h
  | cons group groups ih =>
      rw [lastSome, Option.or_eq_some_iff] at h
      rcases h with hrest | ⟨_, hgroup⟩
      · obtain ⟨group', hmem, hx⟩ := ih hrest
        exact ⟨group', List.mem_cons_of_mem _ hmem, hx⟩
      · exact ⟨group, List.mem_cons_self, hgroup⟩

/-- What is made of the last value, if something is made of each. -/
theorem lastSome_bind {g : β → Option γ}
    (h : ∀ group ∈ groups, ∀ x, f group = some x → (g x).isSome) :
    lastSome (fun group => (f group).bind g) groups = (lastSome f groups).bind g := by
  induction groups with
  | nil => rfl
  | cons group groups ih =>
      rw [lastSome, lastSome, ih fun group' hmem => h group' (List.mem_cons_of_mem _ hmem)]
      cases hlast : lastSome f groups with
      | none => rfl
      | some x =>
          obtain ⟨group', hmem, hx⟩ := exists_of_lastSome hlast
          obtain ⟨y, hy⟩ := Option.isSome_iff_exists.mp
            (h group' (List.mem_cons_of_mem _ hmem) x hx)
          rw [Option.some_or, Option.bind_some, hy, Option.some_or]

end LastSome

/-- The values that the last `--sizes` lists. -/
def lastSizes : List Group → Option (List Nat) :=
  lastSome fun group => (group.textFor .sizes).bind fun text =>
    (parseSizesCsv text.toList).toOption

/-- The size that the last `option` gives. -/
def lastSize (option : ValueOption) : List Group → Option Nat :=
  lastSome fun group => (group.textFor option).bind fun text =>
    (parseSize text.toList).toOption

/-- What the loop makes of accepted groups. -/
def collect (groups : List Group) (config : Config) : Config where
  inputPath := (last .input groups).or config.inputPath
  outputPath := (last .output groups).getD config.outputPath
  writeDir := (last .writeDir groups).getD config.writeDir
  sizes := (lastSizes groups).getD config.sizes
  sizeCount := ((lastSizes groups).map List.length).getD config.sizeCount
  myfreadBufferSize := (lastSize .myfreadBuffer groups).getD config.myfreadBufferSize
  writeTotalBytes := (lastSize .writeTotalBytes groups).getD config.writeTotalBytes
  quickMode := config.quickMode || decide (.quick ∈ groups)
  sizesOverridden := config.sizesOverridden || (last .sizes groups).isSome
  myfreadBufferOverridden :=
    config.myfreadBufferOverridden || (last .myfreadBuffer groups).isSome
  writeTotalOverridden := config.writeTotalOverridden || (last .writeTotalBytes groups).isSome

/-- The value of the group can be parsed. -/
def Group.Accepted : Group → Prop
  | .value .sizes text => ∃ values, parseSizesCsv text.toList = .ok values
  | .value .myfreadBuffer text => ∃ size, parseSize text.toList = .ok size
  | .value .writeTotalBytes text => ∃ size, parseSize text.toList = .ok size
  | _ => True

/-- Of one group. -/
theorem apply_accepted {group : Group} (h : group.Accepted) (config : Config) :
    group.apply config = .ok (collect [group] config) := by
  cases group with
  | quick =>
      simp [Group.apply, collect, last, lastSome, lastSizes, lastSize, Group.textFor]
  | value option text =>
      cases option with
      | input =>
          simp [Group.apply, ValueOption.set, collect, last, lastSome, lastSizes, lastSize,
            Group.textFor]
      | output =>
          simp [Group.apply, ValueOption.set, collect, last, lastSome, lastSizes, lastSize,
            Group.textFor]
      | writeDir =>
          simp [Group.apply, ValueOption.set, collect, last, lastSome, lastSizes, lastSize,
            Group.textFor]
      | sizes =>
          obtain ⟨values, hvalues⟩ := h
          simp [Group.apply, ValueOption.set, collect, last, lastSome, lastSizes, lastSize,
            Group.textFor, hvalues, Except.toOption]
      | myfreadBuffer =>
          obtain ⟨size, hsize⟩ := h
          simp [Group.apply, ValueOption.set, collect, last, lastSome, lastSizes, lastSize,
            Group.textFor, hsize, Except.toOption]
      | writeTotalBytes =>
          obtain ⟨size, hsize⟩ := h
          simp [Group.apply, ValueOption.set, collect, last, lastSome, lastSizes, lastSize,
            Group.textFor, hsize, Except.toOption]

/-- A group whose value cannot be parsed ends the process. -/
theorem apply_rejected {group : Group} (h : ¬ group.Accepted) (config : Config) :
    ∃ stop, group.apply config = .error stop := by
  have hsize : ∀ text : String, (¬ ∃ size, parseSize text.toList = .ok size) →
      ∃ message, parseSize text.toList = .error message := by
    intro text hnone
    cases hparse : parseSize text.toList with
    | error message => exact ⟨message, rfl⟩
    | ok size => exact absurd ⟨size, hparse⟩ hnone
  cases group with
  | quick => exact absurd trivial h
  | value option text =>
      cases option with
      | input => exact absurd trivial h
      | output => exact absurd trivial h
      | writeDir => exact absurd trivial h
      | sizes =>
          cases hparse : parseSizesCsv text.toList with
          | error message =>
              exact ⟨.usage message, by simp [Group.apply, ValueOption.set, hparse]⟩
          | ok values => exact absurd ⟨values, hparse⟩ h
      | myfreadBuffer =>
          obtain ⟨message, hparse⟩ := hsize text h
          exact ⟨.usage message, by simp [Group.apply, ValueOption.set, hparse]⟩
      | writeTotalBytes =>
          obtain ⟨message, hparse⟩ := hsize text h
          exact ⟨.usage message, by simp [Group.apply, ValueOption.set, hparse]⟩

/-- One group after the other. -/
theorem collect_cons (group : Group) (groups : List Group) (config : Config) :
    collect (group :: groups) config = collect groups (collect [group] config) := by
  have hcount : ((lastSizes (group :: groups)).map List.length).getD config.sizeCount =
      ((lastSizes groups).map List.length).getD
        (((lastSizes [group]).map List.length).getD config.sizeCount) := by
    simp only [lastSizes, lastSome, Option.none_or, Option.map_or, Option.getD_or]
  have hinput : (last .input (group :: groups)).or config.inputPath =
      (last .input groups).or ((last .input [group]).or config.inputPath) := by
    simp only [last, lastSome, Option.none_or, Option.or_assoc]
  have hquick : (config.quickMode || decide (.quick ∈ group :: groups)) =
      ((config.quickMode || decide (.quick ∈ [group])) || decide (.quick ∈ groups)) := by
    simp [Bool.or_assoc]
  simp only [collect, hcount, hinput, hquick]
  simp only [last, lastSizes, lastSize, getD_lastSome_cons _ group groups,
    isSome_lastSome_cons _ group groups]

theorem collect_nil (config : Config) : collect [] config = config := by
  simp [collect, last, lastSome, lastSizes, lastSize]

/-- The loop on complete options. -/
theorem parseLoop_groups {groups : List Group} {config config' : Config} :
    parseLoop (groups.flatMap Group.args) config = .ok config' ↔
      (∀ group ∈ groups, group.Accepted) ∧ config' = collect groups config := by
  induction groups generalizing config with
  | nil =>
      rw [collect_nil]
      simp [parseLoop, eq_comm]
  | cons group groups ih =>
      rw [List.flatMap_cons, parseLoop_args, collect_cons, List.forall_mem_cons]
      by_cases h : group.Accepted
      · rw [apply_accepted h]
        simp only [Except.bind, ih, h, true_and]
      · obtain ⟨stop, hstop⟩ := apply_rejected h config
        rw [hstop]
        simp [Except.bind, h]

/-! ## The configuration -/

/-- Field by field. -/
theorem applyQuick_eq (config : Config) :
    applyQuick config = { config with
      sizes := if config.sizesOverridden then config.sizes else kQuickSizes
      sizeCount := if config.sizesOverridden then config.sizeCount else kQuickSizes.length
      myfreadBufferSize :=
        if config.myfreadBufferOverridden then config.myfreadBufferSize else 4096
      writeTotalBytes :=
        if config.writeTotalOverridden then config.writeTotalBytes
        else kQuickWriteTotalBytes } := by
  rcases config with ⟨_, _, _, _, _, _, _, _, sizesOver, bufferOver, totalOver⟩
  cases sizesOver <;> cases bufferOver <;> cases totalOver <;> rfl

/-- What `parse_args` makes of accepted groups with an input. -/
def settled (groups : List Group) : Config where
  inputPath := last .input groups
  outputPath := (last .output groups).getD "results.csv"
  writeDir := (last .writeDir groups).getD "."
  sizes :=
    if .quick ∈ groups ∧ last .sizes groups = none then kQuickSizes
    else (lastSizes groups).getD kDefaultSizes
  sizeCount :=
    if .quick ∈ groups ∧ last .sizes groups = none then kQuickSizes.length
    else ((lastSizes groups).map List.length).getD kDefaultSizes.length
  myfreadBufferSize :=
    if .quick ∈ groups ∧ last .myfreadBuffer groups = none then 4096
    else (lastSize .myfreadBuffer groups).getD 0
  writeTotalBytes :=
    if .quick ∈ groups ∧ last .writeTotalBytes groups = none then kQuickWriteTotalBytes
    else (lastSize .writeTotalBytes groups).getD 0
  quickMode := decide (.quick ∈ groups)
  sizesOverridden := (last .sizes groups).isSome
  myfreadBufferOverridden := (last .myfreadBuffer groups).isSome
  writeTotalOverridden := (last .writeTotalBytes groups).isSome

theorem finishArgs_collect (groups : List Group) :
    finishArgs (collect groups initialConfig) =
      if last .input groups = none then .error (.usage "--input is required")
      else .ok (settled groups) := by
  have hcollect : collect groups initialConfig = {
      inputPath := last .input groups
      outputPath := (last .output groups).getD "results.csv"
      writeDir := (last .writeDir groups).getD "."
      sizes := (lastSizes groups).getD kDefaultSizes
      sizeCount := ((lastSizes groups).map List.length).getD kDefaultSizes.length
      myfreadBufferSize := (lastSize .myfreadBuffer groups).getD 0
      writeTotalBytes := (lastSize .writeTotalBytes groups).getD 0
      quickMode := decide (.quick ∈ groups)
      sizesOverridden := (last .sizes groups).isSome
      myfreadBufferOverridden := (last .myfreadBuffer groups).isSome
      writeTotalOverridden := (last .writeTotalBytes groups).isSome } := by
    simp [collect, initialConfig, setDefaultSizes]
  rw [finishArgs, hcollect, applyQuick_eq]
  dsimp only
  split
  · rfl
  · by_cases hquick : Group.quick ∈ groups
    · simp [settled, hquick, Option.isSome_iff_ne_none]
    · simp [settled, hquick]

theorem parseArgs_groups {groups : List Group} {config : Config} :
    parseArgs (groups.flatMap Group.args) = .ok config ↔
      (∀ group ∈ groups, group.Accepted) ∧ last .input groups ≠ none ∧
        config = settled groups := by
  unfold parseArgs
  cases hloop : parseLoop (groups.flatMap Group.args) initialConfig with
  | error stop =>
      constructor
      · intro h
        cases h
      · rintro ⟨haccepted, _⟩
        rw [parseLoop_groups.mpr ⟨haccepted, rfl⟩] at hloop
        cases hloop
  | ok config' =>
      obtain ⟨haccepted, rfl⟩ := parseLoop_groups.mp hloop
      show finishArgs (collect groups initialConfig) = .ok config ↔ _
      rw [finishArgs_collect]
      by_cases hnone : last .input groups = none
      · simp [hnone]
      · rw [if_neg hnone, Except.ok.injEq]
        constructor
        · exact fun h => ⟨haccepted, hnone, h.symm⟩
        · exact fun h => h.2.2.symm

/-- The value that was written, or the default. -/
def Given {β : Type*} (parse : List Char → Except String β) (text : Option String)
    (value default : β) : Prop :=
  match text with
  | some text => parse text.toList = .ok value
  | none => value = default

section Settled

variable {groups groups' : List Group} {config : Config} {option : ValueOption}

theorem textFor_eq_some {group : Group} {text : String} :
    group.textFor option = some text ↔ group = .value option text := by
  cases group with
  | quick => simp [Group.textFor]
  | value option' text' => simp [Group.textFor]

/-- What `option` parses in every group that is accepted, it parses last. -/
theorem lastSome_parse {β : Type*} (option : ValueOption)
    (parse : List Char → Except String β)
    (hparse : ∀ text, (Group.value option text).Accepted → ∃ x, parse text.toList = .ok x)
    (h : ∀ group ∈ groups, group.Accepted) :
    (∀ text, last option groups = some text → ∃ x, parse text.toList = .ok x) ∧
    lastSome (fun group => (group.textFor option).bind fun text =>
        (parse text.toList).toOption) groups =
      (last option groups).bind fun text => (parse text.toList).toOption := by
  have hfound : ∀ group ∈ groups, ∀ text, group.textFor option = some text →
      ∃ x, parse text.toList = .ok x := by
    intro group hmem text htext
    have haccepted := h group hmem
    rw [textFor_eq_some.mp htext] at haccepted
    exact hparse text haccepted
  constructor
  · intro text hlast
    obtain ⟨group, hmem, htext⟩ := exists_of_lastSome hlast
    exact hfound group hmem text htext
  · refine lastSome_bind fun group hmem text htext => ?_
    obtain ⟨x, hx⟩ := hfound group hmem text htext
    rw [hx]
    rfl

/-- The value that was written last counts, with `--quick` or without. -/
theorem given_last {β : Type*} (option : ValueOption) (parse : List Char → Except String β)
    (hparse : ∀ text, (Group.value option text).Accepted → ∃ x, parse text.toList = .ok x)
    (h : ∀ group ∈ groups, group.Accepted) (default quickDefault : β) :
    Given parse (last option groups)
      (if .quick ∈ groups ∧ last option groups = none then quickDefault
        else (lastSome (fun group => (group.textFor option).bind fun text =>
          (parse text.toList).toOption) groups).getD default)
      (if .quick ∈ groups then quickDefault else default) := by
  obtain ⟨hfound, hlast⟩ := lastSome_parse option parse hparse h
  rw [hlast]
  cases htext : last option groups with
  | none => simp [Given]
  | some text =>
      obtain ⟨x, hx⟩ := hfound text htext
      simp [Given, hx, Except.toOption]

/-- The sizes are as many as `size_count` says. -/
theorem settled_sizeCount (groups : List Group) :
    (settled groups).sizeCount = (settled groups).sizes.length := by
  unfold settled
  dsimp only
  split
  · rfl
  · cases lastSizes groups <;> rfl

theorem settled_sizes (h : ∀ group ∈ groups, group.Accepted) :
    Given parseSizesCsv (last .sizes groups) (settled groups).sizes
      (if .quick ∈ groups then kQuickSizes else kDefaultSizes) :=
  given_last .sizes parseSizesCsv (fun _ h => h) h kDefaultSizes kQuickSizes

theorem settled_myfreadBufferSize (h : ∀ group ∈ groups, group.Accepted) :
    Given parseSize (last .myfreadBuffer groups) (settled groups).myfreadBufferSize
      (if .quick ∈ groups then 4096 else 0) :=
  given_last .myfreadBuffer parseSize (fun _ h => h) h 0 4096

theorem settled_writeTotalBytes (h : ∀ group ∈ groups, group.Accepted) :
    Given parseSize (last .writeTotalBytes groups) (settled groups).writeTotalBytes
      (if .quick ∈ groups then kQuickWriteTotalBytes else 0) :=
  given_last .writeTotalBytes parseSize (fun _ h => h) h 0 kQuickWriteTotalBytes

end Settled

/-! ## Order -/

section Order

variable {groups groups' : List Group} {config : Config}

/-- For each option the same groups in the same order. -/
theorem lastSome_order {β : Type*} {f : Group → Option β} {option : Option ValueOption}
    (hf : ∀ group, f group ≠ none → group.option = option)
    (hsame : ∀ option, groups'.filter (·.option = option) =
      groups.filter (·.option = option)) :
    lastSome f groups' = lastSome f groups := by
  have hfilter : ∀ group, f group ≠ none → decide (group.option = option) = true :=
    fun group hne => decide_eq_true (hf group hne)
  rw [← lastSome_filter hfilter, hsame option, lastSome_filter hfilter]

theorem mem_order
    (hsame : ∀ option, groups'.filter (·.option = option) =
      groups.filter (·.option = option)) (group : Group) :
    group ∈ groups' ↔ group ∈ groups := by
  have hmem : ∀ l : List Group, group ∈ l.filter (·.option = group.option) ↔ group ∈ l := by
    simp [List.mem_filter]
  rw [← hmem groups', hsame, hmem groups]

theorem textFor_option {option : ValueOption} {group : Group}
    (h : group.textFor option ≠ none) : group.option = some option := by
  obtain ⟨text, htext⟩ := Option.ne_none_iff_exists'.mp h
  rw [textFor_eq_some.mp htext]
  rfl

theorem bind_textFor_option {β : Type*} {g : String → Option β} {option : ValueOption}
    {group : Group} (h : (group.textFor option).bind g ≠ none) :
    group.option = some option := by
  refine textFor_option fun hnone => h ?_
  rw [hnone]
  rfl

theorem settled_order
    (hsame : ∀ option, groups'.filter (·.option = option) =
      groups.filter (·.option = option)) :
    settled groups' = settled groups := by
  have hlast : ∀ option, last option groups' = last option groups :=
    fun option => lastSome_order (fun _ => textFor_option) hsame
  have hsizes : lastSizes groups' = lastSizes groups :=
    lastSome_order (fun _ => bind_textFor_option) hsame
  have hsize : ∀ option, lastSize option groups' = lastSize option groups :=
    fun option => lastSome_order (fun _ => bind_textFor_option) hsame
  simp only [settled, hlast, hsizes, hsize, mem_order hsame]

/-- Without the groups that are `--quick`. -/
theorem last_quick
    (hsame : groups'.filter (· ≠ .quick) = groups.filter (· ≠ .quick))
    (option : ValueOption) : last option groups' = last option groups := by
  have hfilter : ∀ group : Group, group.textFor option ≠ none →
      decide (group ≠ .quick) = true := by
    intro group hne
    obtain ⟨text, htext⟩ := Option.ne_none_iff_exists'.mp hne
    rw [textFor_eq_some.mp htext]
    rfl
  rw [last, last, ← lastSome_filter hfilter, hsame, lastSome_filter hfilter]

theorem accepted_quick
    (hsame : groups'.filter (· ≠ .quick) = groups.filter (· ≠ .quick))
    (h : ∀ group ∈ groups, group.Accepted) : ∀ group ∈ groups', group.Accepted := by
  intro group hmem
  by_cases hquick : group = .quick
  · rw [hquick]
    exact trivial
  · have hfilter : group ∈ groups'.filter (· ≠ .quick) :=
      List.mem_filter.mpr ⟨hmem, decide_eq_true hquick⟩
    rw [hsame] at hfilter
    exact h group (List.mem_filter.mp hfilter).1

/-- Two values given by the same text. -/
theorem Given.eq {β : Type*} {parse : List Char → Except String β} {text : Option String}
    {x y default default' : β} (hx : Given parse text x default)
    (hy : Given parse text y default') (htext : text ≠ none) : x = y := by
  cases text with
  | none => exact absurd rfl htext
  | some t =>
      have hxy : Except.ok (ε := String) x = .ok y := hx.symm.trans hy
      exact Except.ok.inj hxy

/-- On accepted complete options, `parse_args` depends only on the order among the
groups of one option: the last value given to an option counts, and `--quick`, anywhere
and any number of times, sets the sizes and the two byte counts that no value was
given. -/
theorem parseArgs_order (h : parseArgs (groups.flatMap Group.args) = .ok config) :
    (∀ groups' : List Group,
      (∀ option, groups'.filter (·.option = option) = groups.filter (·.option = option)) →
        parseArgs (groups'.flatMap Group.args) = .ok config) ∧
    config.inputPath = last .input groups ∧
    config.outputPath = (last .output groups).getD "results.csv" ∧
    config.writeDir = (last .writeDir groups).getD "." ∧
    config.quickMode = decide (.quick ∈ groups) ∧
    config.sizeCount = config.sizes.length ∧
    Given parseSizesCsv (last .sizes groups) config.sizes
      (if .quick ∈ groups then kQuickSizes else kDefaultSizes) ∧
    Given parseSize (last .myfreadBuffer groups) config.myfreadBufferSize
      (if .quick ∈ groups then 4096 else 0) ∧
    Given parseSize (last .writeTotalBytes groups) config.writeTotalBytes
      (if .quick ∈ groups then kQuickWriteTotalBytes else 0) ∧
    ∀ groups' : List Group,
      groups'.filter (· ≠ .quick) = groups.filter (· ≠ .quick) →
        ∃ config', parseArgs (groups'.flatMap Group.args) = .ok config' ∧
          config'.inputPath = config.inputPath ∧
          config'.outputPath = config.outputPath ∧
          config'.writeDir = config.writeDir ∧
          (last .sizes groups ≠ none →
            config'.sizes = config.sizes ∧ config'.sizeCount = config.sizeCount) ∧
          (last .myfreadBuffer groups ≠ none →
            config'.myfreadBufferSize = config.myfreadBufferSize) ∧
          (last .writeTotalBytes groups ≠ none →
            config'.writeTotalBytes = config.writeTotalBytes) := by
  obtain ⟨haccepted, hinput, rfl⟩ := parseArgs_groups.mp h
  have hsizes := settled_sizes haccepted
  have hbuffer := settled_myfreadBufferSize haccepted
  have htotal := settled_writeTotalBytes haccepted
  refine ⟨fun groups' hsame => parseArgs_groups.mpr ⟨fun group hmem =>
      haccepted group ((mem_order hsame group).mp hmem), ?_, (settled_order hsame).symm⟩,
    rfl, rfl, rfl, rfl, settled_sizeCount groups, hsizes, hbuffer, htotal,
    fun groups' hsame => ?_⟩
  · rwa [last, lastSome_order (fun _ => textFor_option) hsame]
  · have hlast := last_quick hsame
    have haccepted' := accepted_quick hsame haccepted
    have hsizes' := settled_sizes haccepted'
    have hbuffer' := settled_myfreadBufferSize haccepted'
    have htotal' := settled_writeTotalBytes haccepted'
    rw [hlast] at hsizes' hbuffer' htotal'
    refine ⟨settled groups', parseArgs_groups.mpr ⟨haccepted', ?_, rfl⟩, ?_, ?_, ?_, ?_, ?_,
      ?_⟩
    · rwa [hlast]
    · exact hlast .input
    · exact congrArg (Option.getD · "results.csv") (hlast .output)
    · exact congrArg (Option.getD · ".") (hlast .writeDir)
    · intro hgiven
      have heq := hsizes'.eq hsizes hgiven
      exact ⟨heq, by rw [settled_sizeCount, settled_sizeCount, heq]⟩
    · exact hbuffer'.eq hbuffer
    · exact htotal'.eq htotal

/-- `--sizes`, which was given, and `--quick` in two orders. -/
theorem parseArgs_order_sizes :
    ∃ config, parseArgs ["--sizes", "1", "--input", "in", "--quick", "--sizes", "8,16"] =
        .ok config ∧
      parseArgs ["--quick", "--sizes", "1", "--sizes", "8,16", "--input", "in"] =
        .ok config ∧
      config.sizes = [8, 16] ∧ config.myfreadBufferSize = 4096 := by
  have h : parseArgs ([.value .sizes "1", .value .input "in", .quick,
      .value .sizes "8,16"].flatMap Group.args) = .ok {
        inputPath := some "in"
        outputPath := "results.csv"
        writeDir := "."
        sizes := [8, 16]
        sizeCount := 2
        myfreadBufferSize := 4096
        writeTotalBytes := kQuickWriteTotalBytes
        quickMode := true
        sizesOverridden := true
        myfreadBufferOverridden := false
        writeTotalOverridden := false } := rfl
  obtain ⟨horder, _⟩ := parseArgs_order h
  refine ⟨_, h, ?_, rfl, rfl⟩
  refine horder [.quick, .value .sizes "1", .value .sizes "8,16", .value .input "in"] ?_
  intro option
  rcases option with _ | option
  · rfl
  · cases option <;> rfl

end Order

end SysLab.PartA
