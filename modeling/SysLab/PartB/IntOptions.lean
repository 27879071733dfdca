import SysLab.PartB.LoadArithmetic
import SysLab.PartB.PollServerLimit
import SysLab.PartB.ServerOptions

/-!
# `int` numbers on the command lines

`parse_int` compares a `long` with its minimum and returns it as an `int`.  The
programs call it with 1 as the minimum, and what they do with the result relies on that.
-/

namespace SysLab.PartB

open SysLab.Foundation

namespace LoadClient

/-! ## The options of the load client -/

/-- The options that take an `int`. -/
inductive IntOption
  | connections
  | requestsPerConnection
  | threads

/-- As it is written. -/
def IntOption.flag : IntOption → String
  | .connections => "--connections"
  | .requestsPerConnection => "--requests-per-connection"
  | .threads => "--threads"

/-- The name that `parse_int` shows. -/
def IntOption.name : IntOption → String
  | .connections => "connections"
  | .requestsPerConnection => "requests-per-connection"
  | .threads => "threads"

def IntOption.value (opts : Options) : IntOption → Int
  | .connections => opts.connections
  | .requestsPerConnection => opts.requestsPerConnection
  | .threads => opts.threads

variable {args : List String} {opts opts' : Options} {arg value : String}

theorem parseLoop_eq (args : List String) (opts : Options) :
    parseLoop args opts = optionLoop usage setOption args opts := by
  induction args, opts using parseLoop.induct with
  | case1 opts => rfl
  | case2 arg opts => rfl
  | case3 arg value rest opts message hset => rw [parseLoop, optionLoop, hset]
  | case4 arg value rest opts next hset ih =>
      rw [parseLoop, optionLoop, hset]
      exact ih

theorem setOption_flag (o : IntOption) (h : setOption opts o.flag value = .ok opts') :
    parseInt value.toList o.name 1 = .ok (o.value opts') := by
  cases o with
  | connections =>
      obtain ⟨n, hn, rfl⟩ := exists_of_map h
      exact hn
  | requestsPerConnection =>
      obtain ⟨n, hn, rfl⟩ := exists_of_map h
      exact hn
  | threads =>
      obtain ⟨n, hn, rfl⟩ := exists_of_map h
      exact hn

/-- Another option leaves the number as it is. -/
theorem setOption_value (o : IntOption) (harg : arg ≠ o.flag)
    (h : setOption opts arg value = .ok opts') : o.value opts' = o.value opts := by
  unfold setOption at h
  split at h
  · cases h
    cases o <;> rfl
  split at h
  · obtain ⟨port, _, rfl⟩ := exists_of_map h
    cases o <;> rfl
  split at h
  · next hflag =>
      obtain ⟨n, _, rfl⟩ := exists_of_map h
      cases o with
      | connections => exact absurd hflag harg
      | requestsPerConnection => rfl
      | threads => rfl
  split at h
  · next hflag =>
      obtain ⟨n, _, rfl⟩ := exists_of_map h
      cases o with
      | connections => rfl
      | requestsPerConnection => exact absurd hflag harg
      | threads => rfl
  split at h
  · obtain ⟨n, _, rfl⟩ := exists_of_map h
    cases o <;> rfl
  split at h
  · next hflag =>
      obtain ⟨n, _, rfl⟩ := exists_of_map h
      cases o with
      | connections => rfl
      | requestsPerConnection => rfl
      | threads => exact absurd hflag harg
  · cases h

/-- When a number of the load client is at least 1. -/
theorem value_positive_iff (o : IntOption) (h : parseArgs args = .ok opts) :
    1 ≤ o.value opts ↔ GivenPositive (lastValue o.flag args) := by
  have hdefault : 1 ≤ o.value defaultOptions := by cases o <;> decide
  unfold parseArgs at h
  split at h
  · cases h
  · next hloop =>
      rw [parseLoop_eq] at hloop
      split at h
      · cases h
      · cases h
        obtain ⟨hgiven, hnone⟩ := optionLoop_field (IntOption.value · o)
          (fun value n => parseInt value.toList o.name 1 = .ok n)
          (fun _ _ _ => setOption_flag o) (fun _ _ _ _ => setOption_value o) hloop
        exact givenPositive_iff hgiven hnone hdefault

/-- When there is a thread to create. -/
theorem threadCount_positive_iff (h : parseArgs args = .ok opts) :
    1 ≤ threadCount opts ↔ GivenPositive (lastValue "--connections" args) ∧
      GivenPositive (lastValue "--threads" args) := by
  have hmin : 1 ≤ threadCount opts ↔ 1 ≤ opts.connections ∧ 1 ≤ opts.threads := by
    rw [threadCount]
    split
    · omega
    · omega
  exact hmin.trans
    ((value_positive_iff .connections h).and (value_positive_iff .threads h))

/-- `connections / threads` is then defined. -/
theorem not_divides_by_zero (h : parseArgs args = .ok opts)
    (hint : IsInt (opts.connections * opts.requestsPerConnection))
    (hconnections : GivenPositive (lastValue "--connections" args))
    (hthreads : GivenPositive (lastValue "--threads" args)) {s : State}
    (hs : (system machine opts).Reachable s) : s.pc ≠ .undefined .divideByZero := by
  have hpos := (threadCount_positive_iff h).mpr ⟨hconnections, hthreads⟩
  rw [threadCount_eq] at hpos
  intro hpc
  obtain ⟨_, hzero⟩ := (divides_by_zero_iff (parseArgs_valid h) hint).mp ⟨s, hs, hpc⟩
  omega

end LoadClient

/-- What the adjustment to the descriptor limit makes of `max_clients` is at least 1. -/
theorem PollServer.adjusted_positive {args : List String} {opts : ServerOptions}
    {rlimCur : Nat} {adjusted : Int} (h : parseArgs args = .ok opts)
    (hgiven : GivenPositive (lastValue "--max-clients" args))
    (hstart : startUp opts.number rlimCur = .ok adjusted) : 1 ≤ adjusted := by
  obtain ⟨hparsed, hnone⟩ := ServerCommand.number_parsed (by decide) h
  have hpos : 1 ≤ opts.number := (givenPositive_iff hparsed hnone (by decide)).mpr hgiven
  have hmax : opts.number ≤ intMax := by
    unfold intMax
    cases hlast : lastValue "--max-clients" args with
    | none =>
        rw [hnone hlast]
        decide
    | some value =>
        obtain ⟨_, hlt⟩ := LoadClient.parseInt_isInt (hparsed value hlast)
        omega
  exact (startUp_ok hpos hmax hstart).2.1

/-! ## `parse_int` -/

/-- `parse_int` returns the number that is written, from the minimum on, unless that is
`2 ^ 31` or more.  In the programs, which call it with 1 as the minimum, a number is at
least 1 unless its last value is `2 ^ 63` or more, or is below and becomes zero or
negative in 32 bits.  Where it is, the load client, if its product is an `int`, does not
divide by zero, and `poll_server` is left with at least one client. -/
theorem parseInt_as_written (text : List Char) (name : String) (minValue : Int32)
    (args : List String) :
    ((∀ n, parseInt text name minValue.toInt = .ok n →
        ∃ m : Numeral, m.text = text ∧ m.value = n ∧ minValue.toInt ≤ n) ↔
      ∀ m : Numeral, m.text = text → m.value < 2 ^ 31) ∧
    (∀ opts, LoadClient.parseArgs args = .ok opts →
      (1 ≤ opts.connections ↔ GivenPositive (lastValue "--connections" args)) ∧
      (1 ≤ opts.requestsPerConnection ↔
        GivenPositive (lastValue "--requests-per-connection" args)) ∧
      (1 ≤ opts.threads ↔ GivenPositive (lastValue "--threads" args)) ∧
      (1 ≤ LoadClient.threadCount opts ↔
        GivenPositive (lastValue "--connections" args) ∧
          GivenPositive (lastValue "--threads" args)) ∧
      (GivenPositive (lastValue "--connections" args) →
        GivenPositive (lastValue "--threads" args) →
        LoadClient.IsInt (opts.connections * opts.requestsPerConnection) →
        ∀ s, (LoadClient.system LoadClient.machine opts).Reachable s →
          s.pc ≠ .undefined .divideByZero)) ∧
    (∀ opts, PollServer.parseArgs args = .ok opts →
      (1 ≤ opts.number ↔ GivenPositive (lastValue "--max-clients" args)) ∧
      (GivenPositive (lastValue "--max-clients" args) → ∀ rlimCur adjusted,
        PollServer.startUp opts.number rlimCur = .ok adjusted → 1 ≤ adjusted)) ∧
    (∀ opts, EpollServer.parseArgs args = .ok opts →
      (1 ≤ opts.number ↔ GivenPositive (lastValue "--max-clients" args))) ∧
    ∀ opts, ThreadpoolServer.parseArgs args = .ok opts →
      (1 ≤ opts.number ↔ GivenPositive (lastValue "--threads" args)) := by
  refine ⟨parseInt_as_written_iff text name minValue, ?_, ?_, ?_, ?_⟩
  · intro opts h
    exact ⟨LoadClient.value_positive_iff .connections h,
      LoadClient.value_positive_iff .requestsPerConnection h,
      LoadClient.value_positive_iff .threads h, LoadClient.threadCount_positive_iff h,
      fun hconnections hthreads hint _ =>
        LoadClient.not_divides_by_zero h hint hconnections hthreads⟩
  · exact fun opts h => ⟨ServerCommand.number_positive_iff (by decide) (by decide) h,
      fun hgiven _ _ => PollServer.adjusted_positive h hgiven⟩
  · exact fun opts => ServerCommand.number_positive_iff (by decide) (by decide)
  · exact fun opts => ServerCommand.number_positive_iff (by decide) (by decide)

/-- `2 ^ 32` is no number of threads below 1, but becomes 0. -/
theorem parseInt_not_as_written :
    parseInt "4294967296".toList "threads" 1 = .ok 0 ∧
    (¬ ∃ m : Numeral, m.text = "4294967296".toList ∧ m.value = 0) ∧
    (∃ opts, LoadClient.parseArgs ["--port", "9000", "--threads", "4294967296"] = .ok opts ∧
      opts.threads = 0) ∧
    ∃ opts, EpollServer.parseArgs ["--port", "9000", "--max-clients", "4294967296"] = .ok opts ∧
      opts.number = 0 := by
  refine ⟨rfl, ?_, ⟨_, rfl, rfl⟩, ⟨_, rfl, rfl⟩⟩
  rintro ⟨m, htext, hvalue⟩
  have hscan : scan m.text = some (.none, "4294967296".toList, []) := by
    rw [htext]
    rfl
  rw [value_of_scan hscan] at hvalue
  exact absurd hvalue (by decide)

end SysLab.PartB
