import SysLab.PartB.LoadRun

/-!
# When the load client computes with `int` safely

`main` takes the product of two options, and multiplies that by 99, as `int`s; and
`parse_int`, which compares a `long` with the minimum, may return any `int`.
-/

namespace SysLab.PartB.LoadClient

open SysLab.Foundation

/-- No computation has overflowed, and no element of `latencies` outside the array has
been taken. -/
def State.Safe (s : State) : Prop :=
  s.pc ≠ .undefined .overflow ∧ s.pc ≠ .undefined .outOfBounds

variable {opts : Options} {s : State}

theorem threadCount_eq (opts : Options) :
    threadCount opts = min opts.connections opts.threads := by
  rw [threadCount]
  split <;> omega

theorem machine_int {z : Int} (h : IsInt z) : machine.int z = some z := if_pos h

/-! ## No work -/

/-- A process that has ended makes no step. -/
theorem step_ended (a : Arithmetic) (h : s.running = false) (e : Event) :
    step a opts s e = none := by
  unfold State.running at h
  have hworker : ∀ i f, s.withWorker i f = none := by
    intro i f
    rw [State.withWorker, State.running, h]
    rfl
  cases e with
  | allocate ok =>
      refine if_neg fun hpc => ?_
      rw [hpc] at h
      cases h
  | create ok =>
      unfold step create
      dsimp only
      split
      · next hpc =>
          rw [hpc] at h
          cases h
      · rfl
  | join =>
      unfold step join
      dsimp only
      split
      · next hpc =>
          rw [hpc] at h
          cases h
      · rfl
  | report =>
      unfold step report
      dsimp only
      split
      · next hpc =>
          rw [hpc] at h
          cases h
      · rfl
  | connect i res => exact hworker i _
  | write i res => exact hworker i _
  | read i res latency => exact hworker i _
  | next i => exact hworker i _

/-- Before the arrays are allocated there is no other step. -/
theorem step_start (a : Arithmetic) (hpc : s.pc = .start) (hworkers : s.workers = [])
    {e : Event} {t : State} (hstep : step a opts s e = some t) :
    ∃ ok, allocate a opts ok s = some t := by
  have hworker : ∀ i f, s.withWorker i f ≠ some t := by
    intro i f h
    rw [State.withWorker, hworkers] at h
    split at h <;> cases h
  cases e with
  | allocate ok => exact ⟨ok, by rwa [step, if_pos hpc] at hstep⟩
  | create ok =>
      rw [step, create, hpc] at hstep
      cases hstep
  | join =>
      rw [step, join, hpc] at hstep
      cases hstep
  | report =>
      rw [step, report, hpc] at hstep
      cases hstep
  | connect i res => exact absurd hstep (hworker i _)
  | write i res => exact absurd hstep (hworker i _)
  | read i res latency => exact absurd hstep (hworker i _)
  | next i => exact absurd hstep (hworker i _)

/-- `main` has not got past `calloc` and the division by the number of threads. -/
def State.Idle (opts : Options) (s : State) : Prop :=
  s.pc = .start ∧ s.workers = [] ∨ (∃ message, s.pc = .exited message) ∨
    s.pc = .undefined .divideByZero ∧
      0 ≤ opts.connections * opts.requestsPerConnection ∧
      min opts.connections opts.threads = 0

/-- Without requests or threads to make, the process ends in `calloc`, or divides by
zero. -/
theorem reachable_idle (hvalid : opts.Valid)
    (hint : IsInt (opts.connections * opts.requestsPerConnection))
    (hidle : opts.connections * opts.requestsPerConnection < 0 ∨
      min opts.connections opts.threads ≤ 0)
    (hs : (system machine opts).Reachable s) : s.Idle opts := by
  have hinit : ∀ s, (system machine opts).init s → s.Idle opts := by
    rintro _ rfl
    exact .inl ⟨rfl, rfl⟩
  refine hs.induct hinit ?_
  intro s e t _ hpc hstep
  rcases hpc with ⟨hpc, hworkers⟩ | hended
  · obtain ⟨ok, hallocate⟩ := step_start machine hpc hworkers hstep
    unfold allocate at hallocate
    rw [machine_int hint] at hallocate
    dsimp only at hallocate
    split at hallocate
    · split at hallocate
      · next hrooms =>
          have hnonneg : 0 ≤ opts.connections * opts.requestsPerConnection ∧
              0 ≤ min opts.connections opts.threads := by
            obtain ⟨hlatencies, htids, _⟩ := hrooms
            obtain ⟨hlower, _⟩ := hint
            obtain ⟨hconnections, _⟩ := hvalid.connections
            obtain ⟨hthreads, _⟩ := hvalid.threads
            rw [threadCount_eq] at htids
            simp only [machine, sizeofLatency, sizeofPthread, decide_eq_true_eq]
              at hlatencies htids
            omega
          have hzero : threadCount opts = 0 := by
            rw [threadCount_eq]
            omega
          rw [if_pos hzero] at hallocate
          cases hallocate
          exact .inr (.inr ⟨rfl, hnonneg.1, (threadCount_eq opts).symm.trans hzero⟩)
      · cases hallocate
    · cases hallocate
      exact .inr (.inl ⟨_, rfl⟩)
  · have hrunning : s.running = false := by
      unfold State.running
      rcases hended with ⟨message, hpc⟩ | ⟨hpc, _⟩
      · rw [hpc]
      · rw [hpc]
    have hnone : step machine opts s e = some t := hstep
    rw [step_ended machine hrunning] at hnone
    cases hnone

/-! ## Work -/

theorem sized_machine (hvalid : opts.Valid)
    (hint : IsInt (opts.connections * opts.requestsPerConnection))
    (hnonneg : 0 ≤ opts.connections * opts.requestsPerConnection)
    (hpos : 0 < min opts.connections opts.threads) :
    ∃ C R n : Nat, Sized machine opts C R n ∧
      opts.connections * opts.requestsPerConnection = (C * R : Nat) := by
  have hC : 0 < opts.connections := by omega
  have hR : 0 ≤ opts.requestsPerConnection := Int.nonneg_of_mul_nonneg_right hnonneg hC
  obtain ⟨C, hconnections⟩ := Int.eq_ofNat_of_zero_le (Int.le_of_lt hC)
  obtain ⟨R, hrequests⟩ := Int.eq_ofNat_of_zero_le hR
  obtain ⟨n, hthreads⟩ := Int.eq_ofNat_of_zero_le (Int.le_of_lt hpos)
  have htotal : opts.connections * opts.requestsPerConnection = (C * R : Nat) := by
    rw [hconnections, hrequests]
    exact_mod_cast rfl
  refine ⟨C, R, n, ?_, htotal⟩
  obtain ⟨_, hconnections_lt⟩ := hvalid.connections
  obtain ⟨_, htotal_lt⟩ := hint
  exact {
    connections := hconnections
    requests := hrequests
    threads := (threadCount_eq opts).trans hthreads
    pos := by omega
    le := by omega
    payload := hvalid.payloadSize
    sound := fun z z' h => by
      unfold machine at h
      dsimp only at h
      split at h
      · exact (Option.some.inj h).symm
      · cases h
    int_connections := fun z hz hle => machine_int ⟨by omega, by omega⟩
    int_requests := fun z hz hle => machine_int ⟨by omega, by
      have hle' : z ≤ (C * R : Nat) := by exact_mod_cast hle
      omega⟩ }

theorem machine_allocates {count : Int} (hnonneg : 0 ≤ count) (h : IsInt count) {size : Nat}
    (hsize : size ≤ 56) : machine.allocates count size = true := by
  obtain ⟨_, hlt⟩ := h
  have hmod : count % 2 ^ 64 = count := by omega
  have hmul : count * size ≤ count * 56 :=
    Int.mul_le_mul_of_nonneg_left (by exact_mod_cast hsize) hnonneg
  show decide (count % 2 ^ 64 * size < 2 ^ 64) = true
  rw [hmod, decide_eq_true_eq]
  omega

/-- `main` divides by zero if `parse_int` has returned 0 for the threads or the
connections. -/
theorem divides_by_zero_iff (hvalid : opts.Valid)
    (hint : IsInt (opts.connections * opts.requestsPerConnection)) :
    (∃ s, (system machine opts).Reachable s ∧ s.pc = .undefined .divideByZero) ↔
      0 ≤ opts.connections * opts.requestsPerConnection ∧
        min opts.connections opts.threads = 0 := by
  constructor
  · rintro ⟨s, hs, hpc⟩
    by_cases hidle : opts.connections * opts.requestsPerConnection < 0 ∨
        min opts.connections opts.threads ≤ 0
    · rcases reachable_idle hvalid hint hidle hs with ⟨hstart, _⟩ | ⟨message, hexited⟩ |
        ⟨_, hzero⟩
      · rw [hpc] at hstart
        cases hstart
      · rw [hpc] at hexited
        cases hexited
      · exact hzero
    · obtain ⟨C, R, n, hsized, _⟩ :=
        sized_machine hvalid hint (by omega) (by omega)
      exact absurd rfl ((reachable_inv hsized hs).undefined hpc).1
  · rintro ⟨hnonneg, hzero⟩
    have hthreads : threadCount opts = 0 := (threadCount_eq opts).trans hzero
    have hallocate : allocate machine opts true initialState =
        some (initialState.goto (.undefined .divideByZero)) := by
      have hrooms := machine_allocates hnonneg hint (by decide : sizeofLatency ≤ 56)
      rw [allocate, machine_int hint, hthreads]
      dsimp only
      rw [if_pos rfl, if_pos ⟨hrooms, rfl, rfl⟩, if_pos rfl]
    have hstart : (system machine opts).Reachable initialState := .start rfl
    exact ⟨_, hstart.step (e := Event.allocate true) hallocate, rfl⟩

/-- With no requests, or too many, a run to the end is not safe. -/
theorem exists_not_safe (hvalid : opts.Valid)
    (hint : IsInt (opts.connections * opts.requestsPerConnection))
    (hpos : 0 < min opts.connections opts.threads)
    (htotal : opts.connections * opts.requestsPerConnection = 0 ∨
      21691754 < opts.connections * opts.requestsPerConnection) :
    ∃ s, (system machine opts).Reachable s ∧ ¬ s.Safe := by
  obtain ⟨C, R, n, hsized, hproduct⟩ := sized_machine hvalid hint (by omega) hpos
  have hthreads : IsInt (n : Int) := by
    rw [← hsized.threads, threadCount_eq]
    obtain ⟨_, hlt⟩ := hvalid.connections
    exact ⟨by omega, by omega⟩
  obtain ⟨t, totalBytes, ht, hpc⟩ := exists_run hsized
    (machine_allocates (Int.natCast_nonneg _) (hproduct ▸ hint) (by decide))
    (machine_allocates (Int.natCast_nonneg _) hthreads (by decide))
    (machine_allocates (Int.natCast_nonneg _) hthreads (by decide))
  obtain ⟨_, _, _, hlocals, hlatencies⟩ := (reachable_inv hsized ht).joined hpc
  have htotal' : t.locals.totalRequests = opts.connections * opts.requestsPerConnection := by
    rw [hlocals, hproduct]
  rcases htotal with hzero | hmany
  · have hreport : report machine t = some (t.goto (.undefined .outOfBounds)) := by
      have hlength : t.latencies.length = 0 := by omega
      rw [report, hpc]
      dsimp only
      rw [htotal', hzero, machine_int (by decide), hlength]
      rfl
    exact ⟨_, ht.step (e := Event.report) hreport, fun hsafe => hsafe.2 rfl⟩
  · have hreport : report machine t = some (t.goto (.undefined .overflow)) := by
      have hnone : machine.int
          (opts.connections * opts.requestsPerConnection * 99) = none := by
        refine if_neg fun hfits => ?_
        obtain ⟨_, hlt⟩ := hfits
        omega
      rw [report, hpc]
      dsimp only
      rw [htotal', hnone]
    exact ⟨_, ht.step (e := Event.report) hreport, fun hsafe => hsafe.1 rfl⟩

/-- The load client is safe exactly if the product of the connections and the requests
fits in an `int`, and it has nothing to do or at most 21691754 requests.  From the
next number on 99 times the requests do not fit; without requests there is no P99. -/
theorem arithmetic_safe_iff {args : List String} (h : parseArgs args = .ok opts) :
    (∀ s, (system machine opts).Reachable s → s.Safe) ↔
      IsInt (opts.connections * opts.requestsPerConnection) ∧
        (opts.connections * opts.requestsPerConnection < 0 ∨
          min opts.connections opts.threads ≤ 0 ∨
          0 < opts.connections * opts.requestsPerConnection ∧
            opts.connections * opts.requestsPerConnection ≤ 21691754) := by
  have hvalid := parseArgs_valid h
  constructor
  · intro hsafe
    have hint : IsInt (opts.connections * opts.requestsPerConnection) := by
      by_contra hnot
      have hallocate : allocate machine opts false initialState =
          some (initialState.goto (.undefined .overflow)) := by
        have hnone : machine.int (opts.connections * opts.requestsPerConnection) = none :=
          if_neg hnot
        rw [allocate, hnone]
      have hstart : (system machine opts).Reachable initialState := .start rfl
      exact (hsafe _ (hstart.step (e := Event.allocate false) hallocate)).1 rfl
    refine ⟨hint, ?_⟩
    by_contra hmuch
    obtain ⟨s, hs, hnot⟩ := exists_not_safe hvalid hint (by omega) (by omega)
    exact hnot (hsafe s hs)
  · rintro ⟨hint, hfew⟩ s hs
    by_cases hidle : opts.connections * opts.requestsPerConnection < 0 ∨
        min opts.connections opts.threads ≤ 0
    · have hpc := reachable_idle hvalid hint hidle hs
      constructor
      · intro heq
        rcases hpc with ⟨hpc, _⟩ | ⟨message, hpc⟩ | ⟨hpc, _⟩ <;> rw [hpc] at heq <;>
          cases heq
      · intro heq
        rcases hpc with ⟨hpc, _⟩ | ⟨message, hpc⟩ | ⟨hpc, _⟩ <;> rw [hpc] at heq <;>
          cases heq
    · have hnonneg : 0 ≤ opts.connections * opts.requestsPerConnection := by omega
      have hpos : 0 < min opts.connections opts.threads := by omega
      obtain ⟨C, R, n, hsized, htotal⟩ := sized_machine hvalid hint hnonneg hpos
      have hsome : machine.int ((C * R : Nat) * 99) = some ((C * R : Nat) * 99) :=
        machine_int ⟨by omega, by omega⟩
      have hnever : ∀ why, s.pc ≠ .undefined why := by
        intro why hpc
        rcases ((reachable_inv hsized hs).undefined hpc).2 with hnone | hzero
        · rw [hsome] at hnone
          cases hnone
        · omega
      exact ⟨hnever _, hnever _⟩

/-- The default options are safe. -/
theorem arithmetic_safe_default :
    parseArgs ["--port", "9000"] = .ok { defaultOptions with port := 9000 } ∧
      ∀ s, (system machine { defaultOptions with port := 9000 }).Reachable s → s.Safe := by
  have h : parseArgs ["--port", "9000"] = .ok { defaultOptions with port := 9000 } := rfl
  exact ⟨h, (arithmetic_safe_iff h).mpr ⟨by decide, .inr (.inr (by decide))⟩⟩

/-- A million requests on each of 32 connections are not. -/
theorem arithmetic_not_safe :
    ∃ opts, parseArgs ["--port", "9000", "--connections", "32",
        "--requests-per-connection", "1000000", "--threads", "4"] = .ok opts ∧
      ∃ s, (system machine opts).Reachable s ∧ ¬ s.Safe := by
  have h : parseArgs ["--port", "9000", "--connections", "32",
      "--requests-per-connection", "1000000", "--threads", "4"] =
        .ok ⟨"127.0.0.1", 9000, 32, 1000000, 1024, 4⟩ := rfl
  exact ⟨_, h, exists_not_safe (parseArgs_valid h) (by decide) (by decide)
    (.inr (by decide))⟩

end SysLab.PartB.LoadClient
