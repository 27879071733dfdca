import SysLab.PartB.Options

/-!
# The command line of the load client

The beginning of `main` in `load_client.c`, up to the end of the process with a
message.
-/

namespace SysLab.PartB.LoadClient

open SysLab.Foundation

/-- What `main` reads from its arguments. -/
structure Options where
  host : String
  port : Nat
  connections : Int
  requestsPerConnection : Int
  payloadSize : Nat
  threads : Int
  deriving DecidableEq, Repr

/-- The values before the loop. -/
def defaultOptions : Options where
  host := "127.0.0.1"
  port := 0
  connections := 32
  requestsPerConnection := 1000
  payloadSize := 1024
  threads := 4

/-- What `usage` prints. -/
def usage : String :=
  "Usage: ./load_client --host <ip> --port <port> [--connections <n>]\n" ++
  "                    [--requests-per-connection <n>] [--payload-size <bytes>]\n" ++
  "                    [--threads <n>]\n"

/-- One argument with the one after it. -/
def setOption (opts : Options) (arg value : String) : Except String Options :=
  if arg = "--host" then .ok { opts with host := value }
  else if arg = "--port" then
    (parsePort value.toList).map fun port => { opts with port := port }
  else if arg = "--connections" then
    (parseInt value.toList "connections" 1).map fun n => { opts with connections := n }
  else if arg = "--requests-per-connection" then
    (parseInt value.toList "requests-per-connection" 1).map fun n =>
      { opts with requestsPerConnection := n }
  else if arg = "--payload-size" then
    (parseSize value.toList "payload-size" 1).map fun n => { opts with payloadSize := n }
  else if arg = "--threads" then
    (parseInt value.toList "threads" 1).map fun n => { opts with threads := n }
  else .error usage

/-- The loop over `argv[1 .. argc)`. -/
def parseLoop : List String → Options → Except String Options
  | [], opts => .ok opts
  | [_], _ => .error usage
  | arg :: value :: rest, opts =>
      match setOption opts arg value with
      | .error message => .error message
      | .ok opts => parseLoop rest opts

/-- `main` on `argv[1 .. argc)`, as far as `if (port == 0)`. -/
def parseArgs (args : List String) : Except String Options :=
  match parseLoop args defaultOptions with
  | .error message => .error message
  | .ok opts => if opts.port = 0 then .error usage else .ok opts

/-! ## What it accepts -/

/-- A 32-bit `int`. -/
def IsInt (z : Int) : Prop := -2 ^ 31 ≤ z ∧ z < 2 ^ 31

instance (z : Int) : Decidable (IsInt z) := inferInstanceAs (Decidable (_ ∧ _))

/-- What the types of the variables say, and the minimum of the payload. -/
structure Options.Valid (opts : Options) : Prop where
  connections : IsInt opts.connections
  requestsPerConnection : IsInt opts.requestsPerConnection
  threads : IsInt opts.threads
  payloadSize : 0 < opts.payloadSize

theorem parseInt_isInt {text : List Char} {name : String} {minValue n : Int}
    (h : parseInt text name minValue = .ok n) : IsInt n := by
  unfold parseInt at h
  dsimp only at h
  split at h
  · cases h
  · cases h
    have hlower := Int.le_bmod (x := (strtol text).1) (m := 2 ^ 32) (by decide)
    have hupper := Int.bmod_lt (x := (strtol text).1) (m := 2 ^ 32) (by decide)
    constructor
    · omega
    · omega

theorem setOption_valid {opts opts' : Options} {arg value : String} (hvalid : opts.Valid)
    (h : setOption opts arg value = .ok opts') : opts'.Valid := by
  unfold setOption at h
  split at h
  · cases h
    exact { hvalid with }
  split at h
  · obtain ⟨port, _, rfl⟩ := exists_of_map h
    exact { hvalid with }
  split at h
  · obtain ⟨n, hn, rfl⟩ := exists_of_map h
    exact { hvalid with connections := parseInt_isInt hn }
  split at h
  · obtain ⟨n, hn, rfl⟩ := exists_of_map h
    exact { hvalid with requestsPerConnection := parseInt_isInt hn }
  split at h
  · obtain ⟨n, hn, rfl⟩ := exists_of_map h
    have hmin := ((parseSize_returns "payload-size" 1) value.toList n).mp hn
    exact { hvalid with payloadSize := hmin.2.2 }
  split at h
  · obtain ⟨n, hn, rfl⟩ := exists_of_map h
    exact { hvalid with threads := parseInt_isInt hn }
  · cases h

theorem parseLoop_valid {args : List String} {opts opts' : Options} (hvalid : opts.Valid)
    (h : parseLoop args opts = .ok opts') : opts'.Valid := by
  induction args, opts using parseLoop.induct with
  | case1 opts =>
      cases h
      exact hvalid
  | case2 arg opts => cases h
  | case3 arg value rest opts message hset =>
      rw [parseLoop, hset] at h
      cases h
  | case4 arg value rest opts next hset ih =>
      rw [parseLoop, hset] at h
      exact ih (setOption_valid hvalid hset) h

theorem parseArgs_valid {args : List String} {opts : Options}
    (h : parseArgs args = .ok opts) : opts.Valid := by
  have hdefault : defaultOptions.Valid :=
    ⟨by decide, by decide, by decide, by decide⟩
  unfold parseArgs at h
  split at h
  · cases h
  · next hloop =>
      split at h
      · cases h
      · cases h
        exact parseLoop_valid hdefault hloop

end SysLab.PartB.LoadClient
