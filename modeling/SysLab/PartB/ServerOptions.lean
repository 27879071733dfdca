import SysLab.Foundation.CommandLine
import SysLab.PartB.Options

/-!
# The command lines of the servers

The beginning of `main` in `poll_server.c`, `epoll_server.c` and
`threadpool_server.c`, up to the end of the process with a message.  Each server takes
a port and one number of its own; `io_uring_server.c` takes a port only.
-/

namespace SysLab.PartB

open SysLab.Foundation

/-- What the servers differ in: the option with a number, the name that `parse_int`
shows for it, the number without it, and what `usage` prints. -/
structure ServerCommand where
  flag : String
  name : String
  initial : Int
  usage : String

/-- What `main` reads from its arguments. -/
structure ServerOptions where
  port : Nat
  number : Int
  deriving DecidableEq, Repr

namespace ServerCommand

variable (command : ServerCommand)

/-- One argument with the one after it. -/
def setOption (opts : ServerOptions) (arg value : String) : Except String ServerOptions :=
  if arg = "--port" then
    (parsePort value.toList).map fun port => { opts with port := port }
  else if arg = command.flag then
    (parseInt value.toList command.name 1).map fun n => { opts with number := n }
  else .error command.usage

/-- `main` on `argv[1 .. argc)`, as far as `if (port == 0)`. -/
def parseArgs (args : List String) : Except String ServerOptions :=
  match optionLoop command.usage command.setOption args ⟨0, command.initial⟩ with
  | .error message => .error message
  | .ok opts => if opts.port = 0 then .error command.usage else .ok opts

end ServerCommand

namespace PollServer

/-- `number` is `max_clients`. -/
def command : ServerCommand where
  flag := "--max-clients"
  name := "max-clients"
  initial := 1024
  usage := "Usage: ./poll_server --port <port> [--max-clients <n>]\n"

def parseArgs : List String → Except String ServerOptions := command.parseArgs

end PollServer

namespace EpollServer

/-- `number` is `max_clients`. -/
def command : ServerCommand where
  flag := "--max-clients"
  name := "max-clients"
  initial := 1024
  usage := "Usage: ./epoll_server --port <port> [--max-clients <n>]\n"

def parseArgs : List String → Except String ServerOptions := command.parseArgs

end EpollServer

namespace ThreadpoolServer

/-- `number` is `thread_count`. -/
def command : ServerCommand where
  flag := "--threads"
  name := "threads"
  initial := 4
  usage := "Usage: ./threadpool_server --port <port> [--threads <n>]\n"

def parseArgs : List String → Except String ServerOptions := command.parseArgs

end ThreadpoolServer

namespace IoUringServer

def usage : String := "Usage: ./io_uring_server --port <port>\n"

/-- One argument with the one after it; the port is all there is to set. -/
def setOption (_port : Nat) (arg value : String) : Except String Nat :=
  if arg = "--port" then parsePort value.toList else .error usage

def parseArgs (args : List String) : Except String Nat :=
  match optionLoop usage setOption args 0 with
  | .error message => .error message
  | .ok port => if port = 0 then .error usage else .ok port

end IoUringServer

/-! ## The number -/

/-- The value of an option, if it is given, stays positive as an `int`. -/
def GivenPositive (text : Option String) : Prop :=
  ∀ value, text = some value → ∀ m : Numeral, m.text = value.toList → StaysPositive m.value

/-- A number that is at least 1 by default, or what `parse_int` makes of the value
given, with 1 as its minimum. -/
theorem givenPositive_iff {text : Option String} {name : String} {n initial : Int}
    (hgiven : ∀ value, text = some value → parseInt value.toList name 1 = .ok n)
    (hnone : text = none → n = initial) (hinitial : 1 ≤ initial) :
    1 ≤ n ↔ GivenPositive text := by
  cases text with
  | none =>
      rw [hnone rfl]
      constructor
      · intro _ value habsent
        cases habsent
      · exact fun _ => hinitial
  | some value =>
      rw [parseInt_positive_iff (hgiven value rfl)]
      constructor
      · rintro hpos _ ⟨⟩
        exact hpos
      · exact fun hpos => hpos value rfl

namespace ServerCommand

variable {command : ServerCommand} {args : List String} {opts opts' : ServerOptions}
  {arg value : String}

/-- Another option leaves the number as it is. -/
theorem setOption_number (harg : arg ≠ command.flag)
    (h : command.setOption opts arg value = .ok opts') : opts'.number = opts.number := by
  unfold setOption at h
  split at h
  · obtain ⟨port, _, rfl⟩ := exists_of_map h
    rfl
  · cases h

theorem setOption_flag (hflag : command.flag ≠ "--port")
    (h : command.setOption opts command.flag value = .ok opts') :
    parseInt value.toList command.name 1 = .ok opts'.number := by
  rw [setOption, if_neg hflag, if_pos rfl] at h
  obtain ⟨n, hn, rfl⟩ := exists_of_map h
  exact hn

/-- The number of a server is what its last value says. -/
theorem number_parsed (hflag : command.flag ≠ "--port")
    (h : command.parseArgs args = .ok opts) :
    (∀ value, lastValue command.flag args = some value →
        parseInt value.toList command.name 1 = .ok opts.number) ∧
      (lastValue command.flag args = none → opts.number = command.initial) := by
  unfold parseArgs at h
  split at h
  · cases h
  · next hloop =>
      split at h
      · cases h
      · cases h
        exact optionLoop_field ServerOptions.number
          (fun value n => parseInt value.toList command.name 1 = .ok n)
          (fun _ _ _ => setOption_flag hflag) (fun _ _ _ _ => setOption_number) hloop

/-- When it is at least 1. -/
theorem number_positive_iff (hflag : command.flag ≠ "--port") (hinitial : 1 ≤ command.initial)
    (h : command.parseArgs args = .ok opts) :
    1 ≤ opts.number ↔ GivenPositive (lastValue command.flag args) := by
  obtain ⟨hgiven, hnone⟩ := number_parsed hflag h
  exact givenPositive_iff hgiven hnone hinitial

end ServerCommand

end SysLab.PartB
