import Mathlib.Data.Fintype.EquivFin
import SysLab.Foundation.Transcript

/-!
# System calls as the Part B programs see them

Error numbers, the result conventions of `read`, `write` and `accept`, and the
two helpers of `common.c` that every server's start-up and accept loop runs
through: `die_errno` and `set_nonblocking`.

A result is `Except Errno _`: a C return value `-1` is an error, `read`
returning `0` is `.ok []` and `write` returning `0` is `.ok 0`.
-/

namespace SysLab.PartB

open SysLab.Foundation

/-- The error numbers the sources, or the kernel behaviour they meet, name. -/
inductive Errno
  | EAGAIN
  | EWOULDBLOCK
  | EINTR
  | ECONNABORTED
  | EMFILE
  | EBADF
  | ENOENT
  | EEXIST
  | EBUSY
  | ENOMEM
  | other (code : Nat)
  deriving DecidableEq, Repr

/-- `errno == EAGAIN || errno == EWOULDBLOCK`. -/
def Errno.wouldBlock (e : Errno) : Bool := e = .EAGAIN || e = .EWOULDBLOCK

/-- The process ended in `die_errno(message)`, `perror` showing `errno`. -/
structure Exit where
  message : String
  errno : Errno
  deriving DecidableEq, Repr

/-- Calls on descriptors, as the servers make them. -/
abbrev Syscall := Call Int Errno UInt8

/-- The calls a server has made, newest first. -/
abbrev Trace := Transcript Int Errno UInt8

/-- `sizeof(buffer)` of every `connection_t`. -/
abbrev bufferSize : Nat := 4096

/-- What the kernel promises of one call: `accept` hands out a non-negative
number that is not in use, and no call moves more than it was asked to. -/
def KernelCall (base : Finset Int) : Syscall → Trace → Prop
  | .accept fd, h => 0 ≤ fd ∧ fd ∉ Transcript.openKeys base h
  | .read fd asked res, _ => (Call.read fd asked res : Syscall).Sane
  | .write fd chunk res, _ => (Call.write fd chunk res : Syscall).Sane
  | .close _, _ => True

instance (base : Finset Int) :
    (c : Syscall) → (h : Trace) → Decidable (KernelCall base c h)
  | .accept fd, h =>
      inferInstanceAs (Decidable (0 ≤ fd ∧ fd ∉ Transcript.openKeys base h))
  | .read fd asked res, _ =>
      inferInstanceAs (Decidable (Call.read fd asked res : Syscall).Sane)
  | .write fd chunk res, _ =>
      inferInstanceAs (Decidable (Call.write fd chunk res : Syscall).Sane)
  | .close _, _ => isTrue trivial

/-- The kernel kept its promises along the whole trace; the descriptors in
`base` were open before it. -/
def KernelOk (base : Finset Int) : Trace → Prop :=
  Transcript.Always (KernelCall base)

instance (base : Finset Int) (h : Trace) : Decidable (KernelOk base h) :=
  inferInstanceAs (Decidable (Transcript.Always (KernelCall base) h))

/-- There is always a descriptor to hand out. -/
theorem exists_fd (used : Finset Int) : ∃ fd : Nat, (fd : Int) ∉ used := by
  obtain ⟨fd, hfd⟩ := Infinite.exists_notMem_finset (used.image Int.toNat)
  exact ⟨fd, fun hmem => hfd (Finset.mem_image.mpr ⟨fd, hmem, rfl⟩)⟩

/-- `fcntl` with `F_GETFL` or `F_SETFL`: on an open descriptor it succeeds, on
any other number it is `EBADF`. -/
def fcntl (openFds : Finset Int) (fd : Int) : Option Errno :=
  if fd ∈ openFds then none else some .EBADF

/-- `set_nonblocking`: the exit it takes, if any. -/
def setNonblocking (openFds : Finset Int) (fd : Int) : Option Exit :=
  match fcntl openFds fd with
  | some e => some ⟨"fcntl(F_GETFL)", e⟩
  | none =>
      match fcntl openFds fd with
      | some e => some ⟨"fcntl(F_SETFL)", e⟩
      | none => none

/-- On an open descriptor `set_nonblocking` returns. -/
theorem setNonblocking_of_mem {openFds : Finset Int} {fd : Int}
    (h : fd ∈ openFds) : setNonblocking openFds fd = none := by
  simp [setNonblocking, fcntl, h]

end SysLab.PartB
