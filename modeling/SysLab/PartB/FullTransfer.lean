import SysLab.PartB.Syscall

/-!
# `write_full` and `read_full`

The two loops of `common.c` that repeat a call until a whole buffer has been
moved.  They differ in the call only, so they are one loop, taken from one call
to the next.
-/

namespace SysLab.PartB

/-- Where such a loop stands: `done` bytes moved and another call to make, or
returned, `-1` being an error. -/
inductive Transfer
  | running (done : Nat)
  | returned (res : Except Errno Nat)

/-- The loop test, `done < length`. -/
def Transfer.resume (length done : Nat) : Transfer :=
  if done < length then .running done else .returned (.ok done)

/-- The loop body, for what the call answered. -/
def transferStep (length done : Nat) : Except Errno Nat → Transfer
  | .error e =>
      if e = .EINTR then .resume length done else .returned (.error e)
  | .ok 0 => .returned (.ok done)
  | .ok (n + 1) => .resume length (done + (n + 1))

/-- `write_full`, after the `write` of `length - done` bytes. -/
def writeFull (length done : Nat) (res : Except Errno Nat) : Transfer :=
  transferStep length done res

/-- `read_full`, after the `read` of `length - done` bytes. -/
def readFull (length done : Nat) (res : Except Errno (List UInt8)) : Transfer :=
  transferStep length done (res.map List.length)

/-- A call that moves bytes moves the loop on. -/
theorem transferStep_ok {length done n : Nat} (hn : 0 < n) :
    transferStep length done (.ok n) = .resume length (done + n) := by
  obtain ⟨m, rfl⟩ := Nat.exists_eq_succ_of_ne_zero hn.ne'
  rfl

/-- A loop that goes on has more to move. -/
theorem transferStep_running {length done done' : Nat} {res : Except Errno Nat}
    (h : transferStep length done res = .running done') : done' < length := by
  have hresume : ∀ d, Transfer.resume length d = .running done' → done' < length := by
    intro d hd
    unfold Transfer.resume at hd
    split at hd
    · cases hd
      assumption
    · cases hd
  rcases res with e | n
  · simp only [transferStep] at h
    split at h
    · exact hresume _ h
    · cases h
  · cases n with
    | zero => cases h
    | succ n => exact hresume _ h

end SysLab.PartB
