import SysLab.PartB.Syscall

/-!
# The event-driven servers, one call at a time

What a run of `poll_server` or `epoll_server` does to its connections is a
sequence of `Action`s: a client is accepted, `read` or `write` is called on a
ready connection, a broken connection is closed.

`LooksAlike` collects what a relation on traces needs so that two servers whose
traces it relates go on alike: equality is one such relation, "equal but for
failed calls" another.
-/

namespace SysLab.PartB

open SysLab.Foundation
open SysLab.Foundation.Transcript

/-- What a server does next to its connections.  `α` is what the kernel answers
to `accept` and, where there is one, to the registration. -/
inductive Action (α : Type)
  | accepted (res : α)
  | read (i : Nat) (rd : Except Errno (List UInt8))
  | write (i : Nat) (wr : Except Errno Nat)
  | broken (i : Nat)

/-- Traces related by `R` stay related under the same call, and a kernel that kept
its promises in one kept them in the other. -/
structure LooksAlike (base : Finset Int) (R : Trace → Trace → Prop) : Prop where
  cons : ∀ c h h', R h h' → R (c :: h) (c :: h')
  kernelOk : ∀ h h', R h h' → KernelOk base h → KernelOk base h'

theorem looksAlike_eq (base : Finset Int) : LooksAlike base Eq where
  cons c _ _ heq := congrArg (c :: ·) heq
  kernelOk _ _ heq hk := heq ▸ hk

/-- No promise is made about a call that fails. -/
theorem kernelCall_failed {base : Finset Int} {c : Syscall} (hc : c.failed = true)
    (h : Trace) : KernelCall base c h := by
  cases c with
  | accept fd => cases hc
  | read fd asked res =>
      rcases res with e | bytes
      · trivial
      · cases hc
  | write fd chunk res =>
      rcases res with e | n
      · trivial
      · cases hc
  | close fd => cases hc

/-- Nor does such a call change what is promised of the others. -/
theorem kernelCall_settled {base : Finset Int} (c : Syscall) (h : Trace) :
    KernelCall base c (settled h) ↔ KernelCall base c h := by
  cases c with
  | accept fd => simp only [KernelCall, openKeys_settled]
  | read fd asked res => exact Iff.rfl
  | write fd chunk res => exact Iff.rfl
  | close fd => exact Iff.rfl

theorem kernelOk_settled {base : Finset Int} (h : Trace) :
    KernelOk base (settled h) ↔ KernelOk base h := by
  induction h with
  | nil => exact Iff.rfl
  | cons c h ih =>
      cases hc : c.failed with
      | true =>
          rw [settled_cons_failed hc, ih]
          exact ⟨fun hk => ⟨kernelCall_failed hc h, hk⟩, And.right⟩
      | false =>
          rw [settled_cons hc]
          exact and_congr (kernelCall_settled c h) ih

/-- Failed reads and writes are overlooked. -/
theorem looksAlike_settled (base : Finset Int) :
    LooksAlike base fun h h' => settled h = settled h' where
  cons c _ _ heq := settled_cons_congr c heq
  kernelOk h h' heq hk := by
    rw [← kernelOk_settled h', ← heq, kernelOk_settled]
    exact hk

end SysLab.PartB
