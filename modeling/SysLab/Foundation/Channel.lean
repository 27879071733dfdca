import Mathlib.Data.List.Basic

/-!
# Bounded channels

A first-in first-out buffer of at most `cap` items.  `push` appends a block if
there is room for all of it, `pop` takes a block off the front if there are
that many items; both say so by `Option`.
-/

namespace SysLab.Foundation

/-- At most `cap` items, oldest first. -/
structure Channel (α : Type*) (cap : Nat) where
  items : List α
  bounded : items.length ≤ cap

namespace Channel

variable {α : Type*} {cap : Nat}

def empty : Channel α cap := ⟨[], Nat.zero_le cap⟩

/-- The number of items inside. -/
def length (c : Channel α cap) : Nat := c.items.length

/-- Append a block. -/
def push (c : Channel α cap) (xs : List α) : Option (Channel α cap) :=
  if h : c.length + xs.length ≤ cap then
    some ⟨c.items ++ xs, by rw [List.length_append]; exact h⟩
  else none

/-- Take a block of `n` items off the front. -/
def pop (c : Channel α cap) (n : Nat) : Option (List α × Channel α cap) :=
  if n ≤ c.length then
    some (c.items.take n,
      ⟨c.items.drop n, by
        rw [List.length_drop]
        exact Nat.le_trans (Nat.sub_le _ _) c.bounded⟩)
  else none

/-- What a successful `push` leaves. -/
theorem push_some {c d : Channel α cap} {xs : List α} (h : c.push xs = some d) :
    c.length + xs.length ≤ cap ∧ d.items = c.items ++ xs := by
  unfold push at h
  split at h
  · rename_i hroom
    cases h
    exact ⟨hroom, rfl⟩
  · cases h

/-- What a successful `pop` returns and leaves: the items come out in order. -/
theorem pop_some {c d : Channel α cap} {n : Nat} {xs : List α}
    (h : c.pop n = some (xs, d)) :
    xs.length = n ∧ c.items = xs ++ d.items := by
  unfold pop at h
  split at h
  · rename_i hlen
    cases h
    exact ⟨List.length_take_of_le hlen, (List.take_append_drop n c.items).symm⟩
  · cases h

theorem length_push {c d : Channel α cap} {xs : List α} (h : c.push xs = some d) :
    d.length = c.length + xs.length := by
  rw [length, (push_some h).2, List.length_append, length]

theorem length_pop {c d : Channel α cap} {n : Nat} {xs : List α}
    (h : c.pop n = some (xs, d)) : c.length = n + d.length := by
  obtain ⟨hlen, hitems⟩ := pop_some h
  rw [length, hitems, List.length_append, hlen, length]

/-- With room `push` succeeds. -/
theorem exists_push {c : Channel α cap} {xs : List α}
    (h : c.length + xs.length ≤ cap) : ∃ d, c.push xs = some d :=
  ⟨_, dif_pos h⟩

/-- With enough items `pop` succeeds. -/
theorem exists_pop {c : Channel α cap} {n : Nat} (h : n ≤ c.length) :
    ∃ xs d, c.pop n = some (xs, d) :=
  ⟨_, _, if_pos h⟩

end Channel

end SysLab.Foundation
