import Mathlib.Data.List.Nodup
import Mathlib.Logic.Function.Basic

/-!
# Singly linked lists on a heap

A heap maps addresses to nodes, a pointer is an address or null.
`Path next heap p as` says that following `next` from `p` visits the addresses
`as` and then ends in null.  A path does not notice what happens elsewhere on the
heap (`Path.congr`), and may be extended at its last node (`Path.snoc`).
-/

namespace SysLab.Foundation

variable {α : Type*} {ν : Type*}

/-- From `p` the heap leads through the addresses `as` to null. -/
def Path (next : ν → Option α) (heap : α → Option ν) : Option α → List α → Prop
  | p, [] => p = none
  | p, a :: as => p = some a ∧ ∃ node, heap a = some node ∧ Path next heap (next node) as

namespace Path

variable {next : ν → Option α} {heap heap' : α → Option ν} {p : Option α} {as : List α}

/-- Every address on the way is allocated. -/
theorem allocated (h : Path next heap p as) {a : α} (ha : a ∈ as) :
    ∃ node, heap a = some node := by
  induction as generalizing p with
  | nil => cases ha
  | cons b as ih =>
      obtain ⟨_, node, hnode, hrest⟩ := h
      rcases List.mem_cons.mp ha with rfl | ha
      · exact ⟨node, hnode⟩
      · exact ih hrest ha

/-- A path goes by the nodes on it. -/
theorem congr (h : Path next heap p as) (hsame : ∀ a ∈ as, heap' a = heap a) :
    Path next heap' p as := by
  induction as generalizing p with
  | nil => exact h
  | cons a as ih =>
      obtain ⟨hp, node, hnode, hrest⟩ := h
      refine ⟨hp, node, ?_, ih hrest fun b hb => hsame b (List.mem_cons_of_mem a hb)⟩
      rw [hsame a List.mem_cons_self]
      exact hnode

theorem head_eq_none (h : Path next heap p as) : p = none ↔ as = [] := by
  cases as with
  | nil => exact ⟨fun _ => rfl, fun _ => h⟩
  | cons a as =>
      obtain ⟨rfl, _⟩ := h
      exact ⟨fun hnone => (by cases hnone), fun hnil => (by cases hnil)⟩

/-- There is one way to follow the pointers. -/
theorem unique {bs : List α} (h : Path next heap p as) (h' : Path next heap p bs) : bs = as := by
  induction as generalizing p bs with
  | nil => exact h'.head_eq_none.mp h
  | cons a as ih =>
      obtain ⟨rfl, node, hnode, hrest⟩ := h
      cases bs with
      | nil => cases h'
      | cons b bs =>
          obtain ⟨hb, node', hnode', hrest'⟩ := h'
          cases hb
          rw [hnode] at hnode'
          cases hnode'
          rw [ih hrest hrest']

/-- The last node is made to point to a node that ends a list. -/
theorem snoc [DecidableEq α] (h : Path next heap p as) (hnodup : as.Nodup) {t n : α}
    (hlast : as.getLast? = some t) {last new : ν} (hnew : heap n = some new)
    (hend : next new = none) (hfresh : n ∉ as) (hlink : next last = some n) :
    Path next (Function.update heap t (some last)) p (as ++ [n]) := by
  induction as generalizing p with
  | nil => cases hlast
  | cons a as ih =>
      obtain ⟨hp, node, hnode, hrest⟩ := h
      have hna : n ≠ a := fun heq => hfresh (heq ▸ List.mem_cons_self)
      cases as with
      | nil =>
          have hat : a = t := Option.some.inj hlast
          subst hat
          refine ⟨hp, last, Function.update_self _ _ _, ?_⟩
          rw [hlink]
          refine ⟨rfl, new, ?_, hend⟩
          rw [Function.update_of_ne hna]
          exact hnew
      | cons b as =>
          have hlast' : (b :: as).getLast? = some t := by
            rw [← hlast, List.getLast?_cons_cons]
          have ht : t ∈ b :: as := List.mem_of_getLast? hlast'
          have hat : a ≠ t := by
            rintro rfl
            exact (List.nodup_cons.mp hnodup).1 ht
          refine ⟨hp, node, ?_, ?_⟩
          · rw [Function.update_of_ne hat]
            exact hnode
          · exact ih hrest (List.nodup_cons.mp hnodup).2 hlast'
              fun hmem => hfresh (List.mem_cons_of_mem a hmem)

end Path

end SysLab.Foundation
