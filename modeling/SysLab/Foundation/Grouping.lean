import Mathlib.Data.List.Sort

/-!
# Grouping by a key

Items put into groups by a key, the groups in the order in which their keys are met
(`groups`), and the first of the best items of a list (`firstMax`).

* `grouped` — each key that occurs has one group, of its items in their order.
* `firstMax_spec` — the item that is chosen, with what is before and after it.
* `sorted_eq` — a strictly sorted list is determined by its members.
-/

namespace SysLab.Foundation.Grouping

variable {α : Type*} {κ : Type*} {ν : Type*}

/-- The item goes to the group of its key, a new one if there is none. -/
def put [DecidableEq κ] (key : α → κ) (x : α) : List (κ × List α) → List (κ × List α)
  | [] => [(key x, [x])]
  | (k, items) :: rest =>
      if k = key x then (k, items ++ [x]) :: rest else (k, items) :: put key x rest

/-- The groups of a list. -/
def groups [DecidableEq κ] (key : α → κ) (xs : List α) : List (κ × List α) :=
  xs.foldl (fun gs x => put key x gs) []

/-- The first item with the largest value, `best` being the best before. -/
def firstMax [LinearOrder ν] (value : α → ν) (best : α) : List α → α
  | [] => best
  | x :: xs => firstMax value (if value best < value x then x else best) xs

/-! ## Groups -/

section Groups

variable [DecidableEq κ] {key : α → κ} {xs : List α} {gs : List (κ × List α)}

theorem mem_keys_put {x : α} {k : κ} :
    k ∈ (put key x gs).map Prod.fst ↔ k = key x ∨ k ∈ gs.map Prod.fst := by
  induction gs with
  | nil => simp [put]
  | cons g gs ih =>
      obtain ⟨k', items⟩ := g
      unfold put
      split
      · next heq => simp [heq]
      · simp only [List.map_cons, List.mem_cons, ih]
        tauto

/-- The groups of a list of items. -/
structure Grouped (key : α → κ) (xs : List α) (gs : List (κ × List α)) : Prop where
  nodup : (gs.map Prod.fst).Nodup
  keys : ∀ k, k ∈ gs.map Prod.fst ↔ ∃ x ∈ xs, key x = k
  items : ∀ g ∈ gs, g.2 = xs.filter fun x => key x = g.1

theorem nodup_put {x : α} (h : (gs.map Prod.fst).Nodup) :
    ((put key x gs).map Prod.fst).Nodup := by
  induction gs with
  | nil => simp [put]
  | cons g gs ih =>
      obtain ⟨k, items⟩ := g
      obtain ⟨hnot, hrest⟩ := List.nodup_cons.mp h
      unfold put
      split
      · exact h
      · next hne =>
          refine List.nodup_cons.mpr ⟨fun hmem => ?_, ih hrest⟩
          rcases mem_keys_put.mp hmem with heq | hold
          · exact hne heq
          · exact hnot hold

/-- What is in a group after the item has been put. -/
theorem items_put {x : α} (hnodup : (gs.map Prod.fst).Nodup) {g : κ × List α}
    (hg : g ∈ put key x gs) :
    (∃ items, (g.1, items) ∈ gs ∧ g.2 = items ++ if key x = g.1 then [x] else []) ∨
      g.1 ∉ gs.map Prod.fst ∧ g = (key x, [x]) := by
  induction gs with
  | nil =>
      rw [put, List.mem_singleton] at hg
      exact .inr ⟨List.not_mem_nil, hg⟩
  | cons g' gs ih =>
      obtain ⟨k, items⟩ := g'
      obtain ⟨hnot, hrest⟩ := List.nodup_cons.mp hnodup
      unfold put at hg
      split at hg
      · next heq =>
          rcases List.mem_cons.mp hg with rfl | hmem
          · exact .inl ⟨items, List.mem_cons_self, by rw [if_pos heq.symm]⟩
          · refine .inl ⟨g.2, List.mem_cons_of_mem _ hmem, ?_⟩
            have hne : key x ≠ g.1 := by
              intro hkey
              rw [heq, hkey] at hnot
              exact hnot (List.mem_map.mpr ⟨g, hmem, rfl⟩)
            rw [if_neg hne, List.append_nil]
      · next hne =>
          rcases List.mem_cons.mp hg with rfl | hmem
          · refine .inl ⟨items, List.mem_cons_self, ?_⟩
            rw [if_neg (Ne.symm hne), List.append_nil]
          · rcases ih hrest hmem with ⟨items', hmem', heq⟩ | ⟨hnew, rfl⟩
            · exact .inl ⟨items', List.mem_cons_of_mem _ hmem', heq⟩
            · refine .inr ⟨fun hin => ?_, rfl⟩
              rcases List.mem_cons.mp hin with heq | hin
              · exact hne heq.symm
              · exact hnew hin

theorem Grouped.put (h : Grouped key xs gs) (x : α) :
    Grouped key (xs ++ [x]) (put key x gs) where
  nodup := nodup_put h.nodup
  keys k := by
    rw [mem_keys_put, h.keys]
    simp only [List.mem_append, List.mem_singleton]
    constructor
    · rintro (rfl | ⟨y, hy, rfl⟩)
      · exact ⟨x, .inr rfl, rfl⟩
      · exact ⟨y, .inl hy, rfl⟩
    · rintro ⟨y, hy | rfl, rfl⟩
      · exact .inr ⟨y, hy, rfl⟩
      · exact .inl rfl
  items g hg := by
    rw [List.filter_append]
    rcases items_put h.nodup hg with ⟨items, hmem, heq⟩ | ⟨hnew, rfl⟩
    · have hitems : items = xs.filter fun y => key y = g.1 := h.items _ hmem
      rw [heq, hitems]
      by_cases hkey : key x = g.1
      · simp [hkey]
      · simp [hkey]
    · have hnone : xs.filter (fun y => key y = key x) = [] := by
        refine List.filter_eq_nil_iff.mpr fun y hy hkey => ?_
        exact hnew ((h.keys _).mpr ⟨y, hy, of_decide_eq_true hkey⟩)
      simp [hnone]

/-- Each key that occurs has one group, of its items in their order. -/
theorem grouped (key : α → κ) (xs : List α) : Grouped key xs (groups key xs) := by
  have hrun : ∀ (ys : List α) {xs gs}, Grouped key xs gs →
      Grouped key (xs ++ ys) (ys.foldl (fun gs x => Grouping.put key x gs) gs) := by
    intro ys
    induction ys with
    | nil =>
        intro xs gs h
        rwa [List.append_nil]
    | cons y ys ih =>
        intro xs gs h
        have hrest := ih (h.put y)
        rwa [List.append_assoc] at hrest
  have hnone : Grouped key ([] : List α) ([] : List (κ × List α)) :=
    ⟨List.nodup_nil, by simp, by simp⟩
  exact hrun xs hnone

end Groups

/-! ## The first of the best -/

theorem le_firstMax [LinearOrder ν] (value : α → ν) (best : α) (xs : List α) :
    value best ≤ value (firstMax value best xs) := by
  induction xs generalizing best with
  | nil => exact le_refl _
  | cons x xs ih =>
      rw [firstMax]
      split
      · next hless => exact (le_of_lt hless).trans (ih x)
      · exact ih best

/-- What is before the chosen item is less than it, and what is after is not more. -/
theorem firstMax_spec [LinearOrder ν] (value : α → ν) (best : α) (xs : List α) :
    ∃ before after, best :: xs = before ++ firstMax value best xs :: after ∧
      (∀ y ∈ before, value y < value (firstMax value best xs)) ∧
      ∀ y ∈ after, value y ≤ value (firstMax value best xs) := by
  induction xs generalizing best with
  | nil => exact ⟨[], [], rfl, by simp, by simp⟩
  | cons x xs ih =>
      rw [firstMax]
      split
      · next hless =>
          obtain ⟨before, after, heq, hbefore, hafter⟩ := ih x
          refine ⟨best :: before, after, congrArg (best :: ·) heq, fun y hy => ?_, hafter⟩
          rcases List.mem_cons.mp hy with rfl | hy
          · exact lt_of_lt_of_le hless (le_firstMax value x xs)
          · exact hbefore y hy
      · next hnot =>
          have hle := not_lt.mp hnot
          obtain ⟨before, after, heq, hbefore, hafter⟩ := ih best
          cases before with
          | nil =>
              obtain ⟨hfirst, hrest⟩ := List.cons.inj heq
              refine ⟨[], x :: after, ?_, by simp, fun y hy => ?_⟩
              · rw [← hfirst, hrest]
                rfl
              · rcases List.mem_cons.mp hy with rfl | hy
                · exact hle.trans (le_firstMax value best xs)
                · exact hafter y hy
          | cons b before =>
              have hfirst := (List.cons.inj heq).1
              have hrest := (List.cons.inj heq).2
              refine ⟨best :: x :: before, after, congrArg (best :: x :: ·) hrest,
                fun y hy => ?_, hafter⟩
              have hbest := hbefore b List.mem_cons_self
              rw [← hfirst] at hbest
              rcases List.mem_cons.mp hy with rfl | hy
              · exact hbest
              · rcases List.mem_cons.mp hy with rfl | hy
                · exact lt_of_le_of_lt hle hbest
                · exact hbefore y (List.mem_cons_of_mem _ hy)

/-! ## Sorted lists -/

/-- Two strictly sorted lists with the same members are the same. -/
theorem sorted_eq [LinearOrder κ] {l l' : List κ} (h : l.Pairwise (· < ·))
    (h' : l'.Pairwise (· < ·)) (hmem : ∀ k, k ∈ l ↔ k ∈ l') : l = l' := by
  have hnodup : l.Nodup := h.imp fun hlt => ne_of_lt hlt
  have hnodup' : l'.Nodup := h'.imp fun hlt => ne_of_lt hlt
  have hperm : l.Perm l' := (List.perm_ext_iff_of_nodup hnodup hnodup').mpr hmem
  exact hperm.eq_of_pairwise (fun a b _ _ hab hba => absurd (hab.trans hba) (lt_irrefl a)) h h'

end SysLab.Foundation.Grouping
