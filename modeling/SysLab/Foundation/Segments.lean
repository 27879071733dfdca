import Mathlib.Data.List.TakeWhile

/-!
# Segments between separators

The segments of a text are its maximal parts that are not empty and hold no separator.
`segments` computes them by cutting the text at each separator; a tokenizer takes them
off one after another.

* `Cut.segments_eq` — the first segment, and the segments of what follows it.
* `segments_eq_runs` — the segments are at the maximal runs of positions without
  separators, in order.
-/

namespace SysLab.Foundation

/-! ## Maximal runs -/

/-- From `i` up to `j`, and no further in either direction, everything is in `P`. -/
structure IsRun (P : Nat → Prop) (i j : Nat) : Prop where
  nonempty : i < j
  inside : ∀ k, i ≤ k → k < j → P k
  left : ∀ k, k + 1 = i → ¬ P k
  right : ¬ P j

/-- All the runs, in order. -/
structure Runs (P : Nat → Prop) (spans : List (Nat × Nat)) : Prop where
  sorted : spans.Pairwise fun a b => a.2 < b.1
  mem_iff : ∀ i j, (i, j) ∈ spans ↔ IsRun P i j

section Runs

variable {P Q : Nat → Prop} {a b : Nat}

/-- With `[a, b)` as the first run, and behind it what `Q` says, the runs are that one
and those of `Q`. -/
theorem isRun_first (hab : a < b)
    (hP : ∀ k, P k ↔ a ≤ k ∧ k < b ∨ b < k ∧ Q (k - (b + 1))) (i j : Nat) :
    IsRun P i j ↔ (i = a ∧ j = b) ∨
      ∃ i' j', i = i' + (b + 1) ∧ j = j' + (b + 1) ∧ IsRun Q i' j' := by
  have hinside : ∀ k, a ≤ k → k < b → P k := fun k hka hkb => (hP k).mpr (.inl ⟨hka, hkb⟩)
  have hend : ¬ P b := by
    rw [hP]
    omega
  have hbehind : ∀ k, P (k + (b + 1)) ↔ Q k := by
    intro k
    rw [hP, Nat.add_sub_cancel]
    constructor
    · rintro (⟨_, hless⟩ | ⟨_, hk⟩)
      · omega
      · exact hk
    · exact fun hk => .inr ⟨by omega, hk⟩
  constructor
  · intro h
    have hi := (hP i).mp (h.inside i (Nat.le_refl i) h.nonempty)
    rcases hi with ⟨hai, hib⟩ | ⟨hbi, _⟩
    · left
      constructor
      · by_contra hne
        exact h.left (i - 1) (by omega) (hinside (i - 1) (by omega) (by omega))
      · rcases Nat.lt_trichotomy j b with hless | heq | hmore
        · exact absurd (hinside j (by have := h.nonempty; omega) hless) h.right
        · exact heq
        · exact absurd (h.inside b (by omega) hmore) hend
    · right
      have hij := h.nonempty
      have hshift : IsRun Q (i - (b + 1)) (j - (b + 1)) := by
        refine ⟨by omega, fun k hik hkj => ?_, fun k hk => ?_, ?_⟩
        · exact (hbehind k).mp (h.inside _ (by omega) (by omega))
        · exact fun hq => h.left (k + (b + 1)) (by omega) ((hbehind k).mpr hq)
        · intro hq
          have hj := (hbehind (j - (b + 1))).mpr hq
          rw [Nat.sub_add_cancel (by omega)] at hj
          exact h.right hj
      exact ⟨i - (b + 1), j - (b + 1), by omega, by omega, hshift⟩
  · rintro (⟨rfl, rfl⟩ | ⟨i, j, rfl, rfl, h⟩)
    · refine ⟨hab, hinside, fun k hk hpk => ?_, hend⟩
      have := (hP k).mp hpk
      omega
    · have hij := h.nonempty
      refine ⟨by omega, fun k hik hkj => ?_, fun k hk => ?_, ?_⟩
      · have hq := (hbehind (k - (b + 1))).mpr (h.inside _ (by omega) (by omega))
        rwa [Nat.sub_add_cancel (by omega)] at hq
      · cases i with
        | zero =>
            have hkb : k = b := by omega
            rw [hkb]
            exact hend
        | succ i =>
            have hki : k = i + (b + 1) := by omega
            rw [hki, hbehind]
            exact h.left i rfl
      · rw [hbehind]
        exact h.right

/-- The runs that are computed so. -/
theorem Runs.first (hab : a < b)
    (hP : ∀ k, P k ↔ a ≤ k ∧ k < b ∨ b < k ∧ Q (k - (b + 1))) {spans : List (Nat × Nat)}
    (h : Runs Q spans) :
    Runs P ((a, b) :: spans.map fun s => (s.1 + (b + 1), s.2 + (b + 1))) := by
  constructor
  · rw [List.pairwise_cons, List.pairwise_map]
    constructor
    · intro s hs
      obtain ⟨t, _, rfl⟩ := List.mem_map.mp hs
      dsimp only
      omega
    · exact h.sorted.imp fun hless => by omega
  · intro i j
    rw [isRun_first hab hP, List.mem_cons, Prod.mk.injEq, List.mem_map]
    refine or_congr_right ?_
    constructor
    · rintro ⟨⟨i', j'⟩, hmem, heq⟩
      obtain ⟨rfl, rfl⟩ := Prod.mk.inj heq
      exact ⟨i', j', rfl, rfl, (h.mem_iff i' j').mp hmem⟩
    · rintro ⟨i', j', rfl, rfl, hrun⟩
      exact ⟨(i', j'), (h.mem_iff i' j').mpr hrun, rfl⟩

end Runs

/-! ## Segments -/

section Segments

variable {α : Type*} {sep : α → Bool} {text gap word tail : List α}

/-- The segments of a text. -/
def segments (sep : α → Bool) (text : List α) : List (List α) :=
  (text.splitOnP sep).filter fun segment => !segment.isEmpty

/-- The position holds something that is no separator. -/
def Free (sep : α → Bool) (text : List α) (k : Nat) : Prop :=
  ∃ c, text[k]? = some c ∧ sep c = false

/-- The elements at a span of positions. -/
def slice (text : List α) (span : Nat × Nat) : List α := (text.take span.2).drop span.1

/-- A text cut at its first segment. -/
structure Cut (sep : α → Bool) (text gap word tail : List α) : Prop where
  text_eq : text = gap ++ (word ++ tail)
  gap_sep : ∀ c ∈ gap, sep c = true
  word_free : ∀ c ∈ word, sep c = false
  nonempty : word ≠ []
  tail_sep : ∀ c ∈ tail.head?, sep c = true

/-- A text with something that is no separator can be cut so. -/
theorem cut (h : text.dropWhile sep ≠ []) :
    Cut sep text (text.takeWhile sep) ((text.dropWhile sep).takeWhile fun c => !sep c)
      ((text.dropWhile sep).dropWhile fun c => !sep c) := by
  refine ⟨?_, fun c hc => List.mem_takeWhile_imp hc, fun c hc => ?_, fun hnil => ?_,
    fun c hc => ?_⟩
  · rw [List.takeWhile_append_dropWhile, List.takeWhile_append_dropWhile]
  · simpa using List.mem_takeWhile_imp hc
  · -- what follows the separators begins with something else
    have hhead := List.head_dropWhile_not sep h
    obtain ⟨c, rest, hstart⟩ := List.exists_cons_of_ne_nil h
    simp only [hstart, List.head_cons] at hhead
    rw [hstart, List.takeWhile_cons_of_pos (by simp [hhead])] at hnil
    cases hnil
  · have hhead := List.head?_dropWhile_not (fun c => !sep c) (text.dropWhile sep)
    rw [Option.mem_def.mp hc] at hhead
    simpa using hhead

theorem segments_sep_cons {c : α} (hc : sep c = true) (rest : List α) :
    segments sep (c :: rest) = segments sep rest := by
  rw [segments, List.splitOnP_cons_eq_if_modifyHead, if_pos hc]
  rfl

/-- Separators in front do not matter. -/
theorem segments_gap (h : ∀ c ∈ gap, sep c = true) (rest : List α) :
    segments sep (gap ++ rest) = segments sep rest := by
  induction gap with
  | nil => rfl
  | cons c gap ih =>
      obtain ⟨hc, hgap⟩ := List.forall_mem_cons.mp h
      rw [List.cons_append, segments_sep_cons hc, ih hgap]

theorem segments_of_sep (h : ∀ c ∈ text, sep c = true) : segments sep text = [] := by
  have hrest := segments_gap h []
  rwa [List.append_nil] at hrest

/-- The first segment comes first. -/
theorem Cut.segments_eq (h : Cut sep text gap word tail) :
    segments sep text = word :: segments sep (tail.drop 1) := by
  have hword : (!word.isEmpty) = true := by simp [h.nonempty]
  rw [h.text_eq, segments_gap h.gap_sep]
  cases tail with
  | nil =>
      rw [List.append_nil, segments, List.splitOnP_eq_singleton h.word_free,
        List.filter_cons, if_pos hword]
      rfl
  | cons c rest =>
      rw [segments, List.splitOnP_append_cons_of_forall_mem h.word_free c (h.tail_sep c rfl),
        List.filter_cons, if_pos hword]
      rfl

/-- What follows it is shorter. -/
theorem Cut.length_lt (h : Cut sep text gap word tail) :
    (tail.drop 1).length < text.length := by
  have hword := List.length_pos_iff.mpr h.nonempty
  rw [h.text_eq, List.length_append, List.length_append, List.length_drop]
  omega

theorem Cut.free_iff (h : Cut sep text gap word tail) (k : Nat) :
    Free sep text k ↔ gap.length ≤ k ∧ k < gap.length + word.length ∨
      gap.length + word.length < k ∧
        Free sep (tail.drop 1) (k - (gap.length + word.length + 1)) := by
  unfold Free
  rw [h.text_eq]
  rcases Nat.lt_or_ge k gap.length with hgap | hgap
  · rw [List.getElem?_append_left hgap]
    constructor
    · rintro ⟨c, hc, hfree⟩
      rw [h.gap_sep c (List.mem_of_getElem? hc)] at hfree
      cases hfree
    · rintro (⟨hle, _⟩ | ⟨hless, _⟩)
      · omega
      · omega
  rw [List.getElem?_append_right hgap]
  rcases Nat.lt_or_ge k (gap.length + word.length) with hword | hword
  · have hk : k - gap.length < word.length := by omega
    rw [List.getElem?_append_left hk]
    constructor
    · exact fun _ => .inl ⟨hgap, hword⟩
    · intro _
      have hget := List.getElem?_eq_getElem hk
      exact ⟨_, hget, h.word_free _ (List.mem_of_getElem? hget)⟩
  rw [List.getElem?_append_right (by omega)]
  rcases Nat.eq_or_lt_of_le hword with heq | hless
  · have hzero : k - gap.length - word.length = 0 := by omega
    rw [hzero, ← List.head?_eq_getElem?]
    constructor
    · rintro ⟨c, hc, hfree⟩
      rw [h.tail_sep c hc] at hfree
      cases hfree
    · rintro (⟨_, hless⟩ | ⟨hless, _⟩)
      · omega
      · omega
  · have hindex : 1 + (k - (gap.length + word.length + 1)) = k - gap.length - word.length := by
      omega
    rw [List.getElem?_drop, hindex]
    constructor
    · exact fun hfree => .inr ⟨hless, hfree⟩
    · rintro (⟨_, hmore⟩ | ⟨_, hfree⟩)
      · omega
      · exact hfree

theorem Cut.slice_eq (h : Cut sep text gap word tail) :
    slice text (gap.length, gap.length + word.length) = word := by
  rw [slice, h.text_eq, List.take_length_add_append, List.drop_left, List.take_left]

theorem Cut.slice_tail (h : Cut sep text gap word tail) (span : Nat × Nat) :
    slice text (span.1 + (gap.length + word.length + 1),
      span.2 + (gap.length + word.length + 1)) = slice (tail.drop 1) span := by
  have htail : text.drop (gap.length + word.length + 1) = tail.drop 1 := by
    rw [h.text_eq, ← List.drop_drop, ← List.drop_drop, List.drop_left, List.drop_left]
  rw [slice, slice, ← htail, List.drop_take, List.drop_take, List.drop_drop,
    Nat.add_sub_add_right, Nat.add_comm span.1]

/-- The segments are at the maximal runs of positions without separators. -/
theorem segments_eq_runs (sep : α → Bool) (text : List α) :
    ∃ spans, Runs (Free sep text) spans ∧ segments sep text = spans.map (slice text) := by
  induction hlength : text.length using Nat.strongRecOn generalizing text with
  | _ n ih =>
      by_cases hall : text.dropWhile sep = []
      · have hsep := List.dropWhile_eq_nil_iff.mp hall
        refine ⟨[], ⟨List.Pairwise.nil, fun i j => ?_⟩, segments_of_sep hsep⟩
        constructor
        · intro hmem
          cases hmem
        · intro hrun
          obtain ⟨c, hc, hfree⟩ := hrun.inside i (Nat.le_refl i) hrun.nonempty
          rw [hsep c (List.mem_of_getElem? hc)] at hfree
          cases hfree
      · have hcut := cut hall
        have hword := List.length_pos_iff.mpr hcut.nonempty
        obtain ⟨spans, hruns, hsegments⟩ := ih _ (hlength ▸ hcut.length_lt) _ rfl
        refine ⟨_, hruns.first (by omega) hcut.free_iff, ?_⟩
        rw [hcut.segments_eq, hsegments, List.map_cons, hcut.slice_eq, List.map_map]
        refine congrArg _ (List.map_congr_left fun span _ => ?_)
        exact (hcut.slice_tail span).symm

end Segments

end SysLab.Foundation
