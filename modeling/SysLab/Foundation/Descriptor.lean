import Mathlib.Data.Set.Finite.Lattice

/-!
# Reading a file through a descriptor

A file of fixed content, cut at the file offset into what has been `consumed`
and what is still `unread`.  The environment answers the reads in order by a
schedule: an error, or some of what is left.

* `read_ok` — what a successful `read` hands out and leaves.
* `Answer.Interrupts` — a schedule whose only failures are finitely many
  interruptions; `interrupts_bound` says from which call on there are none.
* `pending` — the measure by which a loop of reads ends under such a schedule.
-/

namespace SysLab.Foundation

/-- What the environment makes of a `read`: it fails, or as many items are
handed out as are left, as the caller has room for, and as `n` allows, of these
at least one. -/
inductive Answer (ε : Type*)
  | fails (e : ε)
  | upTo (n : Nat)
  deriving DecidableEq

/-- Every failure is the interruption `e`, and there are finitely many. -/
structure Answer.Interrupts {ε : Type*} (schedule : Nat → Answer ε) (e : ε) :
    Prop where
  only : ∀ k e', schedule k = .fails e' → e' = e
  finite : {k | schedule k = .fails e}.Finite

/-- Call `j` is interrupted, the others are answered by `n`. -/
def Answer.once {ε : Type*} (e : ε) (j : Nat) (n : Nat → Nat) (k : Nat) : Answer ε :=
  if k = j then .fails e else .upTo (n k)

theorem Answer.once_fails {ε : Type*} {e e' : ε} {j k : Nat} {n : Nat → Nat}
    (h : Answer.once e j n k = .fails e') : k = j ∧ e' = e := by
  unfold once at h
  split at h
  · rename_i hk
    cases h
    exact ⟨hk, rfl⟩
  · cases h

theorem Answer.once_interrupts {ε : Type*} (e : ε) (j : Nat) (n : Nat → Nat) :
    Answer.Interrupts (Answer.once e j n) e :=
  ⟨fun _ _ h => (once_fails h).2,
    (Set.finite_singleton j).subset fun _ h => (once_fails h).1⟩

/-- An open file, and the number of reads made on it. -/
structure Descriptor (α : Type*) where
  consumed : List α
  unread : List α
  reads : Nat
  deriving DecidableEq

namespace Descriptor

variable {α : Type*} {ε : Type*} {schedule : Nat → Answer ε} {count : Nat}
  {d d' : Descriptor α}

/-- The file just opened. -/
def opened (content : List α) : Descriptor α := ⟨[], content, 0⟩

/-- The whole file. -/
def content (d : Descriptor α) : List α := d.consumed ++ d.unread

/-- `read(fd, buffer, count)`. -/
def read (schedule : Nat → Answer ε) (count : Nat) (d : Descriptor α) :
    Except ε (List α) × Descriptor α :=
  match schedule d.reads with
  | .fails e => (.error e, { d with reads := d.reads + 1 })
  | .upTo n =>
      let most := min count (max n 1)
      (.ok (d.unread.take most),
        ⟨d.consumed ++ d.unread.take most, d.unread.drop most, d.reads + 1⟩)

theorem content_opened (content : List α) :
    (opened content).content = content := rfl

/-! ## What a `read` does -/

theorem read_error {e : ε} (h : d.read schedule count = (.error e, d')) :
    schedule d.reads = .fails e ∧ d' = { d with reads := d.reads + 1 } := by
  unfold read at h
  split at h
  · rename_i e' hfails
    cases h
    exact ⟨hfails, rfl⟩
  · cases h

/-- What is handed out comes off the unread part; nothing is handed out only if
there was no room or nothing left. -/
theorem read_ok {bytes : List α} (h : d.read schedule count = (.ok bytes, d')) :
    bytes.length ≤ count ∧ d'.consumed = d.consumed ++ bytes ∧
      d.unread = bytes ++ d'.unread ∧ d'.reads = d.reads + 1 ∧
      (bytes = [] → 0 < count → d.unread = []) := by
  unfold read at h
  split at h
  · cases h
  · rename_i n _
    cases h
    have hlen : (d.unread.take (min count (max n 1))).length =
        min (min count (max n 1)) d.unread.length := List.length_take
    refine ⟨by omega, rfl, (List.take_append_drop _ _).symm, rfl, ?_⟩
    intro hnil hcount
    rw [hnil, List.length_nil] at hlen
    exact List.length_eq_zero_iff.mp (by omega)

/-- No `read` changes the file. -/
theorem content_read : (d.read schedule count).2.content = d.content := by
  rcases h : d.read schedule count with ⟨e | bytes, d'⟩
  · rw [(read_error h).2]
    rfl
  · obtain ⟨_, hconsumed, hunread, _⟩ := read_ok h
    rw [content, content, hconsumed, hunread, List.append_assoc]

/-- It is counted, whatever it comes to. -/
theorem reads_read : (d.read schedule count).2.reads = d.reads + 1 := by
  rcases h : d.read schedule count with ⟨e | bytes, d'⟩
  · rw [(read_error h).2]
  · obtain ⟨_, _, _, hreads, _⟩ := read_ok h
    exact hreads

/-! ## How long a loop of reads goes on -/

/-- Interruptions come to an end. -/
theorem interrupts_bound {e : ε} (h : Answer.Interrupts schedule e) :
    ∃ N, ∀ k e', schedule k = .fails e' → k < N := by
  obtain ⟨N, hN⟩ := h.finite.bddAbove
  refine ⟨N + 1, fun k e' hfails => ?_⟩
  have hk : schedule k = .fails e := by rw [hfails, h.only k e' hfails]
  exact Nat.lt_succ_of_le (hN hk)

/-- Interruptions still to come, if there are none from the `N`-th call on, and
items still to be read. -/
def pending (N : Nat) (d : Descriptor α) : Nat := (N - d.reads) + d.unread.length

variable {N : Nat}

/-- A failed `read` uses up an interruption. -/
theorem pending_error (hN : ∀ k e, schedule k = .fails e → k < N) {e : ε}
    (h : d.read schedule count = (.error e, d')) : d'.pending N < d.pending N := by
  obtain ⟨hfails, rfl⟩ := read_error h
  have hlt : d.reads < N := hN _ _ hfails
  simp only [pending]
  omega

/-- A successful one uses up what it hands out. -/
theorem pending_ok {bytes : List α} (h : d.read schedule count = (.ok bytes, d')) :
    d'.pending N + bytes.length ≤ d.pending N := by
  obtain ⟨_, _, hunread, hreads, _⟩ := read_ok h
  have hlen : d.unread.length = bytes.length + d'.unread.length := by
    rw [hunread, List.length_append]
  simp only [pending]
  omega

end Descriptor

end SysLab.Foundation
