import Mathlib.Algebra.Group.Nat.Defs
import SysLab.PartB.FullTransfer

/-!
# What `write_full` and `read_full` move

A call of `write_full` with what it has put on the descriptor, and one of `read_full`
with the buffer it fills, for any answers of the kernel.  Both go on while an answer
moves bytes or is `EINTR`; what they have moved is a prefix at every moment, and what
they return says which answer came first.
-/

namespace SysLab.PartB

/-- The `ssize_t` that has been returned. -/
def Transfer.result : Transfer → Option Int
  | .running _ => none
  | .returned (.ok done) => some ((done : Int).bmod (2 ^ 64))
  | .returned (.error _) => some (-1)

namespace FullTransfer

/-- `SSIZE_MAX`. -/
def ssizeMax : Nat := 2 ^ 63 - 1

/-! ## The calls -/

/-- The bytes of `write(fd, p + done, length - done)`. -/
def chunk (buffer : List UInt8) (length done : Nat) : List UInt8 :=
  (buffer.drop done).take (length - done)

/-- `n` bytes of a stream from a position on. -/
def incoming (stream : Nat → UInt8) (position n : Nat) : List UInt8 :=
  (List.range n).map fun i => stream (position + i)

/-- `buffer` with bytes stored at `p + done`. -/
def storeAt (buffer : List UInt8) (done : Nat) (bytes : List UInt8) : List UInt8 :=
  buffer.take done ++ (bytes ++ buffer.drop (done + bytes.length))

/-- A call of `write_full`; `output` is what it has put on the descriptor. -/
structure WriteFull where
  transfer : Transfer
  output : List UInt8

namespace WriteFull

def start (length : Nat) : WriteFull := ⟨.resume length 0, []⟩

/-- `write` returns. -/
def wrote (buffer : List UInt8) (length : Nat) (s : WriteFull) (res : Except Errno Nat) :
    WriteFull :=
  match s.transfer with
  | .returned _ => s
  | .running done =>
      { transfer := writeFull length done res
        output :=
          match res with
          | .ok n => s.output ++ (chunk buffer length done).take n
          | .error _ => s.output }

/-- The calls of `write` have been answered. -/
def run (buffer : List UInt8) (length : Nat) (answers : List (Except Errno Nat)) :
    WriteFull :=
  answers.foldl (wrote buffer length) (start length)

end WriteFull

/-- A call of `read_full`; `position` counts the bytes of the descriptor's stream that
have been read. -/
structure ReadFull where
  transfer : Transfer
  buffer : List UInt8
  position : Nat

namespace ReadFull

def start (buffer : List UInt8) (length : Nat) : ReadFull := ⟨.resume length 0, buffer, 0⟩

/-- `read` returns. -/
def received (stream : Nat → UInt8) (length : Nat) (s : ReadFull) (res : Except Errno Nat) :
    ReadFull :=
  match s.transfer with
  | .returned _ => s
  | .running done =>
      { transfer := readFull length done (res.map (incoming stream s.position))
        buffer :=
          match res with
          | .ok n => storeAt s.buffer done (incoming stream s.position n)
          | .error _ => s.buffer
        position :=
          match res with
          | .ok n => s.position + n
          | .error _ => s.position }

/-- The calls of `read` have been answered. -/
def run (stream : Nat → UInt8) (buffer : List UInt8) (length : Nat)
    (answers : List (Except Errno Nat)) : ReadFull :=
  answers.foldl (received stream length) (start buffer length)

end ReadFull

/-! ## The answers -/

/-- The bytes that an answer moves. -/
def gained : Except Errno Nat → Nat
  | .ok n => n
  | .error _ => 0

def total : List (Except Errno Nat) → Nat
  | [] => 0
  | res :: answers => gained res + total answers

/-- The answer of a call that a signal has interrupted. -/
def interrupted : Except Errno Nat → Bool
  | .ok _ => false
  | .error e => e = .EINTR

/-- An answer after which there is another call, if not all has been moved. -/
def Continues : Except Errno Nat → Prop
  | .ok n => 0 < n
  | .error e => e = .EINTR

instance : (res : Except Errno Nat) → Decidable (Continues res)
  | .ok n => inferInstanceAs (Decidable (0 < n))
  | .error e => inferInstanceAs (Decidable (e = .EINTR))

/-- With `remaining` bytes to move, no call moves more than it is asked to. -/
def Sane : Nat → List (Except Errno Nat) → Prop
  | _, [] => True
  | remaining, res :: answers =>
      remaining = 0 ∨ gained res ≤ remaining ∧
        (Continues res → Sane (remaining - gained res) answers)

instance instDecidableSane : (remaining : Nat) → (answers : List (Except Errno Nat)) →
    Decidable (Sane remaining answers)
  | _, [] => isTrue trivial
  | remaining, res :: answers =>
      have := instDecidableSane (remaining - gained res) answers
      inferInstanceAs (Decidable (remaining = 0 ∨ gained res ≤ remaining ∧
        (Continues res → Sane (remaining - gained res) answers)))

/-- An answer as `p` says comes before all has been moved, and before any other that
ends the loop. -/
def ComesFirst (p : Except Errno Nat → Prop) (length : Nat)
    (answers : List (Except Errno Nat)) : Prop :=
  ∃ before res after, answers = before ++ res :: after ∧ p res ∧
    (∀ answer ∈ before, Continues answer) ∧ total before < length

/-- What a call has returned after the answers, with `done` bytes moved. -/
structure Exact (length : Nat) (answers : List (Except Errno Nat)) (t : Transfer)
    (done : Nat) : Prop where
  le : done ≤ length
  running : ∀ n, t = .running n → n = done
  whole : t.result = some (length : Int) ↔ done = length
  short : (∃ n : Nat, n < length ∧ t.result = some (n : Int)) ↔
    ComesFirst (· = .ok 0) length answers
  failed : t.result = some (-1) ↔
    ComesFirst (fun res => ∃ e, res = .error e ∧ e ≠ .EINTR) length answers
  value : ∀ n : Nat, t.result = some (n : Int) → n = done
  returns : length ≤ answers.countP (fun res => !interrupted res) → t.result ≠ none

/-! ## The loop -/

section Loop

variable {S : Type} {transfer : S → Transfer} {call : S → Except Errno Nat → S}
  {At : Nat → S → Prop} {length : Nat}

/-- What the calls have in common: `At done` says what has been moved. -/
structure Moves (transfer : S → Transfer) (call : S → Except Errno Nat → S)
    (At : Nat → S → Prop) (length : Nat) : Prop where
  returned : ∀ s res r, transfer s = .returned r → call s res = s
  running : ∀ s res done, transfer s = .running done → At done s →
    gained res ≤ length - done →
      transfer (call s res) = transferStep length done res ∧ At (done + gained res) (call s res)

/-- Where the loop stands with `done` bytes moved, on the answers that are left. -/
inductive Stands (length done : Nat) : List (Except Errno Nat) → Transfer → Prop
  | running (hdone : done < length) : Stands length done [] (.running done)
  | whole (hdone : done = length) (after : List (Except Errno Nat)) :
      Stands length done after (.returned (.ok done))
  | zero (hdone : done < length) (after : List (Except Errno Nat)) :
      Stands length done (.ok 0 :: after) (.returned (.ok done))
  | failed (hdone : done < length) (e : Errno) (he : e ≠ .EINTR)
      (after : List (Except Errno Nat)) :
      Stands length done (.error e :: after) (.returned (.error e))

/-- With answers left the loop has returned. -/
theorem Stands.exists_returned {done : Nat} {res : Except Errno Nat}
    {answers : List (Except Errno Nat)} {t : Transfer}
    (h : Stands length done (res :: answers) t) : ∃ r, t = .returned r := by
  cases h with
  | whole hdone => exact ⟨_, rfl⟩
  | zero hdone => exact ⟨_, rfl⟩
  | failed hdone e he => exact ⟨_, rfl⟩

/-- If not all has been moved, it has not gone on after the next answer. -/
theorem Stands.not_continues {done : Nat} {res : Except Errno Nat}
    {answers : List (Except Errno Nat)} {t : Transfer}
    (h : Stands length done (res :: answers) t) (hdone : done < length) :
    ¬ Continues res := by
  cases h with
  | whole hall => omega
  | zero _ => exact Nat.lt_irrefl 0
  | failed _ e he => exact he

theorem Moves.run_returned (h : Moves transfer call At length) {s : S}
    {r : Except Errno Nat} (hs : transfer s = .returned r)
    (answers : List (Except Errno Nat)) : answers.foldl call s = s := by
  induction answers with
  | nil => rfl
  | cons res answers ih =>
      rw [List.foldl_cons, h.returned s res r hs]
      exact ih

theorem transferStep_continues {done : Nat} {res : Except Errno Nat} (h : Continues res) :
    transferStep length done res = .resume length (done + gained res) := by
  cases res with
  | ok n => exact transferStep_ok h
  | error e => exact if_pos h

theorem transferStep_stops {done : Nat} (hdone : done < length) {res : Except Errno Nat}
    (h : ¬ Continues res) (answers : List (Except Errno Nat)) :
    gained res = 0 ∧ Stands length done (res :: answers) (transferStep length done res) := by
  cases res with
  | ok n =>
      have hn : n = 0 := Nat.eq_zero_of_not_pos h
      subst hn
      exact ⟨rfl, .zero hdone answers⟩
  | error e =>
      have he : e ≠ .EINTR := h
      rw [transferStep, if_neg he]
      exact ⟨rfl, .failed hdone e he answers⟩

/-- The answers that let the loop go on, and where it then stands. -/
theorem Moves.exists_stands (h : Moves transfer call At length)
    {answers : List (Except Errno Nat)} {s : S} {done : Nat}
    (hs : transfer s = .running done) (hat : At done s) (hdone : done < length)
    (hsane : Sane (length - done) answers) :
    ∃ before after, answers = before ++ after ∧ (∀ answer ∈ before, Continues answer) ∧
      At (done + total before) (answers.foldl call s) ∧
      Stands length (done + total before) after (transfer (answers.foldl call s)) := by
  induction answers generalizing s done with
  | nil => exact ⟨[], [], rfl, by simp, hat, hs ▸ .running hdone⟩
  | cons res answers ih =>
      rw [Sane] at hsane
      have hgained : gained res ≤ length - done := by omega
      obtain ⟨hcall, hmoved⟩ := h.running s res done hs hat hgained
      rw [List.foldl_cons]
      by_cases hcont : Continues res
      · rw [transferStep_continues hcont, Transfer.resume] at hcall
        by_cases hmore : done + gained res < length
        · rw [if_pos hmore] at hcall
          have hrest : Sane (length - (done + gained res)) answers := by
            rw [← Nat.sub_sub]
            exact (hsane.resolve_left (by omega)).2 hcont
          obtain ⟨before, after, rfl, hbefore, hat', hstands⟩ := ih hcall hmoved hmore hrest
          rw [Nat.add_assoc, ← total] at hat' hstands
          refine ⟨res :: before, after, rfl, ?_, hat', hstands⟩
          exact List.forall_mem_cons.mpr ⟨hcont, hbefore⟩
        · rw [if_neg hmore] at hcall
          rw [h.run_returned hcall]
          refine ⟨[res], answers, rfl, by simpa using hcont, hmoved, ?_⟩
          rw [hcall]
          exact .whole (show done + gained res = length by omega) answers
      · obtain ⟨hzero, hstands⟩ := transferStep_stops hdone hcont answers
        rw [hzero] at hmoved
        rw [← hcall] at hstands
        obtain ⟨r, hr⟩ := hstands.exists_returned
        rw [h.run_returned hr]
        exact ⟨[], res :: answers, rfl, by simp, hmoved, hstands⟩

end Loop

/-! ## Which answer came first -/

section First

variable {p : Except Errno Nat → Prop} {length : Nat}
  {before after : List (Except Errno Nat)} {t : Transfer}

theorem total_append (answers answers' : List (Except Errno Nat)) :
    total (answers ++ answers') = total answers + total answers' := by
  induction answers with
  | nil => exact (Nat.zero_add _).symm
  | cons res answers ih => rw [List.cons_append, total, total, ih, Nat.add_assoc]

/-- The first answer that ends the loop is the next one where the loop stands. -/
theorem comesFirst_iff (hp : ∀ res, p res → ¬ Continues res)
    (hbefore : ∀ answer ∈ before, Continues answer)
    (h : Stands length (total before) after t) :
    ComesFirst p length (before ++ after) ↔
      total before < length ∧ ∃ res rest, after = res :: rest ∧ p res := by
  constructor
  · rintro ⟨before', res, after', heq, hres, hbefore', hless⟩
    rcases List.append_eq_append_iff.mp heq with ⟨l, rfl, hafter⟩ | ⟨l, rfl, hafter⟩
    · rw [total_append] at hless
      have hmore : total before < length := by omega
      cases l with
      | nil => exact ⟨hmore, res, after', hafter, hres⟩
      | cons answer l =>
          -- the loop stands before `answer`, after which it goes on
          rw [List.cons_append] at hafter
          subst hafter
          exact absurd (hbefore' answer (by simp)) (h.not_continues hmore)
    · cases l with
      | nil =>
          exact ⟨by rwa [List.append_nil], res, after', hafter.symm, hres⟩
      | cons answer l =>
          obtain ⟨rfl, _⟩ := List.cons.inj hafter
          exact absurd (hbefore res (by simp)) (hp res hres)
  · rintro ⟨hless, res, rest, rfl, hres⟩
    exact ⟨before, res, rest, rfl, hres, hbefore, hless⟩

/-- Every answer but an interruption has moved something. -/
theorem countP_le_total (h : ∀ answer ∈ before, Continues answer) :
    before.countP (fun res => !interrupted res) ≤ total before := by
  induction before with
  | nil => exact Nat.zero_le _
  | cons res before ih =>
      obtain ⟨hres, hbefore⟩ := List.forall_mem_cons.mp h
      have hrest := ih hbefore
      rw [List.countP_cons, total]
      cases res with
      | ok n =>
          have hn : 0 < n := hres
          have hcount : (!interrupted (.ok n)) = true := rfl
          rw [hcount, if_pos rfl, gained]
          omega
      | error e =>
          have he : e = .EINTR := hres
          have hcount : (!interrupted (.error e)) = false := by simp [interrupted, he]
          rw [hcount, if_neg Bool.false_ne_true, gained]
          omega

theorem result_ok {done : Nat} (h : done ≤ ssizeMax) :
    (Transfer.returned (.ok done)).result = some (done : Int) := by
  rw [ssizeMax] at h
  rw [Transfer.result, Int.bmod_def]
  have hmod : (done : Int) % (2 ^ 64 : Nat) = done := by omega
  rw [hmod, if_pos (by omega)]

/-- A count has been returned. -/
theorem Exact.of_ok {answers : List (Except Errno Nat)} {done : Nat} (hle : done ≤ length)
    (hmax : length ≤ ssizeMax) (hshort : done < length ↔ ComesFirst (· = .ok 0) length answers)
    (hfailed : ¬ ComesFirst (fun res => ∃ e, res = .error e ∧ e ≠ .EINTR) length answers) :
    Exact length answers (.returned (.ok done)) done := by
  have hresult := result_ok (hle.trans hmax)
  refine ⟨hle, fun n hn => ?_, ?_, ?_, ?_, fun n hn => ?_, fun _ => ?_⟩
  · cases hn
  · rw [hresult, Option.some_inj, Int.natCast_inj]
  · rw [← hshort]
    constructor
    · rintro ⟨n, hn, hreturned⟩
      rw [hresult, Option.some_inj, Int.natCast_inj] at hreturned
      omega
    · exact fun hless => ⟨done, hless, hresult⟩
  · rw [hresult, Option.some_inj]
    constructor
    · intro hnegative
      omega
    · exact fun hfirst => absurd hfirst hfailed
  · rw [hresult, Option.some_inj, Int.natCast_inj] at hn
    exact hn.symm
  · rw [hresult]
    exact Option.some_ne_none _

/-- Where the loop stands says all. -/
theorem Stands.exact (hmax : length ≤ ssizeMax)
    (hbefore : ∀ answer ∈ before, Continues answer)
    (h : Stands length (total before) after t) :
    Exact length (before ++ after) t (total before) := by
  have hzero := comesFirst_iff (p := (· = .ok 0)) (fun res hres => by
    subst hres
    exact Nat.lt_irrefl 0) hbefore h
  have herror := comesFirst_iff (p := fun res => ∃ e, res = .error e ∧ e ≠ .EINTR)
    (fun res hres => by
      obtain ⟨e, rfl, he⟩ := hres
      exact he) hbefore h
  cases h with
  | running hdone =>
      refine ⟨hdone.le, fun n hn => ?_, ?_, ?_, ?_, fun n hn => ?_, fun hmany => ?_⟩
      · cases hn
        rfl
      · simp only [Transfer.result, reduceCtorEq, false_iff]
        omega
      · rw [hzero]
        simp [Transfer.result]
      · rw [herror]
        simp [Transfer.result]
      · cases hn
      · have hcount := countP_le_total hbefore
        rw [List.append_nil] at hmany
        omega
  | whole hdone =>
      refine .of_ok hdone.le hmax ?_ ?_
      · rw [hzero]
        omega
      · rw [herror]
        omega
  | zero hdone =>
      refine .of_ok hdone.le hmax ?_ ?_
      · rw [hzero]
        exact ⟨fun hless => ⟨hless, _, _, rfl, rfl⟩, fun hfirst => hfirst.1⟩
      · rw [herror]
        rintro ⟨_, res, rest, hafter, e, rfl, _⟩
        cases hafter
  | failed hdone e he =>
      have hresult : (Transfer.returned (.error e)).result = some (-1) := rfl
      refine ⟨hdone.le, fun n hn => ?_, ?_, ?_, ?_, fun n hn => ?_, fun _ => ?_⟩
      · cases hn
      · rw [hresult, Option.some_inj]
        omega
      · rw [hzero]
        constructor
        · rintro ⟨n, _, hreturned⟩
          rw [hresult, Option.some_inj] at hreturned
          omega
        · rintro ⟨_, res, rest, hafter, rfl⟩
          cases hafter
      · rw [herror]
        exact ⟨fun _ => ⟨hdone, _, _, rfl, e, rfl, he⟩, fun _ => hresult⟩
      · rw [hresult, Option.some_inj] at hn
        omega
      · exact Option.some_ne_none _

end First

theorem Moves.exact {S : Type} {transfer : S → Transfer} {call : S → Except Errno Nat → S}
    {At : Nat → S → Prop} {length : Nat} (h : Moves transfer call At length)
    (hmax : length ≤ ssizeMax) {s : S} (hs : transfer s = .resume length 0) (hat : At 0 s)
    {answers : List (Except Errno Nat)} (hsane : Sane length answers) :
    ∃ done, At done (answers.foldl call s) ∧
      Exact length answers (transfer (answers.foldl call s)) done := by
  rw [Transfer.resume] at hs
  by_cases hpos : 0 < length
  · rw [if_pos hpos] at hs
    obtain ⟨before, after, rfl, hbefore, hmoved, hstands⟩ := h.exists_stands hs hat hpos hsane
    rw [Nat.zero_add] at hmoved hstands
    exact ⟨total before, hmoved, hstands.exact hmax hbefore⟩
  · rw [if_neg hpos] at hs
    rw [h.run_returned hs, hs]
    have hstands : Stands length (total []) answers (.returned (.ok 0)) :=
      .whole (show 0 = length by omega) answers
    exact ⟨0, hat, hstands.exact hmax (by simp)⟩

/-! ## The two calls -/

theorem incoming_add (stream : Nat → UInt8) (done n : Nat) :
    incoming stream 0 (done + n) = incoming stream 0 done ++ incoming stream done n := by
  rw [incoming, List.range_add, List.map_append, List.map_map]
  simp only [incoming, Nat.zero_add]
  rfl

theorem length_incoming (stream : Nat → UInt8) (position n : Nat) :
    (incoming stream position n).length = n := by
  rw [incoming, List.length_map, List.length_range]

theorem WriteFull.moves (buffer : List UInt8) (length : Nat) :
    Moves WriteFull.transfer (WriteFull.wrote buffer length)
      (fun done s => s.output = buffer.take done) length := by
  constructor
  · intro s res r hs
    rw [wrote, hs]
  · intro s res done hs hat hgained
    rw [wrote, hs]
    refine ⟨rfl, ?_⟩
    cases res with
    | error e => exact hat
    | ok n =>
        rw [gained] at hgained ⊢
        show s.output ++ (chunk buffer length done).take n = _
        rw [hat, chunk, List.take_take, Nat.min_eq_left hgained, List.take_add]

theorem ReadFull.moves (stream : Nat → UInt8) (buffer : List UInt8) (length : Nat) :
    Moves ReadFull.transfer (ReadFull.received stream length)
      (fun done s => s.buffer = incoming stream 0 done ++ buffer.drop done ∧ s.position = done)
      length := by
  constructor
  · intro s res r hs
    unfold received
    rw [hs]
  · intro s res done hs hat hgained
    obtain ⟨hbuffer, hposition⟩ := hat
    unfold received
    rw [hs]
    cases res with
    | error e => exact ⟨rfl, hbuffer, hposition⟩
    | ok n =>
        have hbytes := length_incoming stream s.position n
        refine ⟨?_, ?_, ?_⟩
        · show transferStep length done (.ok (incoming stream s.position n).length) = _
          rw [hbytes]
        · show storeAt s.buffer done (incoming stream s.position n) = _
          rw [storeAt, hbytes, hbuffer, hposition, gained, incoming_add]
          have hdone := length_incoming stream 0 done
          have hrest : (incoming stream 0 done).drop (done + n) = [] :=
            List.drop_eq_nil_of_le (by omega)
          rw [List.take_left' hdone, List.drop_append, hrest, hdone, Nat.add_sub_cancel_left,
            List.nil_append, List.drop_drop, List.append_assoc]
        · show s.position + n = _
          rw [hposition, gained]

/-- For any answers that move no more than was asked for, `write_full` has put the first
`done` bytes of its buffer on the descriptor, and `read_full` has stored the next `done`
bytes of the stream at the beginning of its buffer and changed nothing else.  What they
return is `length` if all has been moved, less if an answer of 0 came first, and `-1` if
an error other than `EINTR` did; with enough answers that are no interruptions they
return. -/
theorem full_prefixes {length : Nat} (hmax : length ≤ ssizeMax)
    {answers : List (Except Errno Nat)} (hsane : Sane length answers) (buffer : List UInt8)
    (stream : Nat → UInt8) :
    (∃ done, (WriteFull.run buffer length answers).output = buffer.take done ∧
      Exact length answers (WriteFull.run buffer length answers).transfer done) ∧
    ∃ done, ((ReadFull.run stream buffer length answers).buffer =
          incoming stream 0 done ++ buffer.drop done ∧
        (ReadFull.run stream buffer length answers).position = done) ∧
      Exact length answers (ReadFull.run stream buffer length answers).transfer done := by
  constructor
  · exact (WriteFull.moves buffer length).exact hmax rfl rfl hsane
  · exact (ReadFull.moves stream buffer length).exact hmax rfl ⟨rfl, rfl⟩ hsane

/-- Three of four bytes, in two pieces with an interruption between them. -/
theorem full_prefixes_short :
    (∃ done, (WriteFull.run [1, 2, 3, 4] 4 [.ok 1, .error .EINTR, .ok 2, .ok 0]).output =
        [1, 2, 3, 4].take done ∧
      Exact 4 [.ok 1, .error .EINTR, .ok 2, .ok 0]
        (WriteFull.run [1, 2, 3, 4] 4 [.ok 1, .error .EINTR, .ok 2, .ok 0]).transfer done) ∧
    (WriteFull.run [1, 2, 3, 4] 4 [.ok 1, .error .EINTR, .ok 2, .ok 0]).output = [1, 2, 3] ∧
    (WriteFull.run [1, 2, 3, 4] 4 [.ok 1, .error .EINTR, .ok 2, .ok 0]).transfer.result =
      some 3 :=
  ⟨(full_prefixes (by decide) (by decide) [1, 2, 3, 4] fun _ => 0).1, rfl, rfl⟩

end FullTransfer

end SysLab.PartB
