import Mathlib.Data.Finset.Card
import Mathlib.Data.Set.Function

/-!
# Transcripts of descriptor calls

A server is observed through the calls it makes on descriptors: `accept`
hands out a key, `read` and `write` move bytes on it, `close` gives it back.
A `Transcript` is the list of completed calls, **newest first**, so that every
definition below recurses on the list and a step of the server is a `cons`.

* `received h k`, `echoed h k` — the bytes read from, and written to, the
  connection that currently (or last) owned key `k`.
* `Conserved h k pending` — the law of an echo server: what was written,
  followed by what is still pending, is what was read.  One rule per call
  says how it moves; a call on another key does not move it at all.
* `openKeys base h` — the keys in use, the ones in `base` having been open
  before the transcript began.
* `Always P h` — every call met `P` against the transcript before it.
* `settled h` — the transcript without the reads and writes that failed, which
  tells the same about bytes, open keys and closings.
* `Lawful base h` — every call was made on an open key, every accepted key was
  new, and no key was closed twice.  `Lawful.accepts_eq` turns this into the
  ledger "accepted as often as closed, plus one while open".
-/

namespace SysLab.Foundation

/-- One completed call on a key: what was asked and what came back. -/
inductive Call (κ : Type*) (ε : Type*) (α : Type*)
  | accept (k : κ)
  | read (k : κ) (asked : Nat) (res : Except ε (List α))
  | write (k : κ) (chunk : List α) (res : Except ε Nat)
  | close (k : κ)

namespace Call

variable {κ : Type*} {ε : Type*} {α : Type*}

/-- The key a call is about. -/
def key : Call κ ε α → κ
  | accept k => k
  | read k _ _ => k
  | write k _ _ => k
  | close k => k

/-- Bytes a call delivers to the server. -/
def delivered : Call κ ε α → List α
  | read _ _ (.ok xs) => xs
  | _ => []

/-- Bytes a call takes over from the server. -/
def taken : Call κ ε α → List α
  | write _ chunk (.ok n) => chunk.take n
  | _ => []

/-- Does the call start a new connection? -/
def opens : Call κ ε α → Bool
  | accept _ => true
  | _ => false

/-- The environment never reports more than was asked for. -/
def Sane : Call κ ε α → Prop
  | read _ asked (.ok xs) => xs.length ≤ asked
  | write _ chunk (.ok n) => n ≤ chunk.length
  | _ => True

instance : (c : Call κ ε α) → Decidable c.Sane
  | accept _ => isTrue trivial
  | read _ asked (.ok xs) => Nat.decLe xs.length asked
  | read _ _ (.error _) => isTrue trivial
  | write _ chunk (.ok n) => Nat.decLe n chunk.length
  | write _ _ (.error _) => isTrue trivial
  | close _ => isTrue trivial

/-- A read or write that failed. -/
def failed : Call κ ε α → Bool
  | read _ _ (.error _) => true
  | write _ _ (.error _) => true
  | _ => false

/-- A failed call opens nothing and moves no byte. -/
theorem failed_idle {c : Call κ ε α} (hc : c.failed = true) :
    c.opens = false ∧ c.delivered = [] ∧ c.taken = [] := by
  cases c with
  | accept k => cases hc
  | read k asked res =>
      rcases res with e | xs
      · exact ⟨rfl, rfl, rfl⟩
      · cases hc
  | write k chunk res =>
      rcases res with e | n
      · exact ⟨rfl, rfl, rfl⟩
      · cases hc
  | close k => cases hc

end Call

/-- Completed calls, newest first. -/
abbrev Transcript (κ : Type*) (ε : Type*) (α : Type*) := List (Call κ ε α)

namespace Transcript

variable {κ : Type*} {ε : Type*} {α : Type*}

/-- Every call of the transcript met `P` at the time it was made, `P` being
asked of the call and of the calls before it. -/
def Always (P : Call κ ε α → Transcript κ ε α → Prop) :
    Transcript κ ε α → Prop
  | [] => True
  | c :: h => P c h ∧ Always P h

instance {P : Call κ ε α → Transcript κ ε α → Prop}
    [∀ c h, Decidable (P c h)] : (h : Transcript κ ε α) → Decidable (Always P h)
  | [] => isTrue trivial
  | c :: h =>
      have : Decidable (Always P h) := instDecidableAlways h
      inferInstanceAs (Decidable (P c h ∧ Always P h))

/-- `Always` speaks about every moment of the transcript. -/
theorem always_iff {P : Call κ ε α → Transcript κ ε α → Prop}
    {h : Transcript κ ε α} : Always P h ↔ ∀ c t, c :: t <:+ h → P c t := by
  induction h with
  | nil => simp [Always]
  | cons d h ih =>
      constructor
      · intro hall c t hsuf
        rcases List.suffix_cons_iff.mp hsuf with heq | hsuf
        · obtain ⟨rfl, rfl⟩ := List.cons.inj heq
          exact hall.1
        · exact ih.mp hall.2 c t hsuf
      · intro hall
        refine ⟨hall d h (List.suffix_refl _), ih.mpr ?_⟩
        exact fun c t hsuf => hall c t (hsuf.trans (List.suffix_cons d h))

/-- What always held held at every earlier moment. -/
theorem Always.of_suffix {P : Call κ ε α → Transcript κ ε α → Prop}
    {h h' : Transcript κ ε α} (hall : Always P h') (hsuf : h <:+ h') :
    Always P h :=
  always_iff.mpr fun c t hct => always_iff.mp hall c t (hct.trans hsuf)

variable [DecidableEq κ]

/-! ## Byte streams -/

/-- Bytes read from `k` since it was last accepted. -/
def received : Transcript κ ε α → κ → List α
  | [], _ => []
  | c :: h, k =>
      if c.key = k then
        if c.opens then [] else received h k ++ c.delivered
      else received h k

/-- Bytes written to `k` since it was last accepted. -/
def echoed : Transcript κ ε α → κ → List α
  | [], _ => []
  | c :: h, k =>
      if c.key = k then
        if c.opens then [] else echoed h k ++ c.taken
      else echoed h k

theorem received_cons_ne {c : Call κ ε α} {h : Transcript κ ε α} {k : κ}
    (hk : c.key ≠ k) : received (c :: h) k = received h k := by
  simp [received, hk]

theorem echoed_cons_ne {c : Call κ ε α} {h : Transcript κ ε α} {k : κ}
    (hk : c.key ≠ k) : echoed (c :: h) k = echoed h k := by
  simp [echoed, hk]

/-- A call that delivers nothing and opens nothing leaves the input alone. -/
theorem received_cons_idle {c : Call κ ε α} {h : Transcript κ ε α} {k : κ}
    (hopen : c.opens = false) (hd : c.delivered = []) :
    received (c :: h) k = received h k := by
  simp [received, hopen, hd]

/-- `pending` is exactly what was read from `k` and not yet written back. -/
def Conserved (h : Transcript κ ε α) (k : κ) (pending : List α) : Prop :=
  echoed h k ++ pending = received h k

namespace Conserved

variable {h : Transcript κ ε α} {k : κ} {pending : List α}

/-- A fresh connection owes nothing. -/
theorem accept (h : Transcript κ ε α) (k : κ) :
    Conserved (.accept k :: h) k [] := by
  simp [Conserved, echoed, received, Call.key, Call.opens]

/-- Calls on other keys are a frame. -/
theorem frame {c : Call κ ε α} (hc : Conserved h k pending)
    (hk : c.key ≠ k) : Conserved (c :: h) k pending := by
  rw [Conserved, echoed_cons_ne hk, received_cons_ne hk]
  exact hc

/-- Whatever is read becomes pending. -/
theorem read (hc : Conserved h k pending) (asked : Nat) (xs : List α) :
    Conserved (.read k asked (.ok xs) :: h) k (pending ++ xs) := by
  rw [Conserved] at hc ⊢
  simp [echoed, received, Call.key, Call.opens, Call.taken, Call.delivered,
    ← hc]

/-- A write of the pending bytes retires the prefix that was taken. -/
theorem write (hc : Conserved h k pending) (n : Nat) :
    Conserved (.write k pending (.ok n) :: h) k (pending.drop n) := by
  rw [Conserved] at hc ⊢
  simp [echoed, received, Call.key, Call.opens, Call.taken, Call.delivered,
    ← hc]

/-- A call that neither opens the key nor moves a byte changes nothing. -/
theorem idle {c : Call κ ε α} (hc : Conserved h k pending)
    (hopen : c.opens = false) (hd : c.delivered = []) (ht : c.taken = []) :
    Conserved (c :: h) k pending := by
  rw [Conserved] at hc ⊢
  by_cases hk : c.key = k
  · simp [echoed, received, hk, hopen, hd, ht, hc]
  · simp [echoed, received, hk, hc]

/-- Output never runs ahead of, nor away from, the input. -/
theorem isPrefix (hc : Conserved h k pending) : echoed h k <+: received h k :=
  ⟨pending, hc⟩

/-- With nothing pending, output and input agree. -/
theorem eq_of_nil (hc : Conserved h k []) : echoed h k = received h k := by
  simpa [Conserved] using hc

end Conserved

/-! ## Keys in use -/

/-- The keys open after the transcript, those in `base` being open before. -/
def openKeys (base : Finset κ) : Transcript κ ε α → Finset κ
  | [] => base
  | .accept k :: h => insert k (openKeys base h)
  | .close k :: h => (openKeys base h).erase k
  | .read _ _ _ :: h => openKeys base h
  | .write _ _ _ :: h => openKeys base h

/-- The call is made on an open key; an accepted key is new, and only an
accepted key is closed. -/
def LawfulCall (base : Finset κ) :
    Call κ ε α → Transcript κ ε α → Prop
  | .accept k, h => k ∉ openKeys base h
  | .close k, h => k ∈ openKeys base h ∧ k ∉ base
  | .read k _ _, h => k ∈ openKeys base h
  | .write k _ _, h => k ∈ openKeys base h

/-- Every call of the transcript was lawful when it was made. -/
def Lawful (base : Finset κ) : Transcript κ ε α → Prop :=
  Always (LawfulCall base)

/-- How often key `k` was accepted. -/
def accepts (k : κ) : Transcript κ ε α → Nat
  | [] => 0
  | .accept k' :: h => if k' = k then accepts k h + 1 else accepts k h
  | _ :: h => accepts k h

/-- How often key `k` was closed. -/
def closes (k : κ) : Transcript κ ε α → Nat
  | [] => 0
  | .close k' :: h => if k' = k then closes k h + 1 else closes k h
  | _ :: h => closes k h

/-- Keys of `base` stay open: a lawful transcript does not close them. -/
theorem Lawful.base_subset {base : Finset κ} {h : Transcript κ ε α}
    (hl : Lawful base h) : base ⊆ openKeys base h := by
  induction h with
  | nil => exact Finset.Subset.refl base
  | cons c h ih =>
      cases c with
      | accept k => exact (ih hl.2).trans (Finset.subset_insert k _)
      | read k asked res => exact ih hl.2
      | write k chunk res => exact ih hl.2
      | close k =>
          obtain ⟨⟨_, hbase⟩, hl⟩ := hl
          intro x hx
          refine Finset.mem_erase.mpr ⟨?_, ih hl hx⟩
          rintro rfl
          exact hbase hx

/-- The ledger of a lawful transcript: a key outside `base` has been closed as
often as it was accepted, and once less while it is open. -/
theorem Lawful.accepts_eq {base : Finset κ} {h : Transcript κ ε α}
    (hl : Lawful base h) {k : κ} (hk : k ∉ base) :
    accepts k h = closes k h + if k ∈ openKeys base h then 1 else 0 := by
  induction h with
  | nil => simp [accepts, closes, openKeys, hk]
  | cons c h ih =>
      cases c with
      | accept k' =>
          obtain ⟨hnew, hl⟩ := hl
          have hrec := ih hl
          by_cases hkk : k' = k
          · subst hkk
            rw [LawfulCall] at hnew
            simpa [accepts, closes, openKeys, hnew] using hrec
          · simpa [accepts, closes, openKeys, hkk, Ne.symm hkk] using hrec
      | read k' asked res => exact ih hl.2
      | write k' chunk res => exact ih hl.2
      | close k' =>
          obtain ⟨⟨hopen, _⟩, hl⟩ := hl
          have hrec := ih hl
          by_cases hkk : k' = k
          · subst hkk
            simpa [accepts, closes, openKeys, hopen] using hrec
          · simpa [accepts, closes, openKeys, hkk, Ne.symm hkk] using hrec

/-- Keys of `base` are neither accepted nor closed. -/
theorem Lawful.base_untouched {base : Finset κ} {h : Transcript κ ε α}
    (hl : Lawful base h) {k : κ} (hk : k ∈ base) :
    accepts k h = 0 ∧ closes k h = 0 := by
  induction h with
  | nil => exact ⟨rfl, rfl⟩
  | cons c h ih =>
      have hrec := ih hl.2
      cases c with
      | accept k' =>
          have hne : k' ≠ k := by
            rintro rfl
            exact hl.1 (Lawful.base_subset hl.2 hk)
          simpa [accepts, closes, hne] using hrec
      | read k' asked res => exact hrec
      | write k' chunk res => exact hrec
      | close k' =>
          have hne : k' ≠ k := by
            rintro rfl
            exact hl.1.2 hk
          simpa [accepts, closes, hne] using hrec

/-! ## Accepted keys still open -/

/-- The accepted keys not closed yet. -/
def clients (base : Finset κ) (h : Transcript κ ε α) : Finset κ :=
  openKeys base h \ base

theorem clients_nil (base : Finset κ) :
    clients base ([] : Transcript κ ε α) = ∅ := by
  simp [clients, openKeys]

theorem mem_clients {base : Finset κ} {h : Transcript κ ε α} {k : κ} :
    k ∈ clients base h ↔ k ∈ openKeys base h ∧ k ∉ base :=
  Finset.mem_sdiff

theorem clients_accept {base : Finset κ} {h : Transcript κ ε α} {k : κ}
    (hk : k ∉ base) :
    clients base (.accept k :: h) = insert k (clients base h) :=
  Finset.insert_sdiff_of_notMem _ hk

theorem clients_close {base : Finset κ} {h : Transcript κ ε α} {k : κ} :
    clients base (.close k :: h) = (clients base h).erase k :=
  Finset.erase_sdiff_comm _ _ _

@[simp] theorem clients_read {base : Finset κ} {h : Transcript κ ε α} {k : κ}
    {asked : Nat} {res : Except ε (List α)} :
    clients base (.read k asked res :: h) = clients base h := rfl

@[simp] theorem clients_write {base : Finset κ} {h : Transcript κ ε α} {k : κ}
    {chunk : List α} {res : Except ε Nat} :
    clients base (.write k chunk res :: h) = clients base h := rfl

/-- The number of keys open: the base and the accepted ones. -/
theorem Lawful.card_openKeys {base : Finset κ} {h : Transcript κ ε α}
    (hl : Lawful base h) :
    (openKeys base h).card = base.card + (clients base h).card := by
  rw [clients, Finset.card_sdiff_of_subset hl.base_subset]
  have := Finset.card_le_card hl.base_subset
  omega

/-! ## Failed calls

A read or write that fails moves no byte and closes nothing, so the transcript
tells the same without it.
-/

/-- The transcript without the reads and writes that failed. -/
def settled (h : Transcript κ ε α) : Transcript κ ε α :=
  h.filter fun c => !c.failed

/-- The keys closed, the last one first. -/
def closings : Transcript κ ε α → List κ
  | [] => []
  | .close k :: h => k :: closings h
  | _ :: h => closings h

section Settled

variable {c : Call κ ε α} {h h' : Transcript κ ε α}

omit [DecidableEq κ] in
theorem settled_cons_failed (hc : c.failed = true) : settled (c :: h) = settled h := by
  simp [settled, hc]

omit [DecidableEq κ] in
theorem settled_cons (hc : c.failed = false) : settled (c :: h) = c :: settled h := by
  simp [settled, hc]

omit [DecidableEq κ] in
/-- One more call keeps two transcripts alike. -/
theorem settled_cons_congr (c : Call κ ε α) (heq : settled h = settled h') :
    settled (c :: h) = settled (c :: h') := by
  cases hc : c.failed with
  | true => rw [settled_cons_failed hc, settled_cons_failed hc, heq]
  | false => rw [settled_cons hc, settled_cons hc, heq]

theorem streams_settled (h : Transcript κ ε α) (k : κ) :
    received (settled h) k = received h k ∧ echoed (settled h) k = echoed h k := by
  induction h with
  | nil => exact ⟨rfl, rfl⟩
  | cons c h ih =>
      obtain ⟨hreceived, hechoed⟩ := ih
      cases hc : c.failed with
      | true =>
          obtain ⟨hopens, hdelivered, htaken⟩ := Call.failed_idle hc
          rw [settled_cons_failed hc, hreceived, hechoed]
          simp [received, echoed, hopens, hdelivered, htaken]
      | false =>
          rw [settled_cons hc]
          simp [received, echoed, hreceived, hechoed]

theorem openKeys_settled (base : Finset κ) (h : Transcript κ ε α) :
    openKeys base (settled h) = openKeys base h := by
  induction h with
  | nil => rfl
  | cons c h ih =>
      cases c with
      | accept k =>
          rw [settled_cons rfl]
          exact congrArg (insert k) ih
      | read k asked res =>
          rcases res with e | xs
          · rw [settled_cons_failed rfl]
            exact ih
          · rw [settled_cons rfl]
            exact ih
      | write k chunk res =>
          rcases res with e | n
          · rw [settled_cons_failed rfl]
            exact ih
          · rw [settled_cons rfl]
            exact ih
      | close k =>
          rw [settled_cons rfl]
          exact congrArg (Finset.erase · k) ih

omit [DecidableEq κ] in
theorem closings_settled (h : Transcript κ ε α) : closings (settled h) = closings h := by
  induction h with
  | nil => rfl
  | cons c h ih =>
      cases c with
      | accept k =>
          rw [settled_cons rfl]
          exact ih
      | read k asked res =>
          rcases res with e | xs
          · rw [settled_cons_failed rfl]
            exact ih
          · rw [settled_cons rfl]
            exact ih
      | write k chunk res =>
          rcases res with e | n
          · rw [settled_cons_failed rfl]
            exact ih
          · rw [settled_cons rfl]
            exact ih
      | close k =>
          rw [settled_cons rfl]
          exact congrArg (k :: ·) ih

end Settled

/-! ## Sessions

What a server does to one connection between two looks at its table: any
number of reads and writes on one open key.  An echo server is *half duplex*
when it reads only after everything read so far has been written back, and
writes exactly what it has read and not written yet.
-/

/-- A read finds nothing pending; a write offers all that is pending. -/
def HalfDuplexCall : Call κ ε α → Transcript κ ε α → Prop
  | .read k _ _, h => Conserved h k []
  | .write k chunk _, h => Conserved h k chunk
  | _, _ => True

/-- Every read and write of the transcript was half duplex. -/
def HalfDuplex : Transcript κ ε α → Prop := Always HalfDuplexCall

/-- The output of a half-duplex echo server is a prefix of its input, on every
key, open or closed. -/
theorem HalfDuplex.isPrefix {h : Transcript κ ε α} (hd : HalfDuplex h)
    (k : κ) : echoed h k <+: received h k := by
  induction h with
  | nil => exact List.prefix_refl []
  | cons c h ih =>
      obtain ⟨hc, hd⟩ := hd
      by_cases hk : c.key = k
      · subst hk
        cases c with
        | accept k => exact (Conserved.accept h k).isPrefix
        | read k asked res =>
            rcases res with e | xs
            · exact (Conserved.idle hc rfl rfl rfl).isPrefix
            · exact (Conserved.read hc asked xs).isPrefix
        | write k chunk res =>
            rcases res with e | n
            · exact (Conserved.idle hc rfl rfl rfl).isPrefix
            · exact (Conserved.write hc n).isPrefix
        | close k =>
            obtain ⟨pending, hpending⟩ := ih hd
            exact (Conserved.idle hpending rfl rfl rfl).isPrefix
      · rw [echoed_cons_ne hk, received_cons_ne hk]
        exact ih hd

/-- `h'` extends `h` by half-duplex reads and writes on `k`. -/
inductive Session (k : κ) (h : Transcript κ ε α) : Transcript κ ε α → Prop
  | refl : Session k h h
  | read {h' : Transcript κ ε α} (asked : Nat) (res : Except ε (List α)) :
      Session k h h' → Conserved h' k [] →
      Session k h (.read k asked res :: h')
  | write {h' : Transcript κ ε α} (chunk : List α) (res : Except ε Nat) :
      Session k h h' → Conserved h' k chunk →
      Session k h (.write k chunk res :: h')

namespace Session

variable {base : Finset κ} {k : κ} {h h' : Transcript κ ε α}

theorem trans {h'' : Transcript κ ε α} (hs : Session k h h')
    (hs' : Session k h' h'') : Session k h h'' := by
  induction hs' with
  | refl => exact hs
  | read asked res _ hk ih => exact ih.read asked res hk
  | write chunk res _ hk ih => exact ih.write chunk res hk

/-- A session consists of calls on its key. -/
theorem exists_calls (hs : Session k h h') :
    ∃ past, h' = past ++ h ∧ ∀ c ∈ past, c.key = k := by
  induction hs with
  | refl => exact ⟨[], rfl, fun _ hc => absurd hc List.not_mem_nil⟩
  | read asked res _ _ ih =>
      obtain ⟨past, rfl, hkeys⟩ := ih
      exact ⟨.read k asked res :: past, rfl, List.forall_mem_cons.mpr ⟨rfl, hkeys⟩⟩
  | write chunk res _ _ ih =>
      obtain ⟨past, rfl, hkeys⟩ := ih
      exact ⟨.write k chunk res :: past, rfl, List.forall_mem_cons.mpr ⟨rfl, hkeys⟩⟩

theorem openKeys_eq (hs : Session k h h') : openKeys base h' = openKeys base h := by
  induction hs with
  | refl => rfl
  | read asked res _ _ ih => exact ih
  | write chunk res _ _ ih => exact ih

theorem clients_eq (hs : Session k h h') : clients base h' = clients base h := by
  rw [clients, hs.openKeys_eq, clients]

/-- A session neither accepts nor closes. -/
theorem ledger_eq (hs : Session k h h') (j : κ) :
    accepts j h' = accepts j h ∧ closes j h' = closes j h := by
  induction hs with
  | refl => exact ⟨rfl, rfl⟩
  | read asked res _ _ ih => exact ih
  | write chunk res _ _ ih => exact ih

theorem lawful (hs : Session k h h') (hk : k ∈ openKeys base h)
    (hl : Lawful base h) : Lawful base h' := by
  induction hs with
  | refl => exact hl
  | @read h₁ asked res hs _ ih =>
      have hopen : k ∈ openKeys base h₁ := by
        rw [hs.openKeys_eq]
        exact hk
      exact ⟨hopen, ih⟩
  | @write h₁ chunk res hs _ ih =>
      have hopen : k ∈ openKeys base h₁ := by
        rw [hs.openKeys_eq]
        exact hk
      exact ⟨hopen, ih⟩

theorem halfDuplex (hs : Session k h h') (hd : HalfDuplex h) :
    HalfDuplex h' := by
  induction hs with
  | refl => exact hd
  | read asked res _ hk ih => exact ⟨hk, ih⟩
  | write chunk res _ hk ih => exact ⟨hk, ih⟩

/-- A session on `k` moves no byte of another connection. -/
theorem streams_eq (hs : Session k h h') {j : κ} (hj : k ≠ j) :
    received h' j = received h j ∧ echoed h' j = echoed h j := by
  induction hs with
  | refl => exact ⟨rfl, rfl⟩
  | read asked res _ _ ih =>
      have hkey : (Call.read k asked res).key ≠ j := hj
      rw [received_cons_ne hkey, echoed_cons_ne hkey]
      exact ih
  | write chunk res _ _ ih =>
      have hkey : (Call.write k chunk res : Call κ ε α).key ≠ j := hj
      rw [received_cons_ne hkey, echoed_cons_ne hkey]
      exact ih

/-- A session on `k` is invisible to every other connection. -/
theorem frame (hs : Session k h h') {j : κ} {pending : List α} (hj : k ≠ j)
    (hc : Conserved h j pending) : Conserved h' j pending := by
  obtain ⟨hreceived, hechoed⟩ := hs.streams_eq hj
  rw [Conserved, hreceived, hechoed]
  exact hc

/-! A session may end by closing its key. -/

theorem clients_eq_close (hs : Session k h h') :
    clients base (.close k :: h') = (clients base h).erase k := by
  rw [clients_close, hs.clients_eq]

theorem lawful_close (hs : Session k h h') (hk : k ∈ clients base h)
    (hl : Lawful base h) : Lawful base (.close k :: h') := by
  obtain ⟨hopen, hbase⟩ := mem_clients.mp hk
  have hstill : k ∈ openKeys base h' := by
    rw [hs.openKeys_eq]
    exact hopen
  exact ⟨⟨hstill, hbase⟩, hs.lawful hopen hl⟩

theorem halfDuplex_close (hs : Session k h h') (hd : HalfDuplex h) :
    HalfDuplex (.close k :: h') :=
  ⟨trivial, hs.halfDuplex hd⟩

theorem streams_eq_close (hs : Session k h h') {j : κ} (hj : k ≠ j) :
    received (.close k :: h') j = received h j ∧
      echoed (.close k :: h') j = echoed h j := by
  have hkey : (Call.close k : Call κ ε α).key ≠ j := hj
  rw [received_cons_ne hkey, echoed_cons_ne hkey]
  exact hs.streams_eq hj

theorem frame_close (hs : Session k h h') {j : κ} {pending : List α} (hj : k ≠ j)
    (hc : Conserved h j pending) : Conserved (.close k :: h') j pending := by
  obtain ⟨hreceived, hechoed⟩ := hs.streams_eq_close hj
  rw [Conserved, hreceived, hechoed]
  exact hc

end Session

end Transcript

end SysLab.Foundation
