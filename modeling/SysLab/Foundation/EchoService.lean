import SysLab.Foundation.Transcript
import SysLab.Foundation.Transition

/-!
# What an echo server is for

An echo service knows which connections are open and what each of them is still
owed.  It takes new connections, reads from one that is owed nothing, offers to one
all that it is owed, and closes any; nothing else.  `EchoService.system` is that
service as a transition system over the calls of a transcript, so that a server
*refines* it when the calls the server makes are a run of the service.

* `run_iff` — a transcript is a run exactly when it is `Orderly`, and then it leads
  to the state read off the transcript, `ofTranscript`.
* `Refines` — a run of the service leads to a state of it that says what the
  server's own tables say; `refines_iff` is the rule for it.
* `own_accept`, `own_session` — what keeps a transcript away from other keys.
-/

namespace SysLab.Foundation

open Transcript

variable {κ : Type*} {ε : Type*} {α : Type*} [DecidableEq κ]

/-- The open connections, each with the bytes it is owed. -/
abbrev EchoService (κ : Type*) (α : Type*) := κ → Option (List α)

namespace EchoService

/-- Nobody is connected. -/
def idle : EchoService κ α := fun _ => none

/-- The calls the service makes, the keys in `base` being none of its business. -/
inductive Step (base : Finset κ) (s : EchoService κ α) :
    Call κ ε α → EchoService κ α → Prop
  | accept {k : κ} : k ∉ base → s k = none →
      Step base s (.accept k) (Function.update s k (some []))
  | read {k : κ} (asked : Nat) (bytes : List α) : s k = some [] →
      Step base s (.read k asked (.ok bytes)) (Function.update s k (some bytes))
  | readFailed {k : κ} (asked : Nat) (e : ε) : s k = some [] →
      Step base s (.read k asked (.error e)) s
  | write {k : κ} {owed : List α} (n : Nat) : s k = some owed →
      Step base s (.write k owed (.ok n)) (Function.update s k (some (owed.drop n)))
  | writeFailed {k : κ} {owed : List α} (e : ε) : s k = some owed →
      Step base s (.write k owed (.error e)) s
  | close {k : κ} {owed : List α} : s k = some owed →
      Step base s (.close k) (Function.update s k none)

/-- The service, starting with nobody connected. -/
def system (κ ε α : Type*) [DecidableEq κ] (base : Finset κ) :
    System (EchoService κ α) (Call κ ε α) where
  init s := s = idle
  next := Step base

/-! ## The state in the transcript -/

/-- The connections open after the transcript, each with what it has not got back. -/
def ofTranscript (base : Finset κ) (h : Transcript κ ε α) : EchoService κ α := fun k =>
  if k ∈ clients base h then some ((received h k).drop (echoed h k).length) else none

/-- Lawful, half duplex, and about no key that was open before. -/
structure Orderly (base : Finset κ) (h : Transcript κ ε α) : Prop where
  lawful : Lawful base h
  halfDuplex : HalfDuplex h
  own : ∀ c ∈ h, c.key ∉ base

section Transcripts

variable {base : Finset κ} {h : Transcript κ ε α} {c : Call κ ε α} {k : κ}
  {pending : List α} {s t : EchoService κ α}

/-- What is conserved is what has not come back. -/
theorem drop_of_conserved (hc : Conserved h k pending) :
    (received h k).drop (echoed h k).length = pending := by
  rw [← hc, List.drop_left]

theorem ofTranscript_of_conserved (hk : k ∈ clients base h) (hc : Conserved h k pending) :
    ofTranscript base h k = some pending := by
  rw [ofTranscript, if_pos hk, drop_of_conserved hc]

theorem ofTranscript_eq_none (hk : k ∉ clients base h) : ofTranscript base h k = none :=
  if_neg hk

/-- The transcript's state says of an open connection what it is owed, and of no other
connection anything. -/
theorem ofTranscript_eq_some (hd : HalfDuplex h) :
    ofTranscript base h k = some pending ↔ k ∈ clients base h ∧ Conserved h k pending := by
  constructor
  · intro hsome
    have hk : k ∈ clients base h := by
      by_contra hk
      rw [ofTranscript_eq_none hk] at hsome
      cases hsome
    obtain ⟨rest, hrest⟩ := hd.isPrefix k
    have hc : Conserved h k rest := hrest
    rw [ofTranscript_of_conserved hk hc] at hsome
    cases hsome
    exact ⟨hk, hc⟩
  · rintro ⟨hk, hc⟩
    exact ofTranscript_of_conserved hk hc

/-- A call changes the state at its key. -/
theorem ofTranscript_cons (base : Finset κ) (hclients : ∀ j, j ≠ c.key →
    (j ∈ clients base (c :: h) ↔ j ∈ clients base h)) :
    ofTranscript base (c :: h) =
      Function.update (ofTranscript base h) c.key (ofTranscript base (c :: h) c.key) := by
  funext j
  by_cases hj : j = c.key
  · rw [hj, Function.update_self]
  · rw [Function.update_of_ne hj]
    unfold ofTranscript
    rw [received_cons_ne (Ne.symm hj), echoed_cons_ne (Ne.symm hj)]
    simp only [hclients j hj]

theorem Orderly.tail (ho : Orderly base (c :: h)) : Orderly base h where
  lawful := ho.lawful.2
  halfDuplex := ho.halfDuplex.2
  own d hd := ho.own d (List.mem_cons_of_mem c hd)

/-- A key of an orderly call that opens nothing is a client's. -/
theorem Orderly.mem_clients (ho : Orderly base (c :: h)) (hc : c.opens = false) :
    c.key ∈ clients base h := by
  have hlawful := ho.lawful.1
  refine Transcript.mem_clients.mpr ⟨?_, ho.own c List.mem_cons_self⟩
  cases c with
  | accept k => cases hc
  | read k asked res => exact hlawful
  | write k chunk res => exact hlawful
  | close k => exact hlawful.1

theorem ofTranscript_accept (hk : k ∉ base) :
    ofTranscript base (.accept k :: h) = Function.update (ofTranscript base h) k (some []) := by
  have hmem : k ∈ clients base (.accept k :: h) := by
    rw [clients_accept hk]
    exact Finset.mem_insert_self k _
  have hcons := ofTranscript_cons (c := .accept k) (h := h) base fun j hj => by
    rw [clients_accept hk, Finset.mem_insert]
    exact or_iff_right hj
  rwa [show (Call.accept k : Call κ ε α).key = k from rfl,
    ofTranscript_of_conserved hmem (Conserved.accept h k)] at hcons

theorem ofTranscript_close :
    ofTranscript base (.close k :: h) = Function.update (ofTranscript base h) k none := by
  have hnot : k ∉ clients base (.close k :: h) := by
    rw [clients_close]
    exact Finset.notMem_erase k _
  have hcons := ofTranscript_cons (c := .close k) (h := h) base fun j hj => by
    rw [clients_close, Finset.mem_erase]
    exact and_iff_right hj
  rwa [show (Call.close k : Call κ ε α).key = k from rfl, ofTranscript_eq_none hnot] at hcons

theorem ofTranscript_read {asked : Nat} {bytes : List α} (hk : k ∈ clients base h)
    (hc : Conserved h k []) :
    ofTranscript base (.read k asked (.ok bytes) :: h) =
      Function.update (ofTranscript base h) k (some bytes) := by
  have hcons := ofTranscript_cons (c := .read k asked (.ok bytes)) (h := h) base
    fun _ _ => Iff.rfl
  have hopen : k ∈ clients base (.read k asked (.ok bytes) :: h) := hk
  rwa [show (Call.read k asked (.ok bytes) : Call κ ε α).key = k from rfl,
    ofTranscript_of_conserved hopen (hc.read asked bytes)] at hcons

theorem ofTranscript_write {n : Nat} (hk : k ∈ clients base h) (hc : Conserved h k pending) :
    ofTranscript base (.write k pending (.ok n) :: h) =
      Function.update (ofTranscript base h) k (some (pending.drop n)) := by
  have hcons := ofTranscript_cons (c := .write k pending (.ok n)) (h := h) base
    fun _ _ => Iff.rfl
  have hopen : k ∈ clients base (.write k pending (.ok n) :: h) := hk
  rwa [show (Call.write k pending (.ok n) : Call κ ε α).key = k from rfl,
    ofTranscript_of_conserved hopen (hc.write n)] at hcons

/-- A call that failed leaves the state. -/
theorem ofTranscript_failed (hc : c.failed = true) :
    ofTranscript base (c :: h) = ofTranscript base h := by
  obtain ⟨hopens, hdelivered, htaken⟩ := Call.failed_idle hc
  have hclients : clients base (c :: h) = clients base h := by
    cases c with
    | accept k => cases hc
    | read k asked res => rfl
    | write k chunk res => rfl
    | close k => cases hc
  funext j
  unfold ofTranscript
  simp only [hclients, received, echoed, hopens, hdelivered, htaken, List.append_nil,
    Bool.false_eq_true, if_false, ite_self]

/-- Every call of the service keeps the transcript orderly. -/
theorem Step.orderly (ho : Orderly base h) (hstep : Step base (ofTranscript base h) c t) :
    Orderly base (c :: h) ∧ t = ofTranscript base (c :: h) := by
  have hknows : ∀ {j owed}, ofTranscript base h j = some owed →
      j ∈ openKeys base h ∧ j ∉ base ∧ j ∈ clients base h ∧ Conserved h j owed := fun hj =>
    have hmem := (ofTranscript_eq_some ho.halfDuplex).mp hj
    have hopen := Transcript.mem_clients.mp hmem.1
    ⟨hopen.1, hopen.2, hmem⟩
  have hgrows : LawfulCall base c h → HalfDuplexCall c h → c.key ∉ base →
      Orderly base (c :: h) := fun hl hd hkey =>
    ⟨⟨hl, ho.lawful⟩, ⟨hd, ho.halfDuplex⟩, List.forall_mem_cons.mpr ⟨hkey, ho.own⟩⟩
  cases hstep with
  | @accept k hbase hnone =>
      have hopen : k ∉ openKeys base h := by
        intro hopen
        have hmem := Transcript.mem_clients.mpr ⟨hopen, hbase⟩
        rw [ofTranscript, if_pos hmem] at hnone
        cases hnone
      exact ⟨hgrows hopen trivial hbase, (ofTranscript_accept hbase).symm⟩
  | read asked bytes hsome =>
      obtain ⟨hopen, hbase, hmem, hc⟩ := hknows hsome
      exact ⟨hgrows hopen hc hbase, (ofTranscript_read hmem hc).symm⟩
  | readFailed asked e hsome =>
      obtain ⟨hopen, hbase, _, hc⟩ := hknows hsome
      exact ⟨hgrows hopen hc hbase, (ofTranscript_failed rfl).symm⟩
  | write n hsome =>
      obtain ⟨hopen, hbase, hmem, hc⟩ := hknows hsome
      exact ⟨hgrows hopen hc hbase, (ofTranscript_write hmem hc).symm⟩
  | writeFailed e hsome =>
      obtain ⟨hopen, hbase, _, hc⟩ := hknows hsome
      exact ⟨hgrows hopen hc hbase, (ofTranscript_failed rfl).symm⟩
  | close hsome =>
      obtain ⟨hopen, hbase, _⟩ := hknows hsome
      exact ⟨hgrows ⟨hopen, hbase⟩ trivial hbase, ofTranscript_close.symm⟩

/-- And the service makes every call with which the transcript stays orderly. -/
theorem Orderly.step (ho : Orderly base (c :: h)) :
    Step base (ofTranscript base h) c (ofTranscript base (c :: h)) := by
  cases c with
  | accept k =>
      have hbase : k ∉ base := ho.own _ List.mem_cons_self
      have hnew : k ∉ clients base h := fun hk =>
        ho.lawful.1 (Transcript.mem_clients.mp hk).1
      rw [ofTranscript_accept hbase]
      exact .accept hbase (ofTranscript_eq_none hnew)
  | read k asked res =>
      have hk : k ∈ clients base h := ho.mem_clients rfl
      have hc : Conserved h k [] := ho.halfDuplex.1
      have hsome := ofTranscript_of_conserved hk hc
      rcases res with e | bytes
      · rw [ofTranscript_failed rfl]
        exact .readFailed asked e hsome
      · rw [ofTranscript_read hk hc]
        exact .read asked bytes hsome
  | write k chunk res =>
      have hk : k ∈ clients base h := ho.mem_clients rfl
      have hc : Conserved h k chunk := ho.halfDuplex.1
      have hsome := ofTranscript_of_conserved hk hc
      rcases res with e | n
      · rw [ofTranscript_failed rfl]
        exact .writeFailed e hsome
      · rw [ofTranscript_write hk hc]
        exact .write n hsome
  | close k =>
      have hk : k ∈ clients base h := ho.mem_clients rfl
      obtain ⟨owed, howed⟩ := ho.tail.halfDuplex.isPrefix k
      rw [ofTranscript_close]
      exact .close (ofTranscript_of_conserved hk howed)

theorem ofTranscript_nil : ofTranscript base ([] : Transcript κ ε α) = idle := by
  funext k
  exact ofTranscript_eq_none (by simp [clients_nil])

/-- The runs of the service are the orderly transcripts, and such a transcript says
where it leads. -/
theorem run_iff : (system κ ε α base).Run idle h.reverse s ↔
    Orderly base h ∧ s = ofTranscript base h := by
  induction h generalizing s with
  | nil =>
      constructor
      · intro hrun
        cases hrun
        exact ⟨⟨trivial, trivial, fun c hc => absurd hc List.not_mem_nil⟩,
          ofTranscript_nil.symm⟩
      · rintro ⟨_, rfl⟩
        rw [ofTranscript_nil]
        exact .nil _
  | cons c h ih =>
      rw [List.reverse_cons]
      constructor
      · intro hrun
        obtain ⟨u, hu, hnext⟩ := hrun.of_snoc
        obtain ⟨ho, rfl⟩ := ih.mp hu
        exact hnext.orderly ho
      · rintro ⟨ho, rfl⟩
        have hrun := ih.mpr ⟨ho.tail, rfl⟩
        exact hrun.snoc ho.step

/-! ## Refining the service -/

/-- The calls made are a run of the service, to a state that says of each key what
`holds` says. -/
def Refines (base : Finset κ) (h : Transcript κ ε α) (holds : κ → List α → Prop) : Prop :=
  ∃ service, (system κ ε α base).Run idle h.reverse service ∧
    ∀ k pending, service k = some pending ↔ holds k pending

/-- That is: the calls are orderly, and a key is held with what it is owed, when it is
a client's, and else not. -/
theorem refines_iff {holds : κ → List α → Prop} :
    Refines base h holds ↔ Orderly base h ∧
      ∀ k pending, holds k pending ↔ k ∈ clients base h ∧ Conserved h k pending := by
  constructor
  · rintro ⟨service, hrun, hholds⟩
    obtain ⟨ho, rfl⟩ := run_iff.mp hrun
    refine ⟨ho, fun k pending => ?_⟩
    rw [← hholds, ofTranscript_eq_some ho.halfDuplex]
  · rintro ⟨ho, hholds⟩
    refine ⟨ofTranscript base h, run_iff.mpr ⟨ho, rfl⟩, fun k pending => ?_⟩
    rw [ofTranscript_eq_some ho.halfDuplex, hholds]

/-- A server whose tables tell what each of its clients is owed refines the service. -/
theorem Orderly.refines (ho : Orderly base h) {holds : κ → List α → Prop}
    (hsound : ∀ k pending, holds k pending → k ∈ clients base h ∧ Conserved h k pending)
    (hfound : ∀ k ∈ clients base h, ∃ pending, holds k pending) :
    Refines base h holds := by
  refine refines_iff.mpr ⟨ho, fun k pending => ⟨hsound k pending, ?_⟩⟩
  rintro ⟨hk, hc⟩
  obtain ⟨pending', hheld⟩ := hfound k hk
  have hc' := (hsound k pending' hheld).2
  rwa [← drop_of_conserved hc, drop_of_conserved hc']

/-! ## Staying away from other keys -/

/-- An accepted key is new, so it is none of those open before. -/
theorem own_accept (hl : Lawful base h) (hown : ∀ c ∈ h, c.key ∉ base)
    (hk : k ∉ openKeys base h) : ∀ c ∈ (.accept k :: h : Transcript κ ε α), c.key ∉ base :=
  List.forall_mem_cons.mpr ⟨fun hbase => hk (hl.base_subset hbase), hown⟩

/-- Calls on a client are on none of them either. -/
theorem own_append {past : Transcript κ ε α} (hown : ∀ c ∈ h, c.key ∉ base)
    (hk : k ∈ clients base h) (hpast : ∀ c ∈ past, c.key = k) :
    ∀ c ∈ past ++ h, c.key ∉ base := by
  intro c hc
  rcases List.mem_append.mp hc with hc | hc
  · rw [hpast c hc]
    exact (Transcript.mem_clients.mp hk).2
  · exact hown c hc

theorem own_session {h' : Transcript κ ε α} (hown : ∀ c ∈ h, c.key ∉ base)
    (hk : k ∈ clients base h) (hs : Session k h h') : ∀ c ∈ h', c.key ∉ base := by
  obtain ⟨past, rfl, hkeys⟩ := hs.exists_calls
  exact own_append hown hk hkeys

end Transcripts

end EchoService

end SysLab.Foundation
