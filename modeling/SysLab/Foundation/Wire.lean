import SysLab.Foundation.Transcript

/-!
# One connection between a client and a server

A `Wire` is a connection seen from outside: the bytes under way in either
direction, and whether the server has accepted it, under which key.  The client
sends and receives directly; what the server does is read off its calls
(`serve`, `serveAll`), whatever else it does in between.

* `Carries w sent got` — every byte the client has sent is fetched by the server
  or under way to it, every byte of a reply has been received or is under way
  back.
* `Tracks base w h` — the wire agrees with the server's transcript `h`; it does so
  after every lawful half-duplex call.
* `Carries.settled` — a client that has received as much as it has sent finds
  nothing under way, and has received what it sent.
-/

namespace SysLab.Foundation

/-- Whether the server knows the connection, and under which key. -/
inductive Link (κ : Type*)
  | waiting
  | established (k : κ)
  | closed
  deriving DecidableEq

/-- The bytes of a connection: under way to the server and back, and all that the
server has fetched and replied. -/
structure Wire (κ : Type*) (α : Type*) where
  link : Link κ
  inbound : List α
  outbound : List α
  fetched : List α
  replied : List α

namespace Wire

variable {κ : Type*} {ε : Type*} {α : Type*}

/-- The client has connected, the server has not accepted. -/
def fresh : Wire κ α := ⟨.waiting, [], [], [], []⟩

/-- The client's `write` takes `xs`. -/
def send (w : Wire κ α) (xs : List α) : Wire κ α :=
  { w with inbound := w.inbound ++ xs }

/-- The client's `read` returns `xs`, if these are the next bytes. -/
def receive [DecidableEq α] (w : Wire κ α) (xs : List α) : Option (Wire κ α) :=
  if xs <+: w.outbound then some { w with outbound := w.outbound.drop xs.length }
  else none

variable [DecidableEq κ] [DecidableEq α]

/-- What a call of the server does; `none` where it returns other bytes than the
next ones.  `mine` says whether `accept` hands out this connection. -/
def serve (mine : Bool) (w : Wire κ α) : Call κ ε α → Option (Wire κ α)
  | .accept k =>
      if w.link = .waiting ∧ mine then some { w with link := .established k } else some w
  | .read k _ (.ok xs) =>
      if w.link = .established k then
        if xs <+: w.inbound then
          some { w with
            inbound := w.inbound.drop xs.length
            fetched := w.fetched ++ xs }
        else none
      else some w
  | .write k chunk (.ok n) =>
      if w.link = .established k then
        some { w with
          outbound := w.outbound ++ chunk.take n
          replied := w.replied ++ chunk.take n }
      else some w
  | .close k => if w.link = .established k then some { w with link := .closed } else some w
  | _ => some w

/-- What several calls do, the newest first. -/
def serveAll (mine : Bool) (w : Wire κ α) : Transcript κ ε α → Option (Wire κ α)
  | [] => some w
  | c :: past => (serveAll mine w past).bind fun v => v.serve mine c

/-! ## Every byte is somewhere -/

/-- The client has sent `sent` and received `got`. -/
structure Carries (w : Wire κ α) (sent got : List α) : Prop where
  sent : sent = w.fetched ++ w.inbound
  replied : w.replied = got ++ w.outbound

section Carries

variable {w v : Wire κ α} {sent got xs : List α} {mine : Bool}

omit [DecidableEq κ] [DecidableEq α] in
theorem fresh_carries : Carries (fresh : Wire κ α) [] [] := ⟨rfl, rfl⟩

omit [DecidableEq κ] [DecidableEq α] in
theorem Carries.send (h : Carries w sent got) (xs : List α) :
    Carries (w.send xs) (sent ++ xs) got := by
  refine ⟨?_, h.replied⟩
  rw [h.sent, List.append_assoc]
  rfl

omit [DecidableEq κ] in
theorem Carries.receive (h : Carries w sent got) (hv : w.receive xs = some v) :
    Carries v sent (got ++ xs) := by
  unfold Wire.receive at hv
  split at hv
  · rename_i hnext
    cases hv
    obtain ⟨rest, hrest⟩ := hnext
    refine ⟨h.sent, ?_⟩
    rw [h.replied, ← hrest, List.append_assoc, List.drop_left]
  · cases hv

theorem Carries.serve (h : Carries w sent got) {c : Call κ ε α}
    (hv : w.serve mine c = some v) : Carries v sent got := by
  cases c with
  | accept k =>
      simp only [Wire.serve] at hv
      split at hv
      · cases hv
        exact ⟨h.sent, h.replied⟩
      · cases hv
        exact h
  | read k asked res =>
      rcases res with e | xs
      · cases hv
        exact h
      · simp only [Wire.serve] at hv
        split at hv
        · split at hv
          · rename_i _ hnext
            cases hv
            obtain ⟨rest, hrest⟩ := hnext
            refine ⟨?_, h.replied⟩
            rw [h.sent, ← hrest, List.append_assoc, List.drop_left]
          · cases hv
        · cases hv
          exact h
  | write k chunk res =>
      rcases res with e | n
      · cases hv
        exact h
      · simp only [Wire.serve] at hv
        split at hv
        · cases hv
          refine ⟨h.sent, ?_⟩
          rw [h.replied, List.append_assoc]
        · cases hv
          exact h
  | close k =>
      simp only [Wire.serve] at hv
      split at hv
      · cases hv
        exact ⟨h.sent, h.replied⟩
      · cases hv
        exact h

theorem Carries.serveAll (h : Carries w sent got) {past : Transcript κ ε α}
    (hv : w.serveAll mine past = some v) : Carries v sent got := by
  induction past generalizing v with
  | nil =>
      cases hv
      exact h
  | cons c past ih =>
      obtain ⟨u, hu, hv⟩ := Option.bind_eq_some_iff.mp hv
      exact (ih hu).serve hv

omit [DecidableEq κ] [DecidableEq α] in
/-- Where replies are made of what was fetched, a client that has received as much
as it has sent finds nothing under way. -/
theorem Carries.settled (h : Carries w sent got) (hreply : w.replied <+: w.fetched)
    (hlength : sent.length = got.length) :
    got = sent ∧ w.inbound = [] ∧ w.outbound = [] ∧ w.replied = w.fetched := by
  have hsent := congrArg List.length h.sent
  have hreplied := congrArg List.length h.replied
  have hle := hreply.length_le
  rw [List.length_append] at hsent hreplied
  have hin : w.inbound = [] := List.eq_nil_of_length_eq_zero (by omega)
  have hout : w.outbound = [] := List.eq_nil_of_length_eq_zero (by omega)
  have heq : w.replied = w.fetched := hreply.eq_of_length (by omega)
  refine ⟨?_, hin, hout, heq⟩
  have hall := h.replied
  rw [hout, List.append_nil] at hall
  rw [h.sent, hin, List.append_nil, ← heq, hall]

end Carries

/-! ## The wire and the server's transcript -/

open Transcript

/-- The wire agrees with what the server has done. -/
structure Tracks (base : Finset κ) (w : Wire κ α) (h : Transcript κ ε α) : Prop where
  waiting : w.link = .waiting → w.fetched = [] ∧ w.replied = []
  established : ∀ k, w.link = .established k →
    k ∈ clients base h ∧ w.fetched = received h k ∧ w.replied = echoed h k
  isPrefix : w.replied <+: w.fetched

section Tracks

variable {base : Finset κ} {w v : Wire κ α} {h : Transcript κ ε α} {mine : Bool}

omit [DecidableEq α] in
theorem fresh_tracks : Tracks base (fresh : Wire κ α) ([] : Transcript κ ε α) where
  waiting _ := ⟨rfl, rfl⟩
  established k hk := by cases hk
  isPrefix := List.prefix_refl []

omit [DecidableEq α] in
/-- A call that the wire does not notice. -/
theorem Tracks.idle (ht : Tracks base w h) {c : Call κ ε α}
    (hc : ∀ k, w.link = .established k →
      k ∈ clients base (c :: h) ∧ received (c :: h) k = received h k ∧
        echoed (c :: h) k = echoed h k) :
    Tracks base w (c :: h) where
  waiting := ht.waiting
  established k hk := by
    obtain ⟨hmem, hreceived, hechoed⟩ := hc k hk
    rw [hreceived, hechoed]
    exact ⟨hmem, (ht.established k hk).2⟩
  isPrefix := ht.isPrefix

omit [DecidableEq α] in
/-- Among them are reads and writes on other keys, and those that fail. -/
theorem Tracks.quiet (ht : Tracks base w h) {c : Call κ ε α}
    (hkey : ∀ k, w.link = .established k → k ∈ clients base (c :: h))
    (hidle : c.opens = false)
    (hother : ∀ k, w.link = .established k → c.key ≠ k ∨
      c.delivered = [] ∧ c.taken = []) : Tracks base w (c :: h) := by
  refine ht.idle fun k hk => ⟨hkey k hk, ?_⟩
  rcases hother k hk with hne | ⟨hdelivered, htaken⟩
  · exact ⟨received_cons_ne hne, echoed_cons_ne hne⟩
  · simp [received, echoed, hidle, hdelivered, htaken]

/-- The wire agrees after every lawful half-duplex call. -/
theorem Tracks.serve (ht : Tracks base w h) {c : Call κ ε α}
    (hlawful : Lawful base (c :: h)) (hhalf : HalfDuplex (c :: h))
    (hv : w.serve mine c = some v) : Tracks base v (c :: h) := by
  cases c with
  | accept k =>
      have hnew : k ∉ openKeys base h := hlawful.1
      have hbase : k ∉ base := fun hk => hnew (Lawful.base_subset hlawful.2 hk)
      simp only [Wire.serve] at hv
      split at hv
      · rename_i hmine
        cases hv
        obtain ⟨hfetched, hreplied⟩ := ht.waiting hmine.1
        refine ⟨fun hk => (by cases hk), fun k' hk' => ?_, ht.isPrefix⟩
        cases hk'
        refine ⟨?_, ?_, ?_⟩
        · rw [clients_accept hbase]
          exact Finset.mem_insert_self k _
        · simp [received, Call.key, Call.opens, hfetched]
        · simp [echoed, Call.key, Call.opens, hreplied]
      · cases hv
        refine ht.idle fun k' hk' => ?_
        have hopen := (ht.established k' hk').1
        have hne : k ≠ k' := by
          rintro rfl
          exact hnew (mem_clients.mp hopen).1
        refine ⟨?_, received_cons_ne hne, echoed_cons_ne hne⟩
        rw [clients_accept hbase]
        exact Finset.mem_insert_of_mem hopen
  | read k asked res =>
      rcases res with e | xs
      · cases hv
        exact ht.quiet (fun k' hk' => (ht.established k' hk').1) rfl
          fun k' _ => .inr ⟨rfl, rfl⟩
      · simp only [Wire.serve] at hv
        split at hv
        · rename_i hlink
          split at hv
          · cases hv
            obtain ⟨hopen, hfetched, hreplied⟩ := ht.established k hlink
            refine ⟨fun hk => ?_, fun k' hk' => ?_,
              ht.isPrefix.trans (List.prefix_append _ _)⟩
            · rw [hlink] at hk
              cases hk
            · rw [hlink] at hk'
              cases hk'
              refine ⟨hopen, ?_, ?_⟩
              · simp [received, Call.key, Call.opens, Call.delivered, hfetched]
              · simp [echoed, Call.key, Call.opens, Call.taken, hreplied]
          · cases hv
        · rename_i hlink
          cases hv
          refine ht.quiet (fun k' hk' => (ht.established k' hk').1) rfl fun k' hk' => .inl ?_
          rintro rfl
          exact hlink hk'
  | write k chunk res =>
      rcases res with e | n
      · cases hv
        exact ht.quiet (fun k' hk' => (ht.established k' hk').1) rfl
          fun k' _ => .inr ⟨rfl, rfl⟩
      · simp only [Wire.serve] at hv
        split at hv
        · rename_i hlink
          cases hv
          obtain ⟨hopen, hfetched, hreplied⟩ := ht.established k hlink
          have hreceived : received (.write k chunk (.ok n) :: h) k = w.fetched := by
            simp [received, Call.key, Call.opens, Call.delivered, hfetched]
          have hechoed : echoed (.write k chunk (.ok n) :: h) k =
              w.replied ++ chunk.take n := by
            simp [echoed, Call.key, Call.opens, Call.taken, hreplied]
          refine ⟨fun hk => ?_, fun k' hk' => ?_, ?_⟩
          · rw [hlink] at hk
            cases hk
          · rw [hlink] at hk'
            cases hk'
            exact ⟨hopen, hreceived.symm, hechoed.symm⟩
          · have hall := hhalf.isPrefix k
            rw [hreceived, hechoed] at hall
            exact hall
        · rename_i hlink
          cases hv
          refine ht.quiet (fun k' hk' => (ht.established k' hk').1) rfl fun k' hk' => .inl ?_
          rintro rfl
          exact hlink hk'
  | close k =>
      simp only [Wire.serve] at hv
      split at hv
      · cases hv
        exact ⟨fun hk => (by cases hk), fun k' hk' => (by cases hk'), ht.isPrefix⟩
      · rename_i hlink
        cases hv
        refine ht.quiet (fun k' hk' => ?_) rfl fun k' _ => .inr ⟨rfl, rfl⟩
        have hne : k' ≠ k := by
          rintro rfl
          exact hlink hk'
        rw [clients_close]
        exact Finset.mem_erase.mpr ⟨hne, (ht.established k' hk').1⟩

theorem Tracks.serveAll (ht : Tracks base w h) {past : Transcript κ ε α}
    (hlawful : Lawful base (past ++ h)) (hhalf : HalfDuplex (past ++ h))
    (hv : w.serveAll mine past = some v) : Tracks base v (past ++ h) := by
  induction past generalizing v with
  | nil =>
      cases hv
      exact ht
  | cons c past ih =>
      obtain ⟨u, hu, hv⟩ := Option.bind_eq_some_iff.mp hv
      exact (ih hlawful.2 hhalf.2 hu).serve hlawful hhalf hv

end Tracks

end Wire

end SysLab.Foundation
