import SysLab.PartB.EpollServerTable

/-!
# Events of the `epoll` server are never stale

A batch is collected once and worked off event by event, while slots are freed
and refilled behind the raw pointers that the rest of the batch still holds.
Here a run that starts with `epoll_wait` and has not returned to it is
followed: until its event comes up, the descriptor of an event is neither
accepted nor closed, so its slot was neither freed nor handed on in between.
-/

namespace SysLab.PartB.EpollServer

open SysLab.Foundation
open SysLab.Foundation.Transcript

/-- The event is not an answer of `epoll_wait`. -/
def Event.InBatch : Event → Prop
  | .wait _ => False
  | _ => True

/-- What is pending after `dispatch` is what was handed to it. -/
theorem dispatch_pending (evs : List Ready) :
    (dispatch evs).pending <:+ evs := by
  cases evs with
  | nil => exact List.suffix_refl []
  | cons ev rest =>
      rcases hptr : ev.ptr with _ | i
      · simp [dispatch, hptr, Pc.pending]
      · simp [dispatch, hptr, Pc.pending]

section Batch

variable {maxClients : Nat} {base : Finset Int} {listenFd : Int} {s t : State}

/-- Inside a batch, a step leaves pending at most what it found pending, less
the event it handled. -/
theorem step_pending (h : Inv maxClients base listenFd s) {e : Event}
    (he : e.InBatch) (hstep : step maxClients base s e = some t)
    (hk : KernelOk base t.trace) :
    t.pc.pending <:+ s.pc.pending ∧
      ∀ i ev rest, s.pc = .event i ev rest → t.pc.pending <:+ rest := by
  cases e with
  | wait res => exact he.elim
  | accept res refused =>
      obtain ⟨rest, hpc, rfl⟩ := step_accept hstep
      constructor
      · rcases acceptStep_cases h.core res refused hk with
          ⟨e, _, _, heq⟩ | ⟨_, heq⟩ | ⟨e, _, _, _, heq⟩ |
          ⟨fd, _, _, _, heq⟩ | ⟨fd, i, _, _, _, _, _, heq⟩
        · rw [heq, hpc]
          exact dispatch_pending rest
        · rw [heq]
        · rw [heq]
          exact List.nil_suffix
        · rw [heq]
        · rw [heq]
      · intro i ev rest' hev
        rw [hpc] at hev
        cases hev
  | conn rd wr =>
      obtain ⟨i, ev, rest, hpc, rfl⟩ := step_conn hstep
      obtain ⟨_, _, heq⟩ := eventStep_cases h hpc rd wr hk
      have hrest : (eventStep s i ev rest rd wr).pc.pending <:+ rest := by
        rw [heq]
        exact dispatch_pending rest
      constructor
      · rw [hpc]
        exact hrest.trans (List.suffix_cons ev rest)
      · intro j ev' rest' hpc'
        rw [hpc] at hpc'
        cases hpc'
        exact hrest

/-- The descriptor of a pending event is open. -/
theorem Inv.pending_open (hlisten : listenFd ∈ base)
    (h : Inv maxClients base listenFd s) {ev : Ready}
    (hev : ev ∈ s.pc.pending) : ev.fd ∈ openKeys base s.trace := by
  rcases h.pending.pointsRight ev hev with ⟨_, hfd⟩ | ⟨i, _, hi, hfd, hpos⟩
  · rw [hfd]
    exact h.core.lawful.base_subset hlisten
  · have hlive : 0 ≤ (s.conns i).fd := by omega
    rw [← hfd]
    exact (Finset.mem_sdiff.mp (h.core.mem_clients hi hlive)).1

/-- A step inside a batch does not touch the ledger of a descriptor whose
event is still pending after it. -/
theorem step_ledger (hlisten : listenFd ∈ base)
    (h : Inv maxClients base listenFd s) {e : Event} (he : e.InBatch)
    (hstep : step maxClients base s e = some t) (hk : KernelOk base t.trace)
    {ev : Ready} (hev : ev ∈ t.pc.pending) :
    ev ∈ s.pc.pending ∧
      accepts ev.fd t.trace = accepts ev.fd s.trace ∧
      closes ev.fd t.trace = closes ev.fd s.trace := by
  obtain ⟨hsub, hrest⟩ := step_pending h he hstep hk
  have hold : ev ∈ s.pc.pending := hsub.subset hev
  constructor
  · exact hold
  · apply (step_moves h hstep hk).ledger_eq (h.pending_open hlisten hold)
    intro i ev' rest hpc hfd
    have hnodup := h.pending.distinct
    rw [hpc] at hnodup
    apply (List.nodup_cons.mp hnodup).1
    rw [hfd]
    exact List.mem_map.mpr ⟨ev, (hrest i ev' rest hpc).subset hev, rfl⟩

end Batch

section Runs

variable {maxClients : Nat} {inherited : Finset Int} {listenFd epfd : Int}

/-- The same for every run inside one batch. -/
theorem batch_ledger {s t : State} {es : List Event}
    (hrun : (system maxClients inherited listenFd epfd).Run s es t)
    (hs : (system maxClients inherited listenFd epfd).Reachable s)
    (hes : ∀ e ∈ es, e.InBatch) {ev : Ready} (hev : ev ∈ t.pc.pending) :
    ev ∈ s.pc.pending ∧
      accepts ev.fd t.trace = accepts ev.fd s.trace ∧
      closes ev.fd t.trace = closes ev.fd s.trace := by
  induction hrun with
  | nil s => exact ⟨hev, rfl, rfl⟩
  | @cons s u t e es hnext hrest ih =>
      obtain ⟨hu, haccepts, hcloses⟩ := ih (hs.step hnext)
        (fun e' he' => hes e' (List.mem_cons_of_mem e he')) hev
      obtain ⟨hold, haccepts', hcloses'⟩ := step_ledger
        (Finset.mem_insert_self listenFd _) (reachable_inv hs)
        (hes e List.mem_cons_self) hnext.1 hnext.2.1 hu
      exact ⟨hold, haccepts.trans haccepts', hcloses.trans hcloses'⟩

/-- The client descriptors registered with the `epoll` instance are the
descriptors stored in the slots, and no two slots store the same one. -/
def InterestMatchesTable (maxClients : Nat) (listenFd : Int) (s : State) :
    Prop :=
  (∀ fd, fd ≠ listenFd → ((s.interest fd).isSome ↔
    ∃ i, i < maxClients ∧ (s.conns i).fd = fd ∧ 0 ≤ fd)) ∧
  ∀ i j, i < maxClients → j < maxClients → 0 ≤ (s.conns i).fd →
    (s.conns i).fd = (s.conns j).fd → i = j

theorem Inv.interestMatchesTable {base : Finset Int} {s : State}
    (h : Inv maxClients base listenFd s) :
    InterestMatchesTable maxClients listenFd s := by
  constructor
  · intro fd hfd
    constructor
    · intro hreg
      rcases h.core.registered fd hreg with heq | hclient
      · exact absurd heq hfd
      · obtain ⟨i, hi, hlive, hkey⟩ :=
          h.core.table.exists_slot (Finset.mem_coe.mpr hclient)
        exact ⟨i, hi, hkey, hkey ▸ hlive⟩
    · rintro ⟨i, hi, rfl, hlive⟩
      obtain ⟨events, hreg⟩ := (h.core.slots i hi).registered hlive
      have hreg' : s.interest (s.conns i).fd = some ⟨events, some i⟩ := hreg
      rw [hreg']
      rfl
  · intro i j hi hj hlive heq
    have hlive' : 0 ≤ (s.conns j).fd := by omega
    exact h.core.table.eq_of_key_eq hi hlive hj hlive' heq

/-- Only `epoll_wait` and `accept` end the event loop: neither
`set_nonblocking` nor `arm_connection` does. -/
theorem exit_message {s : State}
    (hs : (system maxClients inherited listenFd epfd).Reachable s) {why : Exit}
    (hpc : s.pc = .exited why) :
    why.message = "epoll_wait" ∨ why.message = "accept" := by
  cases hs with
  | start h₀ =>
      cases h₀
      cases hpc
  | step hs hnext =>
      rcases exited_cases (reachable_inv hs) hnext.1 hnext.2.1 hpc with
        ⟨errno, _, _, rfl⟩ | ⟨errno, refused, _, _, _, rfl⟩
      · exact .inl rfl
      · exact .inr rfl

/-- A slot holds the descriptor. -/
def Held (maxClients : Nat) (s : State) (fd : Int) : Prop :=
  ∃ i, i < maxClients ∧ (s.conns i).fd = fd ∧ 0 ≤ fd

/-- A descriptor in a slot has been accepted once more than closed, any other
one exactly as often. -/
theorem Inv.ledger {base : Finset Int} {s : State}
    (h : Inv maxClients base listenFd s) (fd : Int) :
    (Held maxClients s fd →
      accepts fd s.trace = closes fd s.trace + 1) ∧
    (¬ Held maxClients s fd → accepts fd s.trace = closes fd s.trace) := by
  constructor
  · rintro ⟨i, hi, rfl, hlive⟩
    obtain ⟨hopen, hbase⟩ := Finset.mem_sdiff.mp (h.core.mem_clients hi hlive)
    have hledger := h.core.lawful.accepts_eq hbase
    rw [if_pos hopen] at hledger
    exact hledger
  · intro hfree
    by_cases hbase : fd ∈ base
    · obtain ⟨haccepts, hcloses⟩ := h.core.lawful.base_untouched hbase
      omega
    · have hnotOpen : fd ∉ openKeys base s.trace := by
        intro hopen
        obtain ⟨i, hi, hlive, hkey⟩ := h.core.table.exists_slot
          (Finset.mem_coe.mpr (Finset.mem_sdiff.mpr ⟨hopen, hbase⟩))
        exact hfree ⟨i, hi, hkey, hkey ▸ hlive⟩
      have hledger := h.core.lawful.accepts_eq hbase
      rw [if_neg hnotOpen] at hledger
      exact hledger

/-- No event is stale.  In every reachable state the connection event at hand
points to a slot that holds the descriptor it was generated for, and within
the batch it came from this descriptor was neither accepted nor closed;
interest list and table hold the same descriptors; a descriptor is closed once
for each time it was accepted, unless a slot still holds it, and never while
it is not open; and `arm_connection` never fails. -/
theorem never_stale {s : State}
    (hs : (system maxClients inherited listenFd epfd).Reachable s) :
    (∀ i ev rest, s.pc = .event i ev rest →
      i < maxClients ∧ (s.conns i).fd = ev.fd ∧ 0 ≤ ev.fd ∧
      ∀ s₀ batch es,
        (system maxClients inherited listenFd epfd).Reachable s₀ →
        (system maxClients inherited listenFd epfd).Run s₀
          (.wait (.ok batch) :: es) s →
        (∀ e ∈ es, e.InBatch) →
        ev ∈ batch ∧ accepts ev.fd s.trace = accepts ev.fd s₀.trace ∧
          closes ev.fd s.trace = closes ev.fd s₀.trace) ∧
    InterestMatchesTable maxClients listenFd s ∧
    (∀ fd, (Held maxClients s fd →
        accepts fd s.trace = closes fd s.trace + 1) ∧
      (¬ Held maxClients s fd → accepts fd s.trace = closes fd s.trace)) ∧
    Lawful (startFds inherited listenFd epfd) s.trace ∧
    ∀ errno, s.pc ≠ .exited ⟨"epoll_ctl mod", errno⟩ := by
  have hinv := reachable_inv hs
  refine ⟨?_, hinv.interestMatchesTable, hinv.ledger, hinv.core.lawful, ?_⟩
  · intro i ev rest hpc
    obtain ⟨hi, hfd, hpos⟩ := hinv.event_pointsRight hpc
    refine ⟨hi, hfd, hpos, ?_⟩
    intro s₀ batch es hs₀ hrun hes
    have hev : ev ∈ s.pc.pending := by
      rw [hpc]
      exact List.mem_cons_self
    cases hrun with
    | @cons _ s₁ _ _ _ hnext hrest =>
        obtain ⟨hbatch, haccepts, hcloses⟩ :=
          batch_ledger hrest (hs₀.step hnext) hes hev
        obtain ⟨hstep, _, _⟩ := hnext
        obtain ⟨_, rfl⟩ := step_wait hstep
        exact ⟨(dispatch_pending batch).subset hbatch, haccepts, hcloses⟩
  · intro errno hpc
    rcases exit_message hs hpc with hmessage | hmessage
    · simp at hmessage
    · simp at hmessage

/-- A client on descriptor 5 has sent something; before its event comes up,
the listener's event refuses another client. -/
theorem refused_before_event_reachable :
    ∃ s, (system 1 {0, 1, 2} 3 4).Reachable s ∧
      s.pc = .event 0 ⟨5, EPOLLIN, some 0⟩ [] ∧
      s.trace = [.close 6, .accept 6, .accept 5] := by
  have h₀ : (system 1 {0, 1, 2} 3 4).Reachable (initial 3) := .start rfl
  have h₁ := h₀.step (e := .wait (.ok [⟨3, EPOLLIN, none⟩]))
    ⟨rfl, by decide, by decide⟩
  have h₂ := h₁.step (e := .accept (.ok 5) none) ⟨rfl, by decide, by decide⟩
  have h₃ := h₂.step (e := .accept (.error .EAGAIN) none)
    ⟨rfl, by decide, by decide⟩
  have h₄ := h₃.step
    (e := .wait (.ok [⟨3, EPOLLIN, none⟩, ⟨5, EPOLLIN, some 0⟩]))
    ⟨rfl, by decide, by decide⟩
  have h₅ := h₄.step (e := .accept (.ok 6) none) ⟨rfl, by decide, by decide⟩
  have h₆ := h₅.step (e := .accept (.error .EAGAIN) none)
    ⟨rfl, by decide, by decide⟩
  exact ⟨_, h₆, rfl, rfl⟩

/-- `never_stale` there: the event finds its descriptor, and the descriptor of
the refused client is closed as often as it was accepted. -/
theorem never_stale_refused :
    ∃ s, (system 1 {0, 1, 2} 3 4).Reachable s ∧
      s.pc = .event 0 ⟨5, EPOLLIN, some 0⟩ [] ∧ (s.conns 0).fd = 5 ∧
      accepts 6 s.trace = 1 ∧ accepts 6 s.trace = closes 6 s.trace := by
  obtain ⟨s, hs, hpc, htrace⟩ := refused_before_event_reachable
  obtain ⟨hevent, _, hledger, _, _⟩ := never_stale hs
  obtain ⟨_, hfd, _, _⟩ := hevent 0 _ [] hpc
  have hfree : ¬ Held 1 s 6 := by
    rintro ⟨i, hi, hsix, _⟩
    have hzero : i = 0 := by omega
    rw [hzero, hfd] at hsix
    cases hsix
  refine ⟨s, hs, hpc, hfd, ?_, (hledger 6).2 hfree⟩
  rw [htrace]
  rfl

end Runs

end SysLab.PartB.EpollServer
