import SysLab.PartB.PollServerTable

/-!
# The slots of the `poll` server are isolated

What the scan does to a slot is a matter of that slot and its client alone, and
a slot filled by the accept loop is left alone until `poll` has written its
`revents` anew: `add_connection` clears them, so that the scan of the same
iteration, which meets the slot on its way, skips it.
-/

namespace SysLab.PartB.PollServer

open SysLab.Foundation
open SysLab.Foundation.Transcript

variable {maxClients : Nat} {base : Finset Int} {listenFd : Int} {s t u v : State}

/-- The scan changes the slot it is at. -/
theorem scanStep_frame {i j : Nat} (hne : j ≠ i) (rd : Except Errno (List UInt8))
    (wr : Except Errno Nat) :
    (scanStep maxClients s i rd wr).pfds j = s.pfds j ∧
      (scanStep maxClients s i rd wr).conns j = s.conns j :=
  ⟨Function.update_of_ne hne _ _, Function.update_of_ne hne _ _⟩

/-- Its calls are on that slot's client. -/
theorem scanStep_calls {i : Nat} (h : Inv maxClients base s) (hi : 1 ≤ i)
    (him : i ≤ maxClients) (rd : Except Errno (List UInt8)) (wr : Except Errno Nat)
    (hk : KernelOk base (scanStep maxClients s i rd wr).trace) :
    ∃ past, (scanStep maxClients s i rd wr).trace = past ++ s.trace ∧
      ∀ c ∈ past, 0 ≤ (s.conns i).fd ∧ c.key = (s.conns i).fd := by
  by_cases hfd : (s.conns i).fd < 0
  · have hidle : serveSlot (s.slot i) rd wr = s.slot i := by
      simp [serveSlot, State.slot, hfd]
    refine ⟨[], ?_, fun _ hc => absurd hc List.not_mem_nil⟩
    show (serveSlot (s.slot i) rd wr).trace = s.trace
    rw [hidle]
    rfl
  · have hlive : 0 ≤ (s.conns i).fd := by omega
    cases (serveSlot_spec (h.slots i hi him) hlive hk).2 with
    | kept _ hsess =>
        obtain ⟨past, htrace, hkeys⟩ := hsess.exists_calls
        exact ⟨past, htrace, fun c hc => ⟨hlive, hkeys c hc⟩⟩
    | closed _ hsess htrace =>
        obtain ⟨past, hpast, hkeys⟩ := hsess.exists_calls
        refine ⟨.close (s.conns i).fd :: past, ?_, ?_⟩
        · show (serveSlot (s.slot i) rd wr).trace = _
          rw [htrace, hpast]
          rfl
        · intro c hc
          rcases List.mem_cons.mp hc with rfl | hc
          · exact ⟨hlive, rfl⟩
          · exact ⟨hlive, hkeys c hc⟩

/-- Between the states `t` and `u` nothing was done to slot `j` or to `fd`. -/
structure LeftAlone (j : Nat) (fd : Int) (t u : State) : Prop where
  pfd : u.pfds j = t.pfds j
  conn : u.conns j = t.conns j
  calls : ∃ past, u.trace = past ++ t.trace ∧ ∀ c ∈ past, c.key ≠ fd

theorem LeftAlone.refl (j : Nat) (fd : Int) (t : State) : LeftAlone j fd t t :=
  ⟨rfl, rfl, [], rfl, fun _ hc => absurd hc List.not_mem_nil⟩

theorem LeftAlone.trans {j : Nat} {fd : Int} (h : LeftAlone j fd t u)
    (h' : LeftAlone j fd u v) : LeftAlone j fd t v := by
  obtain ⟨past, htrace, hkeys⟩ := h.calls
  obtain ⟨past', htrace', hkeys'⟩ := h'.calls
  refine ⟨h'.pfd.trans h.pfd, h'.conn.trans h.conn, past' ++ past, ?_, ?_⟩
  · rw [htrace', htrace, List.append_assoc]
  · intro c hc
    rcases List.mem_append.mp hc with hc | hc
    · exact hkeys' c hc
    · exact hkeys c hc

section Quiet

variable {j : Nat} {fd : Int}

/-- The accept loop fills another slot and calls on another descriptor. -/
theorem acceptStep_leaves (h : Inv maxClients base s) (hj : 1 ≤ j)
    (hjm : j ≤ maxClients) (hlive : 0 ≤ (s.conns j).fd) (res : Except Errno Int)
    (hk : KernelOk base (acceptStep maxClients base s res).trace) :
    LeftAlone j (s.conns j).fd s (acceptStep maxClients base s res) := by
  rcases res with e | fd
  · unfold acceptStep
    dsimp only
    split
    · exact ⟨rfl, rfl, (LeftAlone.refl j _ s).calls⟩
    · split
      · exact .refl j _ s
      · exact ⟨rfl, rfl, (LeftAlone.refl j _ s).calls⟩
  · have hopen : (s.conns j).fd ∈ openKeys base s.trace :=
      (mem_clients.mp (h.mem_clients hj hjm hlive)).1
    have hset : setNonblocking (openKeys base (.accept fd :: s.trace)) fd =
        none := setNonblocking_of_mem (Finset.mem_insert_self fd _)
    unfold acceptStep at hk ⊢
    simp only [hset] at hk ⊢
    split at hk
    · rename_i pfds conns hadd
      have hne : fd ≠ (s.conns j).fd := fun heq => hk.1.2 (heq ▸ hopen)
      unfold addConnection at hadd
      split at hadd
      · rename_i i hfirst
        have hfree := (firstFree_some hfirst).2.2
        have hji : j ≠ i := by
          rintro rfl
          exact absurd hlive (not_le.mpr (of_decide_eq_true hfree))
        cases hadd
        exact ⟨Function.update_of_ne hji _ _, Function.update_of_ne hji _ _,
          [.accept fd], rfl, List.forall_mem_singleton.mpr hne⟩
      · cases hadd
    · have hne : fd ≠ (s.conns j).fd := fun heq => hk.2.1.2 (heq ▸ hopen)
      exact ⟨rfl, rfl, [.close fd, .accept fd], rfl,
        List.forall_mem_cons.mpr ⟨hne, List.forall_mem_singleton.mpr hne⟩⟩

/-- Until `poll` returns a step leaves a slot without `revents` alone. -/
theorem step_leaves {e : Event} (h : Inv maxClients base s) (hj : 1 ≤ j)
    (hjm : j ≤ maxClients) (hlive : 0 ≤ (s.conns j).fd)
    (hquiet : (s.pfds j).revents = noFlags) (hpoll : ∀ r, e ≠ .poll (.ok r))
    (hstep : step maxClients base s e = some t) (hk : KernelOk base t.trace) :
    LeftAlone j (s.conns j).fd s t := by
  cases e with
  | poll res =>
      obtain ⟨_, rfl⟩ := step_poll hstep
      rcases res with errno | revents
      · unfold pollStep
        dsimp only
        split
        · exact .refl j _ s
        · exact ⟨rfl, rfl, (LeftAlone.refl j _ s).calls⟩
      · exact absurd rfl (hpoll revents)
  | accept res =>
      obtain ⟨_, rfl⟩ := step_accept hstep
      exact acceptStep_leaves h hj hjm hlive res hk
  | slot rd wr =>
      obtain ⟨i, hpc, rfl⟩ := step_slot hstep
      obtain ⟨hi, him⟩ := h.scanning i hpc
      by_cases hji : j = i
      · have hidle : serveSlot (s.slot j) rd wr = s.slot j := by
          simp [serveSlot, State.slot, hquiet]
        subst hji
        refine ⟨?_, ?_, ?_⟩
        · show Function.update s.pfds j (serveSlot (s.slot j) rd wr).pfd j = s.pfds j
          rw [Function.update_self, hidle]
          rfl
        · show Function.update s.conns j (serveSlot (s.slot j) rd wr).conn j = s.conns j
          rw [Function.update_self, hidle]
          rfl
        · show ∃ past, (serveSlot (s.slot j) rd wr).trace = past ++ s.trace ∧ _
          rw [hidle]
          exact (LeftAlone.refl j _ s).calls
      · obtain ⟨hpfd, hconn⟩ := scanStep_frame (s := s) hji rd wr
        obtain ⟨past, htrace, hkeys⟩ := scanStep_calls h hi him rd wr hk
        refine ⟨hpfd, hconn, past, htrace, fun c hc heq => ?_⟩
        obtain ⟨hlivei, hkey⟩ := hkeys c hc
        exact h.fd_ne hi him hlivei hj hjm hlive hji (hkey.symm.trans heq)

/-- So does any run until then. -/
theorem run_leaves {es : List Event} (hs : (system maxClients base listenFd).Reachable s)
    (hj : 1 ≤ j) (hjm : j ≤ maxClients) (hlive : 0 ≤ (s.conns j).fd)
    (hquiet : (s.pfds j).revents = noFlags)
    (hrun : (system maxClients base listenFd).Run s es t)
    (hpoll : ∀ e ∈ es, ∀ r, e ≠ .poll (.ok r)) : LeftAlone j (s.conns j).fd s t := by
  induction hrun with
  | nil s => exact .refl j _ s
  | @cons s u t e es hnext hrest ih =>
      obtain ⟨he, hes⟩ := List.forall_mem_cons.mp hpoll
      have hfirst := step_leaves (reachable_inv hs) hj hjm hlive hquiet he hnext.1 hnext.2
      have hrest' := ih (hs.step hnext) (hfirst.conn ▸ hlive) (hfirst.pfd ▸ hquiet) hes
      rw [hfirst.conn] at hrest'
      exact hfirst.trans hrest'

/-- A client that is in the table after it was accepted sits in a slot without
`revents`. -/
theorem accepted_quiet (h : Inv maxClients base s) (hj : 1 ≤ j) (hjm : j ≤ maxClients)
    (hfd : ((acceptStep maxClients base s (.ok fd)).conns j).fd = fd)
    (hk : KernelOk base (acceptStep maxClients base s (.ok fd)).trace) :
    0 ≤ fd ∧ ((acceptStep maxClients base s (.ok fd)).pfds j).revents = noFlags := by
  have hset : setNonblocking (openKeys base (.accept fd :: s.trace)) fd =
      none := setNonblocking_of_mem (Finset.mem_insert_self fd _)
  -- the kernel hands out a number that no slot holds
  have hnew : 0 ≤ fd → fd ∉ openKeys base s.trace → (s.conns j).fd ≠ fd := by
    rintro hpos hfresh rfl
    exact hfresh (mem_clients.mp (h.mem_clients hj hjm hpos)).1
  unfold acceptStep at hfd hk ⊢
  simp only [hset] at hfd hk ⊢
  split at hk
  · rename_i pfds conns hadd
    obtain ⟨⟨hpos, hfresh⟩, _⟩ := hk
    simp only [hadd] at hfd ⊢
    unfold addConnection at hadd
    split at hadd
    · rename_i i _
      cases hadd
      by_cases hji : j = i
      · subst hji
        rw [Function.update_self]
        exact ⟨hpos, rfl⟩
      · rw [Function.update_of_ne hji] at hfd
        exact absurd hfd (hnew hpos hfresh)
    · cases hadd
  · rename_i hadd
    obtain ⟨_, ⟨hpos, hfresh⟩, _⟩ := hk
    simp only [hadd] at hfd
    exact absurd hfd (hnew hpos hfresh)

end Quiet

/-! ## Both tables are consistent -/

/-- A live slot watches for input exactly when it is drained, and for output
exactly when bytes are left. -/
theorem SlotOk.events_iff {x : Slot} (h : SlotOk x) (hfd : 0 ≤ x.conn.fd) :
    (x.pfd.events = POLLIN ∨ x.pfd.events = POLLOUT) ∧
    (x.pfd.events = POLLIN ↔ x.conn.used = 0 ∧ x.conn.sent = 0) ∧
    (x.pfd.events = POLLOUT ↔ x.conn.sent < x.conn.used ∧ x.conn.used ≤ bufferSize) := by
  rcases h.busy hfd with ⟨hevents, hused, hsent⟩ | ⟨hevents, hlt, hcap⟩
  · rw [hevents]
    refine ⟨.inl rfl, ⟨fun _ => ⟨hused, hsent⟩, fun _ => rfl⟩, ?_, fun hlt => ?_⟩
    · intro h
      cases h
    · omega
  · rw [hevents]
    refine ⟨.inr rfl, ⟨?_, fun hzero => ?_⟩, fun _ => ⟨hlt, hcap⟩, fun _ => rfl⟩
    · intro h
      cases h
    · omega

/-- Accepted descriptors are closed exactly once, unless they are still open. -/
theorem Inv.ledger (h : Inv maxClients base s) (fd : Int) :
    accepts fd s.trace =
      closes fd s.trace + if fd ∈ clients base s.trace then 1 else 0 := by
  by_cases hbase : fd ∈ base
  · obtain ⟨haccepts, hcloses⟩ := h.lawful.base_untouched hbase
    have hnot : fd ∉ clients base s.trace := fun hmem =>
      (Transcript.mem_clients.mp hmem).2 hbase
    rw [haccepts, hcloses, if_neg hnot]
  · rw [h.lawful.accepts_eq hbase]
    simp only [Transcript.mem_clients, hbase, not_false_eq_true, and_true]

/-- Consistency and isolation of the tables in every reachable state: in each
slot the two arrays, the cursors and the requested events agree; the descriptors
in the table are distinct and are the clients accepted and not yet closed, and
each call was made on an open descriptor; a slot of the scan changes no other
slot; and a client just entered in the table is left alone, its `revents` being
clear, until `poll` returns. -/
theorem tables_consistent (hs : (system maxClients base listenFd).Reachable s) :
    (∀ i, 1 ≤ i → i ≤ maxClients →
      (s.pfds i).fd = (s.conns i).fd ∧
      ((s.conns i).fd < 0 → (s.pfds i).events = noFlags ∧
        (s.conns i).used = 0 ∧ (s.conns i).sent = 0) ∧
      (0 ≤ (s.conns i).fd →
        ((s.pfds i).events = POLLIN ∨ (s.pfds i).events = POLLOUT) ∧
        ((s.pfds i).events = POLLIN ↔ (s.conns i).used = 0 ∧ (s.conns i).sent = 0) ∧
        ((s.pfds i).events = POLLOUT ↔
          (s.conns i).sent < (s.conns i).used ∧ (s.conns i).used ≤ bufferSize))) ∧
    (∀ i j, 1 ≤ i → i ≤ maxClients → 1 ≤ j → j ≤ maxClients → 0 ≤ (s.conns i).fd →
      (s.conns i).fd = (s.conns j).fd → i = j) ∧
    (∀ fd, fd ∈ clients base s.trace ↔
      ∃ i, 1 ≤ i ∧ i ≤ maxClients ∧ 0 ≤ fd ∧ (s.conns i).fd = fd) ∧
    (Lawful base s.trace ∧ ∀ fd, accepts fd s.trace =
      closes fd s.trace + if fd ∈ clients base s.trace then 1 else 0) ∧
    (∀ i rd wr t, s.pc = .scan i →
      (system maxClients base listenFd).next s (.slot rd wr) t →
      ∀ j, j ≠ i → t.pfds j = s.pfds j ∧ t.conns j = s.conns j) ∧
    (∀ fd t j, (system maxClients base listenFd).next s (.accept (.ok fd)) t →
      1 ≤ j → j ≤ maxClients → (t.conns j).fd = fd →
      (t.pfds j).revents = noFlags ∧
      ∀ es u, (system maxClients base listenFd).Run t es u →
        (∀ e ∈ es, ∀ r, e ≠ .poll (.ok r)) → LeftAlone j fd t u) := by
  have hinv := reachable_inv hs
  refine ⟨fun i hi him => ?_, ?_, ?_, ⟨hinv.lawful, hinv.ledger⟩, ?_, ?_⟩
  · have hslot := hinv.slots i hi him
    exact ⟨hslot.fd_eq, hslot.free, hslot.events_iff⟩
  · intro i j hi him hj hjm hlive heq
    have hlive' : 0 ≤ (s.conns j).fd := heq ▸ hlive
    exact hinv.table.eq_of_key_eq ⟨hi, him⟩ hlive ⟨hj, hjm⟩ hlive' heq
  · intro fd
    constructor
    · intro hmem
      obtain ⟨i, ⟨hi, him⟩, hlive, hkey⟩ :=
        hinv.table.exists_slot (Finset.mem_coe.mpr hmem)
      exact ⟨i, hi, him, hkey ▸ hlive, hkey⟩
    · rintro ⟨i, hi, him, hlive, rfl⟩
      exact hinv.mem_clients hi him hlive
  · intro i rd wr t hpc hnext j hji
    obtain ⟨i', hpc', rfl⟩ := step_slot hnext.1
    rw [hpc] at hpc'
    cases hpc'
    exact scanStep_frame hji rd wr
  · intro fd t j hnext hj hjm hfd
    obtain ⟨_, rfl⟩ := step_accept hnext.1
    obtain ⟨hpos, hquiet⟩ := accepted_quiet hinv hj hjm hfd hnext.2
    refine ⟨hquiet, fun es u hrun hpoll => ?_⟩
    have hleft := run_leaves (hs.step hnext) hj hjm (hfd.symm ▸ hpos) hquiet hrun hpoll
    rwa [hfd] at hleft

/-- A client enters slot 1 while its `revents` are set from before. -/
theorem tables_consistent_accepted :
    ∃ s t, (system 1 {0, 1, 2, 3} 3).Reachable s ∧ (s.pfds 1).revents = POLLIN ∧
      (system 1 {0, 1, 2, 3} 3).next s (.accept (.ok 4)) t ∧
      (t.conns 1).fd = 4 ∧ (t.pfds 1).revents = noFlags := by
  have h₀ : (system 1 {0, 1, 2, 3} 3).Reachable (initial 3) := .start rfl
  have h₁ := h₀.step (e := .poll (.ok fun _ => POLLIN)) ⟨rfl, by decide⟩
  have hnext : (system 1 {0, 1, 2, 3} 3).next
      (pollStep 1 (initial 3) (.ok fun _ => POLLIN)) (.accept (.ok 4))
      (acceptStep 1 {0, 1, 2, 3} (pollStep 1 (initial 3) (.ok fun _ => POLLIN)) (.ok 4)) :=
    ⟨rfl, by decide⟩
  have hquiet := (tables_consistent h₁).2.2.2.2.2 4 _ 1 hnext (Nat.le_refl 1)
    (Nat.le_refl 1) rfl
  exact ⟨_, _, h₁, rfl, hnext, rfl, hquiet.1⟩

end SysLab.PartB.PollServer
