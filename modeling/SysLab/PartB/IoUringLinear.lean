import SysLab.PartB.IoUringOwnership

/-!
# Linear ownership in the `io_uring` server

What the ledger says about a state between two steps, in the terms of the
source: one outstanding `OP_ACCEPT`, one outstanding operation for each
connection, nothing released twice and nothing leaked, and no freed pointer
ever used.
-/

namespace SysLab.PartB.IoUringServer

open SysLab.Foundation
open SysLab.Foundation.Transcript

/-! ## Counting what is held -/

/-- How often a value occurs among the images of a partial function. -/
theorem count_filterMap {α β : Type*} [DecidableEq β] (f : α → Option β) (b : β)
    (m : Multiset α) :
    (m.filterMap f).count b = m.countP (fun a => f a = some b) := by
  induction m using Multiset.induction_on with
  | empty => rfl
  | cons a m ih =>
      rw [filterMap_cons_toList, Multiset.count_add, Multiset.countP_cons, ih,
        Nat.add_comm]
      rcases h : f a with _ | x
      · simp
      · by_cases hx : x = b
        · simp [hx]
        · simp [hx, Ne.symm hx]

/-- In a finite set, seen as a multiset, everything occurs once. -/
theorem count_val {α : Type*} [DecidableEq α] (S : Finset α) (a : α) :
    S.val.count a = if a ∈ S then 1 else 0 := by
  by_cases ha : a ∈ S
  · rw [if_pos ha]
    exact Multiset.count_eq_one_of_mem S.nodup ha
  · rw [if_neg ha]
    exact Multiset.count_eq_zero_of_notMem ha

/-- Two members that satisfy what only one member satisfies are equal. -/
theorem eq_of_countP_le_one {α : Type*} {p : α → Prop} [DecidablePred p]
    {m : Multiset α} (h : m.countP p ≤ 1) {a b : α} (ha : a ∈ m) (hb : b ∈ m)
    (hpa : p a) (hpb : p b) : a = b := by
  obtain ⟨rest, rfl⟩ := Multiset.exists_cons_of_mem ha
  rw [Multiset.countP_cons, if_pos hpa] at h
  rcases Multiset.mem_cons.mp hb with heq | hrest
  · exact heq.symm
  · have hpos := Multiset.countP_pos.mpr ⟨b, hrest, hpb⟩
    omega

/-! ## Linear ownership -/

/-- The operation is a `RECV` or `SEND` on descriptor `fd`. -/
def Sqe.Works (fd : Int) (op : Sqe) : Prop := op.opcode ≠ .accept ∧ op.fd = fd

instance (fd : Int) : DecidablePred (Sqe.Works fd) :=
  fun _ => inferInstanceAs (Decidable (_ ∧ _))

/-- Request ownership is linear.  Outstanding operations are those in flight
and those completed whose completion the loop has not taken; `s.pc` holds the
request, and the descriptor, of the completion being handled. -/
structure Linear (base : Finset Int) (s : State) : Prop where
  /-- Exactly one `ACCEPT` is outstanding. -/
  oneAccept : s.ops.countP (fun op => op.opcode = .accept) = 1
  /-- Exactly one operation is outstanding for a live connection, -/
  oneOwner : ∀ c k, s.conns c = some k →
    s.ops.countP (fun op => op.addr = some c) = 1
  /-- and it is a `RECV` or `SEND` on the descriptor the connection has open. -/
  owner : ∀ c k, s.conns c = some k → ∀ op ∈ s.ops, op.addr = some c →
    op.Works k.fd ∧ k.fd ∈ clients base s.trace
  /-- Every outstanding operation has its request object, and a live connection
  unless it is an `ACCEPT`. -/
  valid : ∀ op ∈ s.ops, s.requests op.userData = some op.request ∧
    (op.opcode ≠ .accept → ∃ c k, op.addr = some c ∧ s.conns c = some k)
  /-- No two operations are outstanding on one buffer, -/
  oneBuffer : ∀ c, s.ops.countP (fun op => op.addr = some c) ≤ 1
  /-- nor on one descriptor, -/
  oneFd : ∀ fd, s.ops.countP (Sqe.Works fd) ≤ 1
  /-- nor do two live connections share a descriptor. -/
  distinct : ∀ c c' k k', s.conns c = some k → s.conns c' = some k' →
    k.fd = k'.fd → c = c'
  /-- Request objects are released only while allocated, and as often as
  allocated but for those outstanding or in hand. -/
  requests : Lawful ∅ s.requestLog ∧ ∀ a, accepts a s.requestLog =
    closes a s.requestLog + (s.pc.request + s.ops.map Sqe.userData).count a
  /-- So are connection objects, -/
  conns : Lawful ∅ s.connLog ∧ ∀ c, accepts c s.connLog =
    closes c s.connLog + s.ops.countP (fun op => op.addr = some c)
  /-- and accepted descriptors. -/
  fds : Lawful base s.trace ∧ ∀ fd, fd ∉ base → accepts fd s.trace =
    closes fd s.trace + (s.pc.opened + s.queued.filterMap Cqe.opened).count fd +
      s.ops.countP (Sqe.Works fd)

section Ledger

variable {base : Finset Int} {s : State}

/-- Working on a descriptor is having it as the client descriptor. -/
theorem works_iff {op : Sqe} {fd : Int} :
    op.clientFd = some fd ↔ op.Works fd := by
  by_cases hopcode : op.opcode = .accept
  · simp [Sqe.clientFd, Sqe.Works, hopcode]
  · simp [Sqe.clientFd, Sqe.Works, hopcode]

/-- A live connection object is referenced by one outstanding operation. -/
theorem Inv.count_addr (h : Inv base s) (c : Nat) :
    s.ops.countP (fun op => op.addr = some c) =
      if c ∈ openKeys ∅ s.connLog then 1 else 0 := by
  have hconns := h.conns
  rw [zero_add] at hconns
  rw [← count_filterMap, hconns, count_val]

/-- An open client descriptor is in one place. -/
theorem Inv.count_fd (h : Inv base s) (fd : Int) :
    (s.pc.opened + s.queued.filterMap Cqe.opened).count fd +
      s.ops.countP (Sqe.Works fd) =
      if fd ∈ clients base s.trace then 1 else 0 := by
  have hcount : s.ops.countP (Sqe.Works fd) =
      (s.ops.filterMap Sqe.clientFd).count fd := by
    rw [count_filterMap]
    exact Multiset.countP_congr rfl fun op _ => propext works_iff.symm
  rw [hcount, ← Multiset.count_add, add_assoc, h.fds, count_val]

/-- The operation of a live connection. -/
theorem Inv.owner (h : Inv base s) {c : Nat} {k : Connection}
    (hk : s.conns c = some k) {op : Sqe} (hop : op ∈ s.ops)
    (haddr : op.addr = some c) : op.Works k.fd ∧ k.fd ∈ clients base s.trace := by
  have hback := h.backed op hop
  have hopcode : op.opcode ≠ .accept := by
    intro hacc
    rw [hback.accept hacc] at haddr
    cases haddr
  obtain ⟨c', k', haddr', hk', hfd, _⟩ := hback.client hopcode
  rw [haddr'] at haddr
  cases haddr
  rw [hk] at hk'
  cases hk'
  have hworks : op.Works k.fd := ⟨hopcode, hfd.symm⟩
  have hmem : k.fd ∈ (clients base s.trace).val := by
    rw [← h.fds]
    refine Multiset.mem_add.mpr (.inr (Multiset.mem_add.mpr (.inr ?_)))
    exact (Multiset.mem_filterMap _ _).mpr ⟨op, hop, works_iff.mpr hworks⟩
  exact ⟨hworks, hmem⟩

/-- A live connection has an outstanding operation. -/
theorem Inv.exists_owner (h : Inv base s) {c : Nat} {k : Connection}
    (hk : s.conns c = some k) : ∃ op ∈ s.ops, op.addr = some c := by
  have hcount := h.count_addr c
  rw [if_pos (h.heap c k hk)] at hcount
  apply Multiset.countP_pos.mp
  omega

/-- The ledger, read off. -/
theorem Inv.linear (h : Inv base s) : Linear base s := by
  have hle : ∀ fd, s.ops.countP (Sqe.Works fd) ≤ 1 := by
    intro fd
    have hcount := h.count_fd fd
    split at hcount
    · omega
    · omega
  constructor
  · have hacceptor := h.acceptor
    omega
  · intro c k hk
    rw [h.count_addr, if_pos (h.heap c k hk)]
  · intro c k hk op hop haddr
    exact h.owner hk hop haddr
  · intro op hop
    have hback := h.backed op hop
    refine ⟨hback.request, ?_⟩
    intro hopcode
    obtain ⟨c, k, haddr, hk, _, _⟩ := hback.client hopcode
    exact ⟨c, k, haddr, hk⟩
  · intro c
    rw [h.count_addr]
    split
    · omega
    · omega
  · exact hle
  · intro c c' k k' hk hk' hfd
    obtain ⟨op, hop, haddr⟩ := h.exists_owner hk
    obtain ⟨op', hop', haddr'⟩ := h.exists_owner hk'
    have hworks := (h.owner hk hop haddr).1
    have hworks' := (h.owner hk' hop' haddr').1
    rw [← hfd] at hworks'
    have heq := eq_of_countP_le_one (hle k.fd) hop hop' hworks hworks'
    rw [heq, haddr'] at haddr
    exact (Option.some.inj haddr).symm
  · refine ⟨h.requestLawful, ?_⟩
    intro a
    rw [h.requests, count_val]
    exact h.requestLawful.accepts_eq (Finset.notMem_empty a)
  · refine ⟨h.connLawful, ?_⟩
    intro c
    rw [h.count_addr]
    exact h.connLawful.accepts_eq (Finset.notMem_empty c)
  · refine ⟨h.lawful, ?_⟩
    intro fd hbase
    rw [add_assoc, h.count_fd, h.lawful.accepts_eq hbase]
    simp [mem_clients, hbase]

end Ledger

/-! ## No freed pointer is used -/

/-- A backed completion is handled without using a freed pointer. -/
theorem Handled.defined {listenFd : Int} {s t : State} {cqe : Cqe}
    {calloc : Option Nat} {enter : Option Errno} {out : Except Halt State}
    (h : Handled listenFd s cqe calloc enter out) (hs : s.halt = none) :
    (t.run out).halt ≠ some .undefined := by
  rcases out with halt | u
  · cases h with
    | failed why _ => simp [State.run]
  · show u.halt ≠ some .undefined
    simp [h.halt, hs]

theorem Connected.defined {s t : State} {req : Nat} {result : Int}
    {callocConn calloc : Option Nat} {enter : Option Errno}
    {out : Except Halt State}
    (h : Connected s req result callocConn calloc enter out)
    (hs : s.halt = none) : (t.run out).halt ≠ some .undefined := by
  rcases out with halt | u
  · cases h with
    | failed why _ => simp [State.run]
  · show u.halt ≠ some .undefined
    simp [h.halt, hs]

/-- The loop stops in `die_errno` or not at all. -/
theorem step_defined {base : Finset Int} {s t : State} (h : Inv base s)
    {cqEntries : Nat} {listenFd : Int} {e : Event}
    (hstep : step cqEntries listenFd s e = some t) :
    t.halt ≠ some .undefined := by
  obtain ⟨hhalt, hstepped⟩ := step_stepped h hstep
  cases hstepped with
  | completed n out op u res _ _ hperformed =>
      have hu : u.halt = none := hperformed.halt.trans hhalt
      rw [(post_same cqEntries u ⟨op.userData, res, op⟩).1, hu]
      simp
  | flushed cqe rest _ _ =>
      show s.halt ≠ some .undefined
      simp [hhalt]
  | waited enter _ _ =>
      rcases enter with _ | errno
      · simp [waitStep, hhalt]
      · simp [waitStep]
  | entered _ _ =>
      show s.halt ≠ some .undefined
      simp [hhalt]
  | published _ _ =>
      show s.halt ≠ some .undefined
      simp [hhalt]
  | handled cqe rest calloc enter out _ _ hhandled =>
      exact hhandled.defined hhalt
  | connected req result callocConn calloc enter out _ hconnected =>
      exact hconnected.defined hhalt

/-! ## The server -/

/-- In every reachable state ownership is linear, and no freed pointer has been
used. -/
theorem requests_linear {cqEntries : Nat} {base : Finset Int} {listenFd : Int}
    {s : State} (hs : (system cqEntries base listenFd).Reachable s) :
    Linear base s ∧ s.halt ≠ some .undefined := by
  constructor
  · exact (reachable_inv hs).linear
  · apply hs.induct
    · rintro s ⟨a, ha⟩
      obtain ⟨op, _, _, _, _, _, rfl⟩ := request_ok (fun _ => rfl) ha
      show blank.halt ≠ some .undefined
      simp [blank]
    · rintro s e t hreach _ ⟨hstep, _, _⟩
      exact step_defined (reachable_inv hreach) hstep

/-- `requests_linear` with a client at descriptor `5`, its connection at address
`200`, and its first `RECV` in flight. -/
theorem requests_linear_connected :
    ∃ s, (system 512 {0, 1, 2, 3, 4} 3).Reachable s ∧
      (∃ k, s.conns 200 = some k ∧ k.fd = 5) ∧
      Linear {0, 1, 2, 3, 4} s ∧ s.halt ≠ some .undefined := by
  have hs : (system 512 {0, 1, 2, 3, 4} 3).Reachable _ :=
    ((((System.Reachable.start (started_init 512 _ 3 100)).step
      (e := .complete 0 (.accept (.ok 5))) ⟨rfl, by decide, by decide⟩).step
      (e := .turn) ⟨rfl, by decide, by decide⟩).step
      (e := .handle (some 101) none) ⟨rfl, by decide, by decide⟩).step
      (e := .connect (some 200) (some 102) none) ⟨rfl, by decide, by decide⟩
  exact ⟨_, hs, ⟨newConnection 5, rfl, rfl⟩, requests_linear hs⟩

end SysLab.PartB.IoUringServer
