import Mathlib.Algebra.Order.Group.Multiset
import Mathlib.Data.Multiset.Filter
import Mathlib.Tactic.Abel
import SysLab.PartB.IoUringServer

/-!
# Ownership in the `io_uring` server

Every request object, connection object and client descriptor is in exactly
one place: with an operation the kernel has not reported yet, or in the hands
of the code that is handling a completion.  `Ledger` says so, with the
resources in hand as parameters; each operation of the source that takes,
passes on or gives back a resource has one rule.  The branches of the
completion loop are compositions of these rules.
-/

namespace SysLab.PartB.IoUringServer

open SysLab.Foundation
open SysLab.Foundation.Transcript

/-! ## Where the resources are -/

/-- The request object an operation was submitted for. -/
def Sqe.request (op : Sqe) : Request := ⟨op.opcode, op.fd, op.addr⟩

/-- The client descriptor an operation works on. -/
def Sqe.clientFd (op : Sqe) : Option Int :=
  if op.opcode = .accept then none else some op.fd

/-- The descriptor a completed `accept` has opened. -/
def Cqe.opened (cqe : Cqe) : Option Int :=
  if cqe.op.opcode = .accept ∧ 0 ≤ cqe.res then some cqe.res else none

/-- Completions the loop has not taken yet. -/
def State.queued (s : State) : Multiset Cqe := s.cq + s.overflow

/-- Outstanding operations: in flight, or completed and not taken yet. -/
def State.ops (s : State) : Multiset Sqe := s.inflight + s.queued.map Cqe.op

theorem mem_ops_of_inflight {s : State} {op : Sqe} (h : op ∈ s.inflight) :
    op ∈ s.ops :=
  Multiset.mem_add.mpr (.inl h)

theorem mem_ops_of_queued {s : State} {cqe : Cqe} (h : cqe ∈ s.queued) :
    cqe.op ∈ s.ops :=
  Multiset.mem_add.mpr (.inr (Multiset.mem_map_of_mem _ h))

theorem popCqe_queued {s : State} {cqe : Cqe} {rest : List Cqe}
    (hcq : s.cq = cqe :: rest) : s.queued = cqe ::ₘ (s.popCqe rest).queued := by
  rw [State.queued, hcq]
  rfl

theorem mem_queued_of_cq {s : State} {cqe : Cqe} {rest : List Cqe}
    (hcq : s.cq = cqe :: rest) : cqe ∈ s.queued := by
  rw [popCqe_queued hcq]
  exact Multiset.mem_cons_self cqe _

/-- What a completion carries to a live connection: its request is the one
submitted, and its connection holds its descriptor. -/
structure Backed (requests : Nat → Option Request)
    (conns : Nat → Option Connection) (op : Sqe) : Prop where
  request : requests op.userData = some op.request
  accept : op.opcode = .accept → op.addr = none
  client : op.opcode ≠ .accept → ∃ c k, op.addr = some c ∧
    conns c = some k ∧ k.fd = op.fd ∧ 0 ≤ op.fd

/-- Everything is in one place; `reqs`, `cs` and `fs` are in hand, and so are
`acc` of the `OP_ACCEPT` requests. -/
structure Ledger (base : Finset Int) (s : State) (reqs cs : Multiset Nat)
    (fs : Multiset Int) (acc : Nat) : Prop where
  requests : reqs + s.ops.map Sqe.userData = (openKeys ∅ s.requestLog).val
  conns : cs + s.ops.filterMap Sqe.addr = (openKeys ∅ s.connLog).val
  fds : fs + (s.queued.filterMap Cqe.opened + s.ops.filterMap Sqe.clientFd) =
    (clients base s.trace).val
  acceptor : acc + s.ops.countP (fun op => op.opcode = .accept) = 1
  backed : ∀ op ∈ s.ops, Backed s.requests s.conns op
  heap : ∀ c k, s.conns c = some k → c ∈ openKeys ∅ s.connLog
  linked : ∀ cqe ∈ s.queued, cqe.userData = cqe.op.userData
  requestLawful : Lawful ∅ s.requestLog
  connLawful : Lawful ∅ s.connLog
  lawful : Lawful base s.trace

/-! ## One rule for each operation -/

theorem filterMap_cons_toList {α β : Type*} (f : α → Option β) (a : α)
    (m : Multiset α) :
    (a ::ₘ m).filterMap f = ((f a).toList : Multiset β) + m.filterMap f := by
  rcases h : f a with _ | b
  · rw [Multiset.filterMap_cons_none _ _ h]
    simp
  · rw [Multiset.filterMap_cons_some f _ _ h]
    simp

section Rules

variable {base : Finset Int} {s : State} {reqs cs : Multiset Nat}
  {fs : Multiset Int} {acc : Nat}

/-- The request of an outstanding operation is allocated. -/
theorem Ledger.mem_requests (h : Ledger base s reqs cs fs acc) {op : Sqe}
    (hop : op ∈ s.ops) : op.userData ∈ openKeys ∅ s.requestLog := by
  rw [← Finset.mem_val, ← h.requests]
  exact Multiset.mem_add.mpr (.inr (Multiset.mem_map_of_mem _ hop))

/-- A request in hand belongs to no outstanding operation. -/
theorem Ledger.request_ne {u : Nat} (h : Ledger base s (u ::ₘ reqs) cs fs acc)
    {op : Sqe} (hop : op ∈ s.ops) : op.userData ≠ u := by
  have hnodup := (openKeys ∅ s.requestLog).nodup
  rw [← h.requests, Multiset.cons_add, Multiset.nodup_cons] at hnodup
  rintro rfl
  exact hnodup.1 (Multiset.mem_add.mpr (.inr (Multiset.mem_map_of_mem _ hop)))

/-- A connection in hand belongs to no outstanding operation. -/
theorem Ledger.conn_ne {c : Nat} (h : Ledger base s reqs (c ::ₘ cs) fs acc)
    {op : Sqe} (hop : op ∈ s.ops) : op.addr ≠ some c := by
  have hnodup := (openKeys ∅ s.connLog).nodup
  rw [← h.conns, Multiset.cons_add, Multiset.nodup_cons] at hnodup
  intro haddr
  refine hnodup.1 (Multiset.mem_add.mpr (.inr ?_))
  exact (Multiset.mem_filterMap _ _).mpr ⟨op, hop, haddr⟩

/-- Nor does a connection that is not allocated. -/
theorem Ledger.addr_ne (h : Ledger base s reqs cs fs acc) {c : Nat}
    (hfresh : c ∉ openKeys ∅ s.connLog) {op : Sqe} (hop : op ∈ s.ops) :
    op.addr ≠ some c := by
  intro haddr
  apply hfresh
  rw [← Finset.mem_val, ← h.conns]
  refine Multiset.mem_add.mpr (.inr ?_)
  exact (Multiset.mem_filterMap _ _).mpr ⟨op, hop, haddr⟩

/-- A descriptor in hand belongs to nothing outstanding. -/
theorem Ledger.fd_notMem {fd : Int} (h : Ledger base s reqs cs (fd ::ₘ fs) acc) :
    fd ∉ fs + (s.queued.filterMap Cqe.opened + s.ops.filterMap Sqe.clientFd) := by
  have hnodup := (clients base s.trace).nodup
  rw [← h.fds, Multiset.cons_add, Multiset.nodup_cons] at hnodup
  exact hnodup.1

/-- What is in hand or with an outstanding operation is open. -/
theorem Ledger.mem_open (h : Ledger base s reqs cs fs acc) {fd : Int}
    (hfd : fd ∈ fs +
      (s.queued.filterMap Cqe.opened + s.ops.filterMap Sqe.clientFd)) :
    fd ∈ openKeys base s.trace := by
  rw [h.fds, Finset.mem_val] at hfd
  exact (mem_clients.mp hfd).1

/-- The two states agree on heaps, logs and trace. -/
structure SameMemory (s t : State) : Prop where
  requests : t.requests = s.requests
  conns : t.conns = s.conns
  requestLog : t.requestLog = s.requestLog
  connLog : t.connLog = s.connLog
  trace : t.trace = s.trace

/-- The ledger does not look at anything else. -/
theorem Ledger.congr (h : Ledger base s reqs cs fs acc) {t : State}
    (hm : SameMemory s t) (hops : t.ops = s.ops) (hqueued : t.queued = s.queued) :
    Ledger base t reqs cs fs acc := by
  obtain ⟨hm₁, hm₂, hm₃, hm₄, hm₅⟩ := hm
  obtain ⟨h₁, h₂, h₃, h₄, h₅, h₆, h₇, h₈, h₉, h₁₀⟩ := h
  rw [← hops, ← hm₃] at h₁
  rw [← hops, ← hm₄] at h₂
  rw [← hops, ← hqueued, ← hm₅] at h₃
  rw [← hops] at h₄
  rw [← hops, ← hm₁, ← hm₂] at h₅
  rw [← hm₂, ← hm₄] at h₆
  rw [← hqueued] at h₇
  rw [← hm₃] at h₈
  rw [← hm₄] at h₉
  rw [← hm₅] at h₁₀
  exact ⟨h₁, h₂, h₃, h₄, h₅, h₆, h₇, h₈, h₉, h₁₀⟩

/-- An operation is taken from the outstanding ones, with what it carries. -/
theorem Ledger.take (h : Ledger base s reqs cs fs acc) {t : State}
    (hm : SameMemory s t) {op : Sqe} {o : Multiset Int}
    (hops : s.ops = op ::ₘ t.ops)
    (hopened : s.queued.filterMap Cqe.opened =
      o + t.queued.filterMap Cqe.opened)
    (hlinked : ∀ cqe ∈ t.queued, cqe.userData = cqe.op.userData) :
    Ledger base t (op.userData ::ₘ reqs) (op.addr.toList + cs)
      ((o + op.clientFd.toList) + fs)
      (acc + if op.opcode = .accept then 1 else 0) := by
  have hrequests := h.requests
  have hconns := h.conns
  have hfds := h.fds
  have hacceptor := h.acceptor
  have hbacked := h.backed
  rw [hops, Multiset.map_cons, Multiset.add_cons] at hrequests
  rw [hops, filterMap_cons_toList] at hconns
  rw [hops, filterMap_cons_toList, hopened] at hfds
  rw [hops, Multiset.countP_cons] at hacceptor
  rw [hops] at hbacked
  obtain ⟨hm₁, hm₂, hm₃, hm₄, hm₅⟩ := hm
  refine ⟨?_, ?_, ?_, ?_, ?_, ?_, hlinked, ?_, ?_, ?_⟩
  · rw [hm₃, Multiset.cons_add]
    exact hrequests
  · rw [hm₄, ← hconns]
    abel
  · rw [hm₅, ← hfds]
    abel
  · omega
  · rw [hm₁, hm₂]
    intro x hx
    exact hbacked x (Multiset.mem_cons_of_mem hx)
  · rw [hm₂, hm₄]
    exact h.heap
  · rw [hm₃]
    exact h.requestLawful
  · rw [hm₄]
    exact h.connLawful
  · rw [hm₅]
    exact h.lawful

/-- An operation in hand joins the outstanding ones. -/
theorem Ledger.put {op : Sqe} {o : Multiset Int}
    (h : Ledger base s (op.userData ::ₘ reqs) (op.addr.toList + cs)
      ((o + op.clientFd.toList) + fs)
      (acc + if op.opcode = .accept then 1 else 0)) {t : State}
    (hm : SameMemory s t) (hops : t.ops = op ::ₘ s.ops)
    (hopened : t.queued.filterMap Cqe.opened =
      o + s.queued.filterMap Cqe.opened)
    (hlinked : ∀ cqe ∈ t.queued, cqe.userData = cqe.op.userData)
    (hbacked : Backed s.requests s.conns op) :
    Ledger base t reqs cs fs acc := by
  obtain ⟨hm₁, hm₂, hm₃, hm₄, hm₅⟩ := hm
  refine ⟨?_, ?_, ?_, ?_, ?_, ?_, hlinked, ?_, ?_, ?_⟩
  · rw [hm₃, ← h.requests, hops, Multiset.map_cons, Multiset.add_cons,
      Multiset.cons_add]
  · rw [hm₄, ← h.conns, hops, filterMap_cons_toList]
    abel
  · rw [hm₅, ← h.fds, hops, filterMap_cons_toList, hopened]
    abel
  · have hacceptor := h.acceptor
    rw [hops, Multiset.countP_cons]
    omega
  · rw [hm₁, hm₂, hops]
    intro x hx
    rcases Multiset.mem_cons.mp hx with rfl | hx
    · exact hbacked
    · exact h.backed x hx
  · rw [hm₂, hm₄]
    exact h.heap
  · rw [hm₃]
    exact h.requestLawful
  · rw [hm₄]
    exact h.connLawful
  · rw [hm₅]
    exact h.lawful

/-- A completion is taken off the queue. -/
theorem Ledger.pop (h : Ledger base s reqs cs fs acc) {cqe : Cqe}
    {rest : List Cqe} (hcq : s.cq = cqe :: rest) :
    Ledger base (s.popCqe rest) (cqe.op.userData ::ₘ reqs)
      (cqe.op.addr.toList + cs)
      ((cqe.opened.toList + cqe.op.clientFd.toList : Multiset Int) + fs)
      (acc + if cqe.op.opcode = .accept then 1 else 0) := by
  have hqueued := popCqe_queued hcq
  have hops : s.ops = cqe.op ::ₘ (s.popCqe rest).ops := by
    rw [State.ops, hqueued, Multiset.map_cons, Multiset.add_cons]
    rfl
  apply h.take (t := s.popCqe rest) ⟨rfl, rfl, rfl, rfl, rfl⟩ hops
  · rw [hqueued, filterMap_cons_toList]
  · intro cqe' hcqe'
    apply h.linked
    rw [hqueued]
    exact Multiset.mem_cons_of_mem hcqe'

/-- The kernel takes up an operation in flight. -/
theorem Ledger.takeUp (h : Ledger base s reqs cs fs acc) {n : Nat} {op : Sqe}
    (hn : s.inflight[n]? = some op) :
    Ledger base (s.takeUp n)
      (op.userData ::ₘ reqs) (op.addr.toList + cs) (op.clientFd.toList + fs)
      (acc + if op.opcode = .accept then 1 else 0) := by
  obtain ⟨hlt, hget⟩ := List.getElem?_eq_some_iff.mp hn
  have hinflight : (s.inflight : Multiset Sqe) =
      op ::ₘ (s.inflight.eraseIdx n : Multiset Sqe) := by
    rw [Multiset.cons_coe, Multiset.coe_eq_coe, ← hget]
    exact (List.getElem_cons_eraseIdx_perm hlt).symm
  have hops : s.ops = op ::ₘ (s.takeUp n).ops := by
    rw [State.ops, hinflight, Multiset.cons_add]
    rfl
  have htaken := h.take (t := s.takeUp n) (o := 0) ⟨rfl, rfl, rfl, rfl, rfl⟩
    hops (zero_add _).symm h.linked
  rwa [zero_add] at htaken

/-- Posting a completion is invisible to the loop. -/
theorem post_same (cqEntries : Nat) (s : State) (cqe : Cqe) :
    (post cqEntries s cqe).halt = s.halt ∧ (post cqEntries s cqe).pc = s.pc ∧
      SameMemory s (post cqEntries s cqe) ∧
      (post cqEntries s cqe).inflight = s.inflight := by
  unfold post
  split
  · exact ⟨rfl, rfl, ⟨rfl, rfl, rfl, rfl, rfl⟩, rfl⟩
  · exact ⟨rfl, rfl, ⟨rfl, rfl, rfl, rfl, rfl⟩, rfl⟩

theorem post_queued (cqEntries : Nat) (s : State) (cqe : Cqe) :
    (post cqEntries s cqe).queued = cqe ::ₘ s.queued := by
  unfold post State.queued
  split
  · rw [← Multiset.coe_add, ← Multiset.singleton_add]
    show (s.cq : Multiset Cqe) + {cqe} + _ = _
    abel
  · rw [← Multiset.coe_add, ← Multiset.singleton_add]
    show (s.cq : Multiset Cqe) + (_ + {cqe}) = _
    abel

/-- A completion is posted, to the queue or to the overflow list. -/
theorem Ledger.posted {cqe : Cqe} (hlink : cqe.userData = cqe.op.userData)
    (h : Ledger base s (cqe.op.userData ::ₘ reqs) (cqe.op.addr.toList + cs)
      ((cqe.opened.toList + cqe.op.clientFd.toList : Multiset Int) + fs)
      (acc + if cqe.op.opcode = .accept then 1 else 0))
    (hbacked : Backed s.requests s.conns cqe.op) (cqEntries : Nat) :
    Ledger base (post cqEntries s cqe) reqs cs fs acc := by
  have hqueued := post_queued cqEntries s cqe
  obtain ⟨_, _, hsame, hinflight⟩ := post_same cqEntries s cqe
  have hops : (post cqEntries s cqe).ops = cqe.op ::ₘ s.ops := by
    rw [State.ops, hqueued, hinflight, Multiset.map_cons, Multiset.add_cons]
    rfl
  apply h.put hsame hops
  · rw [hqueued, filterMap_cons_toList]
  · rw [hqueued]
    intro cqe' hcqe'
    rcases Multiset.mem_cons.mp hcqe' with rfl | hold
    · exact hlink
    · exact h.linked cqe' hold
  · exact hbacked

/-- A request object is allocated. -/
theorem Ledger.allocReq (h : Ledger base s reqs cs fs acc) {a : Nat}
    (hfresh : a ∉ openKeys ∅ s.requestLog) (req : Request) :
    Ledger base (s.allocRequest a req) (a ::ₘ reqs) cs fs acc := by
  refine ⟨?_, h.conns, h.fds, h.acceptor, ?_, h.heap, h.linked,
    ⟨hfresh, h.requestLawful⟩, h.connLawful, h.lawful⟩
  · rw [Multiset.cons_add]
    show a ::ₘ (reqs + s.ops.map Sqe.userData) =
      (insert a (openKeys ∅ s.requestLog)).val
    rw [h.requests]
    exact (Finset.insert_val_of_notMem hfresh).symm
  · intro x hx
    have hold := h.backed x hx
    have hne : x.userData ≠ a := fun heq => hfresh (heq ▸ h.mem_requests hx)
    exact ⟨(Function.update_of_ne hne _ _).trans hold.request, hold.accept,
      hold.client⟩

/-- An entry is submitted for a new request. -/
theorem Ledger.submit {op : Sqe} (h : Ledger base s reqs
      (op.addr.toList + cs) (op.clientFd.toList + fs)
      (acc + if op.opcode = .accept then 1 else 0))
    (hfresh : op.userData ∉ openKeys ∅ s.requestLog)
    (haccept : op.opcode = .accept → op.addr = none)
    (hclient : op.opcode ≠ .accept → ∃ c k, op.addr = some c ∧
      s.conns c = some k ∧ k.fd = op.fd ∧ 0 ≤ op.fd) :
    Ledger base ((s.allocRequest op.userData op.request).submitted op)
      reqs cs fs acc := by
  have halloc := h.allocReq hfresh op.request
  rw [← zero_add (op.clientFd.toList : Multiset Int)] at halloc
  apply halloc.put (t := (s.allocRequest op.userData op.request).submitted op)
    ⟨rfl, rfl, rfl, rfl, rfl⟩ rfl (zero_add _).symm h.linked
  exact ⟨Function.update_self _ _ _, haccept, hclient⟩

/-- `free(req)` of a request in hand. -/
theorem Ledger.freeReq {u : Nat} (h : Ledger base s (u ::ₘ reqs) cs fs acc) :
    Ledger base (finish s u) reqs cs fs acc := by
  have hval := h.requests
  rw [Multiset.cons_add] at hval
  have hmem : u ∈ openKeys ∅ s.requestLog := by
    rw [← Finset.mem_val, ← hval]
    exact Multiset.mem_cons_self u _
  refine ⟨?_, h.conns, h.fds, h.acceptor, ?_, h.heap, h.linked,
    ⟨⟨hmem, Finset.notMem_empty u⟩, h.requestLawful⟩, h.connLawful, h.lawful⟩
  · show _ = ((openKeys ∅ s.requestLog).erase u).val
    rw [Finset.erase_val, ← hval, Multiset.erase_cons_head]
    rfl
  · intro x hx
    have hold := h.backed x hx
    have hne : x.userData ≠ u := h.request_ne hx
    exact ⟨(Function.update_of_ne hne _ _).trans hold.request, hold.accept,
      hold.client⟩

/-- What a completion carries survives a write to a connection that keeps its
descriptor. -/
theorem Backed.touch {requests : Nat → Option Request}
    {conns : Nat → Option Connection} {op : Sqe} (h : Backed requests conns op)
    {c : Nat} {k k' : Connection} (hc : conns c = some k)
    (hfd : k'.fd = k.fd) :
    Backed requests (Function.update conns c (some k')) op := by
  refine ⟨h.request, h.accept, ?_⟩
  intro hopcode
  obtain ⟨c', k₀, haddr, hk₀, hfd₀, hpos⟩ := h.client hopcode
  by_cases hcc : c' = c
  · subst hcc
    rw [hc] at hk₀
    cases hk₀
    exact ⟨c', k', haddr, Function.update_self _ _ _, hfd.trans hfd₀, hpos⟩
  · exact ⟨c', k₀, haddr, (Function.update_of_ne hcc _ _).trans hk₀, hfd₀, hpos⟩

/-- What a completion carries survives any change to other connections. -/
theorem Backed.update {requests : Nat → Option Request}
    {conns : Nat → Option Connection} {op : Sqe} (h : Backed requests conns op)
    {c : Nat} (hne : ∀ c' k, op.addr = some c' → conns c' = some k → c' ≠ c)
    (k' : Option Connection) :
    Backed requests (Function.update conns c k') op := by
  refine ⟨h.request, h.accept, ?_⟩
  intro hopcode
  obtain ⟨c', k₀, haddr, hk₀, hfd₀, hpos⟩ := h.client hopcode
  have hcc : c' ≠ c := hne c' k₀ haddr hk₀
  exact ⟨c', k₀, haddr, (Function.update_of_ne hcc _ _).trans hk₀, hfd₀, hpos⟩

/-- A connection is written to without changing its descriptor. -/
theorem Ledger.touch (h : Ledger base s reqs cs fs acc) {c : Nat}
    {k : Connection} (hc : s.conns c = some k) (k' : Connection)
    (hfd : k'.fd = k.fd) :
    Ledger base (s.setConnection c k') reqs cs fs acc := by
  refine ⟨h.requests, h.conns, h.fds, h.acceptor,
    fun op hop => (h.backed op hop).touch hc hfd, ?_, h.linked,
    h.requestLawful, h.connLawful, h.lawful⟩
  intro c' k₀ hk₀
  by_cases hcc : c' = c
  · subst hcc
    exact h.heap c' k hc
  · rw [State.setConnection_conns, Function.update_of_ne hcc] at hk₀
    exact h.heap c' k₀ hk₀

/-- A connection in hand is written to. -/
theorem Ledger.setInHand {c : Nat} (h : Ledger base s reqs (c ::ₘ cs) fs acc)
    (k : Connection) :
    Ledger base (s.setConnection c k) reqs (c ::ₘ cs) fs acc := by
  have hmem : c ∈ openKeys ∅ s.connLog := by
    rw [← Finset.mem_val, ← h.conns, Multiset.cons_add]
    exact Multiset.mem_cons_self c _
  refine ⟨h.requests, h.conns, h.fds, h.acceptor, ?_, ?_, h.linked,
    h.requestLawful, h.connLawful, h.lawful⟩
  · intro op hop
    refine (h.backed op hop).update ?_ _
    rintro c' k₀ haddr _ rfl
    exact h.conn_ne hop haddr
  · intro c' k₀ hk₀
    by_cases hcc : c' = c
    · rw [hcc]
      exact hmem
    · rw [State.setConnection_conns, Function.update_of_ne hcc] at hk₀
      exact h.heap c' k₀ hk₀

/-- A connection object is allocated. -/
theorem Ledger.allocConn (h : Ledger base s reqs cs fs acc) {c : Nat}
    (hfresh : c ∉ openKeys ∅ s.connLog) (k : Connection) :
    Ledger base (s.allocConnection c k) reqs (c ::ₘ cs) fs acc := by
  refine ⟨h.requests, ?_, h.fds, h.acceptor, ?_, ?_, h.linked,
    h.requestLawful, ⟨hfresh, h.connLawful⟩, h.lawful⟩
  · rw [Multiset.cons_add]
    show c ::ₘ (cs + s.ops.filterMap Sqe.addr) =
      (insert c (openKeys ∅ s.connLog)).val
    rw [h.conns]
    exact (Finset.insert_val_of_notMem hfresh).symm
  · intro op hop
    refine (h.backed op hop).update ?_ _
    rintro c' k₀ _ hk₀ rfl
    exact hfresh (h.heap c' k₀ hk₀)
  · intro c' k₀ hk₀
    by_cases hcc : c' = c
    · exact Finset.mem_insert.mpr (.inl hcc)
    · rw [State.allocConnection_conns, Function.update_of_ne hcc] at hk₀
      exact Finset.mem_insert.mpr (.inr (h.heap c' k₀ hk₀))

/-- A connection object in hand is freed. -/
theorem Ledger.freeConn {c : Nat} (h : Ledger base s reqs (c ::ₘ cs) fs acc) :
    Ledger base (freeConnection s c) reqs cs fs acc := by
  have hval := h.conns
  rw [Multiset.cons_add] at hval
  have hmem : c ∈ openKeys ∅ s.connLog := by
    rw [← Finset.mem_val, ← hval]
    exact Multiset.mem_cons_self c _
  refine ⟨h.requests, ?_, h.fds, h.acceptor, ?_, ?_, h.linked,
    h.requestLawful, ⟨⟨hmem, Finset.notMem_empty c⟩, h.connLawful⟩, h.lawful⟩
  · show _ = ((openKeys ∅ s.connLog).erase c).val
    rw [Finset.erase_val, ← hval, Multiset.erase_cons_head]
    rfl
  · intro op hop
    refine (h.backed op hop).update ?_ _
    rintro c' k₀ haddr _ rfl
    exact h.conn_ne hop haddr
  · intro c' k₀ hk₀
    by_cases hcc : c' = c
    · subst hcc
      rw [freeConnection_conns, Function.update_self] at hk₀
      cases hk₀
    · rw [freeConnection_conns, Function.update_of_ne hcc] at hk₀
      exact Finset.mem_erase.mpr ⟨hcc, h.heap c' k₀ hk₀⟩

/-- A descriptor in hand is closed. -/
theorem Ledger.closeFd {fd : Int} (h : Ledger base s reqs cs (fd ::ₘ fs) acc) :
    Ledger base (s.called (.close fd)) reqs cs fs acc := by
  have hval := h.fds
  rw [Multiset.cons_add] at hval
  have hmem : fd ∈ clients base s.trace := by
    rw [← Finset.mem_val, ← hval]
    exact Multiset.mem_cons_self fd _
  refine ⟨h.requests, h.conns, ?_, h.acceptor, h.backed, h.heap, h.linked,
    h.requestLawful, h.connLawful, ⟨mem_clients.mp hmem, h.lawful⟩⟩
  show _ = (clients base (.close fd :: s.trace)).val
  rw [clients_close, Finset.erase_val, ← hval, Multiset.erase_cons_head]
  rfl

/-- The kernel opens a descriptor for a new client. -/
theorem Ledger.acceptFd (h : Ledger base s reqs cs fs acc) {fd : Int}
    (hnew : fd ∉ openKeys base s.trace) :
    Ledger base (s.called (.accept fd)) reqs cs (fd ::ₘ fs) acc := by
  have hbase : fd ∉ base := fun hb => hnew (h.lawful.base_subset hb)
  have hclient : fd ∉ clients base s.trace := fun hc =>
    hnew (mem_clients.mp hc).1
  refine ⟨h.requests, h.conns, ?_, h.acceptor, h.backed, h.heap, h.linked,
    h.requestLawful, h.connLawful, ⟨hnew, h.lawful⟩⟩
  show _ = (clients base (.accept fd :: s.trace)).val
  rw [clients_accept hbase, Finset.insert_val_of_notMem hclient,
    Multiset.cons_add, ← h.fds]
  rfl

/-- A read or a write on an open descriptor is made. -/
theorem Ledger.call (h : Ledger base s reqs cs fs acc) {call : Syscall}
    (hsame : clients base (call :: s.trace) = clients base s.trace)
    (hlawful : LawfulCall base call s.trace) :
    Ledger base (s.called call) reqs cs fs acc := by
  refine ⟨h.requests, h.conns, ?_, h.acceptor, h.backed, h.heap, h.linked,
    h.requestLawful, h.connLawful, ⟨hlawful, h.lawful⟩⟩
  show _ = (clients base (call :: s.trace)).val
  rw [hsame]
  exact h.fds

end Rules

/-! ## What the loop holds between its steps -/

/-- The request whose completion is being handled. -/
def Pc.request : Pc → Multiset Nat
  | .accepted req _ => {req}
  | _ => 0

/-- The descriptor its completion brought. -/
def Pc.opened : Pc → Multiset Int
  | .accepted _ result => if 0 ≤ result then {result} else 0
  | _ => 0

/-- The invariant of the completion loop. -/
def Inv (base : Finset Int) (s : State) : Prop :=
  Ledger base s s.pc.request 0 s.pc.opened 0

/-- The entry names the request, and its connection's buffer as far as it is to
be read or sent. -/
theorem fillSqe_some {conns : Nat → Option Connection} {a : Nat} {req : Request}
    {op : Sqe} (hconn : req.type = .accept → req.conn = none)
    (h : fillSqe conns a req = some op) :
    op.userData = a ∧ op.request = req ∧
      (req.type = .send → ∀ c k, req.conn = some c → conns c = some k →
        op.len = k.length) ∧
      (req.type = .recv → op.len = bufferSize) := by
  obtain ⟨type, fd, conn⟩ := req
  cases type with
  | accept =>
      have hnone : conn = none := hconn rfl
      subst hnone
      cases h
      exact ⟨rfl, rfl, by simp, by simp⟩
  | recv =>
      rcases conn with _ | c
      · cases h
      · obtain ⟨k, _, rfl⟩ := Option.map_eq_some_iff.mp h
        exact ⟨rfl, rfl, by simp, fun _ => rfl⟩
  | send =>
      rcases conn with _ | c
      · cases h
      · obtain ⟨k, hk, rfl⟩ := Option.map_eq_some_iff.mp h
        refine ⟨rfl, rfl, ?_, by simp⟩
        intro _ c' k' hc' hk'
        cases hc'
        rw [hk] at hk'
        cases hk'
        rfl

/-- A request for the listener, or for a connection that exists, can be turned
into an entry. -/
theorem fillSqe_isSome {conns : Nat → Option Connection} {req : Request}
    (hclient : req.type ≠ .accept → ∃ c k, req.conn = some c ∧
      conns c = some k) (a : Nat) : ∃ op, fillSqe conns a req = some op := by
  obtain ⟨type, fd, conn⟩ := req
  cases type with
  | accept => exact ⟨_, rfl⟩
  | recv =>
      obtain ⟨c, k, hc, hk⟩ := hclient (by simp)
      simp only at hc
      subst hc
      exact ⟨_, Option.map_eq_some_iff.mpr ⟨k, hk, rfl⟩⟩
  | send =>
      obtain ⟨c, k, hc, hk⟩ := hclient (by simp)
      simp only at hc
      subst hc
      exact ⟨_, Option.map_eq_some_iff.mpr ⟨k, hk, rfl⟩⟩

section Requests

variable {s t : State} {calloc : Option Nat} {enter : Option Errno}
  {type : OpType} {fd : Int} {conn : Option Nat}

/-- What `submit_request(&ring, make_request(type, fd, conn))` does when it
returns. -/
theorem request_ok (hconn : type = .accept → conn = none)
    (h : request s calloc enter type fd conn = .ok t) :
    ∃ op : Sqe, calloc = some op.userData ∧ enter = none ∧
      op.request = ⟨type, fd, conn⟩ ∧
      (type = .send → ∀ c k, conn = some c → s.conns c = some k →
        op.len = k.length) ∧
      (type = .recv → op.len = bufferSize) ∧
      t = (s.allocRequest op.userData op.request).submitted op := by
  unfold request makeRequest at h
  rcases calloc with _ | a
  · cases h
  simp only [submitRequest, State.allocRequest_requests, Function.update_self,
    Option.bind_some] at h
  rcases hfill : fillSqe (s.allocRequest a ⟨type, fd, conn⟩).conns a
      ⟨type, fd, conn⟩ with _ | op
  · rw [hfill] at h
    cases h
  · rw [hfill] at h
    obtain ⟨rfl, hrequest, hsend, hrecv⟩ := fillSqe_some hconn hfill
    rcases enter with _ | e
    · refine ⟨op, rfl, rfl, hrequest, hsend, hrecv, ?_⟩
      rw [hrequest]
      exact (Except.ok.inj h).symm
    · cases h

/-- The only ways it does not return. -/
theorem request_error {halt : Halt}
    (hclient : type ≠ .accept → ∃ c k, conn = some c ∧ s.conns c = some k)
    (h : request s calloc enter type fd conn = .error halt) :
    (calloc = none ∧ halt = .die ⟨"calloc", .ENOMEM⟩) ∨
      ∃ e, enter = some e ∧ halt = .die ⟨"io_uring_enter submit", e⟩ := by
  unfold request makeRequest at h
  rcases calloc with _ | a
  · exact .inl ⟨rfl, (Except.error.inj h).symm⟩
  simp only [submitRequest, State.allocRequest_requests, Function.update_self,
    Option.bind_some] at h
  have hentry : ∃ op, fillSqe (s.allocRequest a ⟨type, fd, conn⟩).conns a
      ⟨type, fd, conn⟩ = some op := fillSqe_isSome hclient a
  obtain ⟨op, hfill⟩ := hentry
  rw [hfill] at h
  rcases enter with _ | e
  · cases h
  · exact .inr ⟨e, rfl, (Except.error.inj h).symm⟩

end Requests

/-! ## The server's half of a step -/

/-- All the body of the inner loop can do with a completion. -/
inductive Handled (listenFd : Int) (s : State) (cqe : Cqe)
    (calloc : Option Nat) (enter : Option Errno) : Except Halt State → Prop
  | failed (why : Exit) : (calloc = none ∧ why = ⟨"calloc", .ENOMEM⟩) ∨
      (∃ e, enter = some e ∧ why = ⟨"io_uring_enter submit", e⟩) →
      Handled listenFd s cqe calloc enter (.error (.die why))
  | accept (op : Sqe) : cqe.op.opcode = .accept → calloc = some op.userData →
      enter = none → op.request = ⟨.accept, listenFd, none⟩ →
      Handled listenFd s cqe calloc enter
        (.ok { (s.allocRequest op.userData op.request).submitted op with
          pc := .accepted cqe.op.userData cqe.res })
  | closed (c : Nat) (k : Connection) : cqe.op.opcode ≠ .accept →
      cqe.op.addr = some c → s.conns c = some k → k.fd = cqe.op.fd →
      0 ≤ k.fd → cqe.res ≤ 0 →
      Handled listenFd s cqe calloc enter
        (.ok (finish (freeConnection (closeConnection s c k) c)
          cqe.op.userData))
  | received (c : Nat) (k : Connection) (op : Sqe) : cqe.op.opcode = .recv →
      cqe.op.addr = some c → s.conns c = some k → k.fd = cqe.op.fd →
      0 ≤ k.fd → 0 < cqe.res → calloc = some op.userData →
      enter = none → op.request = ⟨.send, k.fd, some c⟩ → op.len = cqe.res.toNat →
      Handled listenFd s cqe calloc enter
        (.ok (finish (((s.setConnection c
            { k with length := cqe.res.toNat }).allocRequest op.userData
              op.request).submitted op) cqe.op.userData))
  | sent (c : Nat) (k : Connection) (op : Sqe) : cqe.op.opcode = .send →
      cqe.op.addr = some c → s.conns c = some k → k.fd = cqe.op.fd →
      0 ≤ k.fd → 0 < cqe.res → calloc = some op.userData →
      enter = none → op.request = ⟨.recv, k.fd, some c⟩ → op.len = bufferSize →
      Handled listenFd s cqe calloc enter
        (.ok (finish ((s.allocRequest op.userData op.request).submitted op)
          cqe.op.userData))

theorem failed_of_error {s : State} {calloc : Option Nat}
    {enter : Option Errno} {halt : Halt} {listenFd : Int} {cqe : Cqe}
    (h : (calloc = none ∧ halt = .die ⟨"calloc", .ENOMEM⟩) ∨
      ∃ e, enter = some e ∧ halt = .die ⟨"io_uring_enter submit", e⟩) :
    Handled listenFd s cqe calloc enter (.error halt) := by
  rcases h with ⟨rfl, rfl⟩ | ⟨e, rfl, rfl⟩
  · exact .failed _ (.inl ⟨rfl, rfl⟩)
  · exact .failed _ (.inr ⟨e, rfl, rfl⟩)

/-- On a backed completion the body of the inner loop never uses a freed
pointer. -/
theorem handle_handled {listenFd : Int} {s : State} {cqe : Cqe}
    (hlink : cqe.userData = cqe.op.userData)
    (hb : Backed s.requests s.conns cqe.op) (calloc : Option Nat)
    (enter : Option Errno) :
    Handled listenFd s cqe calloc enter
      (handle listenFd s cqe calloc enter) := by
  have hrequest := hb.request
  rw [← hlink] at hrequest
  unfold handle
  rw [hrequest]
  rcases hopcode : cqe.op.opcode with _ | _ | _
  · -- `OP_ACCEPT`
    simp only [Sqe.request, hopcode, handleAccept]
    rcases hreq : request s calloc enter .accept listenFd none with halt | t
    · exact failed_of_error (request_error (by simp) hreq)
    · obtain ⟨op, hcalloc, henter, hop, _, _, rfl⟩ := request_ok (fun _ => rfl) hreq
      rw [hlink]
      exact .accept op hopcode hcalloc henter hop
  · -- `OP_RECV`
    obtain ⟨c, k, haddr, hk, hfd, hpos⟩ := hb.client (by simp [hopcode])
    rw [← hfd] at hpos
    simp only [Sqe.request, hopcode, haddr, hk, handleRecv]
    by_cases hres : cqe.res ≤ 0
    · rw [if_pos hres, hlink]
      exact .closed c k (by simp [hopcode]) haddr hk hfd hpos hres
    · rw [if_neg hres]
      have hk' : (s.setConnection c { k with length := cqe.res.toNat }).conns c =
          some { k with length := cqe.res.toNat } := Function.update_self _ _ _
      rcases hreq : request (s.setConnection c { k with length := cqe.res.toNat })
        calloc enter .send k.fd (some c) with halt | t
      · exact failed_of_error (request_error (fun _ => ⟨c, _, rfl, hk'⟩) hreq)
      · obtain ⟨op, hcalloc, henter, hop, hsend, _, rfl⟩ := request_ok (by simp) hreq
        have hlen := hsend rfl c _ rfl hk'
        rw [hlink]
        exact .received c k op hopcode haddr hk hfd hpos (by omega) hcalloc
          henter hop hlen
  · -- `OP_SEND`
    obtain ⟨c, k, haddr, hk, hfd, hpos⟩ := hb.client (by simp [hopcode])
    rw [← hfd] at hpos
    simp only [Sqe.request, hopcode, haddr, hk, handleSend]
    by_cases hres : cqe.res ≤ 0
    · rw [if_pos hres, hlink]
      exact .closed c k (by simp [hopcode]) haddr hk hfd hpos hres
    · rw [if_neg hres]
      rcases hreq : request s calloc enter .recv k.fd (some c) with halt | t
      · exact failed_of_error (request_error (fun _ => ⟨c, k, rfl, hk⟩) hreq)
      · obtain ⟨op, hcalloc, henter, hop, _, hrecv, rfl⟩ := request_ok (by simp) hreq
        rw [hlink]
        exact .sent c k op hopcode haddr hk hfd hpos (by omega) hcalloc
          henter hop (hrecv rfl)

/-- A part of the loop that returns leaves it running. -/
theorem Handled.halt {listenFd : Int} {s t : State} {cqe : Cqe}
    {calloc : Option Nat} {enter : Option Errno}
    (h : Handled listenFd s cqe calloc enter (.ok t)) : t.halt = s.halt := by
  cases h with
  | accept op _ _ _ _ => rfl
  | closed c k _ _ _ _ hpos _ =>
      rw [closeConnection, if_pos hpos]
      rfl
  | received c k op _ _ _ _ _ _ _ _ _ _ => rfl
  | sent c k op _ _ _ _ _ _ _ _ _ _ => rfl

/-- All the rest of the `OP_ACCEPT` branch can do. -/
inductive Connected (s : State) (req : Nat) (result : Int)
    (callocConn calloc : Option Nat) (enter : Option Errno) :
    Except Halt State → Prop
  | failed (why : Exit) : (calloc = none ∧ why = ⟨"calloc", .ENOMEM⟩) ∨
      (∃ e, enter = some e ∧ why = ⟨"io_uring_enter submit", e⟩) →
      Connected s req result callocConn calloc enter (.error (.die why))
  | nobody : result < 0 →
      Connected s req result callocConn calloc enter (.ok (finish s req))
  | refused : 0 ≤ result → callocConn = none →
      Connected s req result callocConn calloc enter
        (.ok (finish (s.called (.close result)) req))
  | connected (c : Nat) (op : Sqe) : 0 ≤ result → callocConn = some c →
      calloc = some op.userData → enter = none →
      op.request = ⟨.recv, result, some c⟩ →
      op.len = bufferSize →
      Connected s req result callocConn calloc enter
        (.ok (finish (((s.allocConnection c (newConnection result)).allocRequest
          op.userData op.request).submitted op) req))

theorem Connected.halt {s t : State} {req : Nat} {result : Int}
    {callocConn calloc : Option Nat} {enter : Option Errno}
    (h : Connected s req result callocConn calloc enter (.ok t)) :
    t.halt = s.halt := by
  cases h with
  | nobody _ => rfl
  | refused _ _ => rfl
  | connected c op _ _ _ _ _ _ => rfl

theorem connect_connected (s : State) (req : Nat) (result : Int)
    (callocConn calloc : Option Nat) (enter : Option Errno) :
    Connected s req result callocConn calloc enter
      (connect s req result callocConn calloc enter) := by
  unfold connect
  by_cases hres : 0 ≤ result
  · rw [if_pos hres]
    rcases callocConn with _ | c
    · exact .refused hres rfl
    · dsimp only
      rcases hreq : request (s.allocConnection c (newConnection result)) calloc
        enter .recv result (some c) with halt | t
      · have hk : (s.allocConnection c (newConnection result)).conns c =
            some (newConnection result) := Function.update_self _ _ _
        rcases request_error (fun _ => ⟨c, _, rfl, hk⟩) hreq with
          ⟨rfl, rfl⟩ | ⟨e, rfl, rfl⟩
        · exact .failed _ (.inl ⟨rfl, rfl⟩)
        · exact .failed _ (.inr ⟨e, rfl, rfl⟩)
      · obtain ⟨op, hcalloc, henter, hop, _, hrecv, rfl⟩ := request_ok (by simp) hreq
        exact .connected c op hres rfl hcalloc henter hop (hrecv rfl)
  · rw [if_neg hres]
    exact .nobody (by omega)

/-! ## The kernel's half of a step -/

/-- All an operation can do to memory and descriptors. -/
inductive Performed (s : State) (op : Sqe) (out : Outcome) :
    State × Int → Prop
  | opened (fd : Int) : op.opcode = .accept → out = .accept (.ok fd) →
      Performed s op out (s.called (.accept fd), fd)
  | declined (e : Errno) : op.opcode = .accept → out = .accept (.error e) →
      Performed s op out (s, failed)
  | read (c : Nat) (k : Connection) (bytes : List UInt8) :
      op.opcode = .recv → op.addr = some c → s.conns c = some k →
      k.fd = op.fd → out = .recv (.ok bytes) →
      Performed s op out
        ((s.called (.read op.fd op.len (.ok bytes))).setConnection c
          { k with buffer := k.buffer.store bytes }, bytes.length)
  | readFailed (e : Errno) : op.opcode = .recv → out = .recv (.error e) →
      Performed s op out (s.called (.read op.fd op.len (.error e)), failed)
  | wrote (c : Nat) (k : Connection) (n : Nat) : op.opcode = .send →
      op.addr = some c → s.conns c = some k → k.fd = op.fd →
      out = .send (.ok n) →
      Performed s op out
        (s.called (.write op.fd (k.buffer.window 0 op.len) (.ok n)), n)
  | writeFailed (c : Nat) (k : Connection) (e : Errno) : op.opcode = .send →
      op.addr = some c → s.conns c = some k → k.fd = op.fd →
      out = .send (.error e) →
      Performed s op out
        (s.called (.write op.fd (k.buffer.window 0 op.len) (.error e)), failed)

theorem perform_performed {s : State} {op : Sqe} {out : Outcome}
    {r : State × Int} (hb : Backed s.requests s.conns op)
    (h : perform s op out = some r) : Performed s op out r := by
  cases out with
  | accept res =>
      by_cases hopcode : op.opcode = .accept
      · rcases res with e | fd
        · simp only [perform, hopcode, if_true, Option.some.injEq] at h
          subst h
          exact .declined e hopcode rfl
        · simp only [perform, hopcode, if_true, Option.some.injEq] at h
          subst h
          exact .opened fd hopcode rfl
      · rcases res with e | fd
        · simp [perform, hopcode] at h
        · simp [perform, hopcode] at h
  | recv res =>
      by_cases hopcode : op.opcode = .recv
      · obtain ⟨c, k, haddr, hk, hfd, _⟩ := hb.client (by simp [hopcode])
        rcases res with e | bytes
        · simp only [perform, hopcode, if_true, haddr, Option.bind_some, hk,
            Option.some.injEq] at h
          subst h
          exact .readFailed e hopcode rfl
        · simp only [perform, hopcode, if_true, haddr, Option.bind_some, hk,
            Option.some.injEq] at h
          subst h
          exact .read c k bytes hopcode haddr hk hfd rfl
      · simp [perform, hopcode] at h
  | send res =>
      by_cases hopcode : op.opcode = .send
      · obtain ⟨c, k, haddr, hk, hfd, _⟩ := hb.client (by simp [hopcode])
        rcases res with e | n
        · simp only [perform, hopcode, if_true, haddr, Option.bind_some, hk,
            Option.some.injEq] at h
          subst h
          exact .writeFailed c k e hopcode haddr hk hfd rfl
        · simp only [perform, hopcode, if_true, haddr, Option.bind_some, hk,
            Option.some.injEq] at h
          subst h
          exact .wrote c k n hopcode haddr hk hfd rfl
      · simp [perform, hopcode] at h

/-- An operation does not stop the loop. -/
theorem Performed.halt {s t : State} {op : Sqe} {out : Outcome} {res : Int}
    (h : Performed s op out (t, res)) : t.halt = s.halt := by
  cases h with
  | opened fd _ _ => rfl
  | declined e _ _ => rfl
  | read c k bytes _ _ _ _ _ => rfl
  | readFailed e _ _ => rfl
  | wrote c k n _ _ _ _ _ => rfl
  | writeFailed c k e _ _ _ _ _ => rfl

/-! ## A step of the whole -/

/-- All a step can do. -/
inductive Stepped (cqEntries : Nat) (listenFd : Int) (s : State) :
    Event → State → Prop
  | completed (n : Nat) (out : Outcome) (op : Sqe) (u : State) (res : Int) :
      s.inflight[n]? = some op → Backed s.requests s.conns op →
      Performed (s.takeUp n) op out (u, res) →
      Stepped cqEntries listenFd s (.complete n out)
        (post cqEntries u ⟨op.userData, res, op⟩)
  | flushed (cqe : Cqe) (rest : List Cqe) : s.overflow = cqe :: rest →
      s.cq.length + s.handled < cqEntries →
      Stepped cqEntries listenFd s .flush
        { s with cq := s.cq ++ [cqe], overflow := rest }
  | waited (enter : Option Errno) : s.pc = .outer → s.cq = [] →
      Stepped cqEntries listenFd s (.wait enter) (waitStep s enter)
  | entered : s.pc = .outer → s.cq ≠ [] →
      Stepped cqEntries listenFd s .turn { s with pc := .inner }
  | published : s.pc = .inner → s.cq = [] →
      Stepped cqEntries listenFd s .turn { s with pc := .outer, handled := 0 }
  | handled (cqe : Cqe) (rest : List Cqe) (calloc : Option Nat)
      (enter : Option Errno) (out : Except Halt State) : s.pc = .inner →
      s.cq = cqe :: rest → Handled listenFd (s.popCqe rest) cqe calloc enter out →
      Stepped cqEntries listenFd s (.handle calloc enter) (s.run out)
  | connected (req : Nat) (result : Int) (callocConn calloc : Option Nat)
      (enter : Option Errno) (out : Except Halt State) :
      s.pc = .accepted req result →
      Connected s req result callocConn calloc enter out →
      Stepped cqEntries listenFd s (.connect callocConn calloc enter) (s.run out)

/-- Under the invariant a step is one of these, and the process was running. -/
theorem step_stepped {base : Finset Int} {s t : State} (h : Inv base s)
    {cqEntries : Nat} {listenFd : Int} {e : Event}
    (hstep : step cqEntries listenFd s e = some t) :
    s.halt = none ∧ Stepped cqEntries listenFd s e t := by
  unfold step at hstep
  by_cases hhalt : s.halt = none
  · rw [if_pos hhalt] at hstep
    refine ⟨hhalt, ?_⟩
    cases e with
    | complete n out =>
        simp only [running, complete] at hstep
        rcases hn : s.inflight[n]? with _ | op
        · rw [hn] at hstep
          cases hstep
        rw [hn] at hstep
        dsimp only at hstep
        have hbacked : Backed (s.takeUp n).requests (s.takeUp n).conns op :=
          h.backed op (mem_ops_of_inflight (List.mem_of_getElem? hn))
        rcases hout : perform (s.takeUp n) op out with _ | ⟨u, res⟩
        · rw [hout] at hstep
          cases hstep
        rw [hout] at hstep
        cases hstep
        exact .completed n out op u res hn hbacked (perform_performed hbacked hout)
    | flush =>
        simp only [running, flush] at hstep
        split at hstep
        · cases hstep
        · rename_i cqe rest hoverflow
          split at hstep
          · rename_i hroom
            cases hstep
            exact .flushed cqe rest hoverflow hroom
          · cases hstep
    | wait enter =>
        simp only [running] at hstep
        split at hstep
        · rename_i hwait
          cases hstep
          exact .waited enter hwait.1 hwait.2
        · cases hstep
    | turn =>
        simp only [running] at hstep
        split at hstep
        · rename_i hpc hcq
          cases hstep
          exact .entered hpc (by simp [hcq])
        · rename_i hpc hcq
          cases hstep
          exact .published hpc hcq
        · cases hstep
    | handle calloc enter =>
        simp only [running] at hstep
        split at hstep
        · rename_i cqe rest hpc hcq
          cases hstep
          have hqueued := mem_queued_of_cq hcq
          apply Stepped.handled cqe rest calloc enter _ hpc hcq
          exact handle_handled (s := s.popCqe rest) (h.linked cqe hqueued)
            (h.backed cqe.op (mem_ops_of_queued hqueued)) calloc enter
        · cases hstep
    | connect callocConn calloc enter =>
        simp only [running] at hstep
        split at hstep
        · rename_i req result hpc
          cases hstep
          apply Stepped.connected req result callocConn calloc enter _ hpc
          exact connect_connected s req result callocConn calloc enter
        · cases hstep
  · rw [if_neg hhalt] at hstep
    cases hstep

/-! ## Every step keeps the invariant -/

section Steps

variable {base : Finset Int} {s t : State}

/-- A new operation of a connection in hand, and the completed one let go. -/
theorem Ledger.resubmit {u c : Nat} {k : Connection} {op : Sqe}
    (h : Ledger base s {u} {c} {k.fd} 0) (hk : s.conns c = some k)
    (hpos : 0 ≤ k.fd) (hopcode : op.opcode ≠ .accept) (hfd : op.fd = k.fd)
    (haddr : op.addr = some c)
    (hfresh : op.userData ∉ openKeys ∅ s.requestLog) :
    Inv base (finish ((s.allocRequest op.userData op.request).submitted op)
      u) := by
  have hsubmitted : Ledger base
      ((s.allocRequest op.userData op.request).submitted op) (u ::ₘ 0) 0 0 0 := by
    apply Ledger.submit _ hfresh (fun hacc => absurd hacc hopcode)
      (fun _ => ⟨c, k, haddr, hk, hfd.symm, hfd ▸ hpos⟩)
    simpa [haddr, Sqe.clientFd, hopcode, hfd] using h
  exact hsubmitted.freeReq

/-- A connection in hand is closed and freed, and the completed request too. -/
theorem Ledger.drop {u c : Nat} {k : Connection}
    (h : Ledger base s {u} {c} {k.fd} 0) (hpos : 0 ≤ k.fd) :
    Inv base (finish (freeConnection (closeConnection s c k) c) u) := by
  have hheld : Ledger base s {u} (c ::ₘ 0) (k.fd ::ₘ 0) 0 := h
  have hclosed := hheld.closeFd
  have hset := hclosed.setInHand { k with fd := -1, length := 0 }
  rw [closeConnection, if_pos hpos]
  have hfreed := hset.freeConn
  have hboth : Ledger base (freeConnection ((s.called (.close k.fd)).setConnection
      c { k with fd := -1, length := 0 }) c) (u ::ₘ 0) 0 0 0 := hfreed
  exact hboth.freeReq

theorem Inv.halted (h : Inv base s) (halt : Halt) :
    Inv base { s with halt := some halt } :=
  Ledger.congr h ⟨rfl, rfl, rfl, rfl, rfl⟩ rfl rfl

/-- The descriptor a completed `accept` brought stays in hand. -/
theorem opened_accepted {cqe : Cqe} (hopcode : cqe.op.opcode = .accept) :
    (cqe.opened.toList : Multiset Int) =
      (Pc.accepted cqe.op.userData cqe.res).opened := by
  by_cases hres : 0 ≤ cqe.res
  · simp [Cqe.opened, Pc.opened, hopcode, hres]
  · simp [Cqe.opened, Pc.opened, hopcode, hres]

/-- Taking a client's completion off the queue puts its request, its connection
and its descriptor in hand. -/
theorem Inv.popClient (h : Inv base s) (hpc : s.pc = .inner) {cqe : Cqe}
    {rest : List Cqe} (hcq : s.cq = cqe :: rest)
    (hclient : cqe.op.opcode ≠ .accept) {c : Nat} {k : Connection}
    (haddr : cqe.op.addr = some c) (hfd : k.fd = cqe.op.fd) :
    Ledger base (s.popCqe rest) {cqe.op.userData} {c} {k.fd} 0 := by
  have hpop := h.pop hcq
  rw [hpc] at hpop
  simpa [haddr, Sqe.clientFd, Cqe.opened, hclient, hfd, Pc.request, Pc.opened]
    using hpop

/-- The completion at the head of the queue is handled. -/
theorem handle_inv (h : Inv base s) (hpc : s.pc = .inner) {cqe : Cqe}
    {rest : List Cqe} (hcq : s.cq = cqe :: rest) {listenFd : Int}
    {calloc : Option Nat} {enter : Option Errno} {out : Except Halt State}
    (hhandled : Handled listenFd (s.popCqe rest) cqe calloc enter out)
    (hfresh : FreshIn s.requestLog calloc) : Inv base (s.run out) := by
  have hmem := mem_ops_of_queued (mem_queued_of_cq hcq)
  have hpop := h.pop hcq
  rw [hpc] at hpop
  cases hhandled with
  | failed why _ => exact h.halted (.die why)
  | accept op hopcode hcalloc _ hop =>
      have hnone : op.addr = none := congrArg Request.conn hop
      have htype : op.opcode = .accept := congrArg Request.type hop
      have haddr := (h.backed cqe.op hmem).accept hopcode
      have hnew : op.userData ∉ openKeys ∅ (s.popCqe rest).requestLog :=
        hfresh op.userData hcalloc
      have hheld : Ledger base (s.popCqe rest) {cqe.op.userData} 0
          (Pc.accepted cqe.op.userData cqe.res).opened 1 := by
        rw [← opened_accepted hopcode]
        simpa [haddr, Sqe.clientFd, hopcode, Pc.request, Pc.opened] using hpop
      have hsubmitted : Ledger base
          (((s.popCqe rest).allocRequest op.userData op.request).submitted op)
          {cqe.op.userData} 0 (Pc.accepted cqe.op.userData cqe.res).opened 0 := by
        apply Ledger.submit _ hnew (fun _ => hnone)
          (fun hacc => absurd htype hacc)
        simpa [hnone, Sqe.clientFd, htype] using hheld
      exact hsubmitted.congr ⟨rfl, rfl, rfl, rfl, rfl⟩ rfl rfl
  | closed c k hopcode haddr hk hfd hpos _ =>
      have hheld := h.popClient hpc hcq hopcode haddr hfd
      exact hheld.drop hpos
  | received c k op hopcode haddr hk hfd hpos _ hcalloc _ hop _ =>
      have hclient : cqe.op.opcode ≠ .accept := by simp [hopcode]
      have hheld := h.popClient hpc hcq hclient haddr hfd
      have hset := hheld.touch hk { k with length := cqe.res.toNat } rfl
      have htype : op.opcode = .send := congrArg Request.type hop
      exact Ledger.resubmit (k := { k with length := cqe.res.toNat }) hset
        (Function.update_self _ _ _) hpos (by simp [htype])
        (congrArg Request.fd hop) (congrArg Request.conn hop)
        (hfresh op.userData hcalloc)
  | sent c k op hopcode haddr hk hfd hpos _ hcalloc _ hop _ =>
      have hclient : cqe.op.opcode ≠ .accept := by simp [hopcode]
      have hheld := h.popClient hpc hcq hclient haddr hfd
      have htype : op.opcode = .recv := congrArg Request.type hop
      exact hheld.resubmit hk hpos (by simp [htype])
        (congrArg Request.fd hop) (congrArg Request.conn hop)
        (hfresh op.userData hcalloc)

/-- The rest of the `OP_ACCEPT` branch. -/
theorem connect_inv (h : Inv base s) {req : Nat} {result : Int}
    (hpc : s.pc = .accepted req result) {callocConn calloc : Option Nat}
    {enter : Option Errno} {out : Except Halt State}
    (hconnected : Connected s req result callocConn calloc enter out)
    (hconn : FreshIn s.connLog callocConn) (hfresh : FreshIn s.requestLog calloc) :
    Inv base (s.run out) := by
  have hheld : Ledger base s {req} 0
      (if 0 ≤ result then {result} else 0) 0 := by
    have hinv := h
    rw [Inv, hpc] at hinv
    exact hinv
  cases hconnected with
  | failed why _ => exact h.halted (.die why)
  | nobody hres =>
      rw [if_neg (by omega)] at hheld
      have hreq : Ledger base s (req ::ₘ 0) 0 0 0 := hheld
      exact hreq.freeReq
  | refused hres _ =>
      rw [if_pos hres] at hheld
      have hreq : Ledger base s (req ::ₘ 0) 0 (result ::ₘ 0) 0 := hheld
      exact hreq.closeFd.freeReq
  | connected c op hres hc hcalloc _ hop _ =>
      rw [if_pos hres] at hheld
      have hnew := hheld.allocConn (hconn c hc) (newConnection result)
      have htype : op.opcode = .recv := congrArg Request.type hop
      exact Ledger.resubmit (k := newConnection result) hnew
        (Function.update_self _ _ _) hres (by simp [htype])
        (congrArg Request.fd hop) (congrArg Request.conn hop)
        (hfresh op.userData hcalloc)

/-- A completion that opened nothing is posted. -/
theorem Ledger.postedQuiet {reqs cs : Multiset Nat} {fs : Multiset Int}
    {acc : Nat} {op : Sqe} {res : Int}
    (h : Ledger base s (op.userData ::ₘ reqs) (op.addr.toList + cs)
      (op.clientFd.toList + fs) (acc + if op.opcode = .accept then 1 else 0))
    (hbacked : Backed s.requests s.conns op)
    (hquiet : op.opcode = .accept → res < 0) (cqEntries : Nat) :
    Ledger base (post cqEntries s ⟨op.userData, res, op⟩) reqs cs fs acc := by
  have hnone : (⟨op.userData, res, op⟩ : Cqe).opened = none := by
    have hboth : ¬ (op.opcode = .accept ∧ 0 ≤ res) := by
      rintro ⟨hopcode, hres⟩
      have := hquiet hopcode
      omega
    simp only [Cqe.opened, hboth, if_false]
  have hposted : Ledger base s (op.userData ::ₘ reqs) (op.addr.toList + cs)
      (((⟨op.userData, res, op⟩ : Cqe).opened.toList +
        op.clientFd.toList : Multiset Int) + fs)
      (acc + if op.opcode = .accept then 1 else 0) := by
    rw [hnone]
    simpa using h
  exact hposted.posted rfl hbacked cqEntries

/-- A read or a write of a connection's operation. -/
theorem Ledger.opCall {reqs cs : Multiset Nat} {fs : Multiset Int} {acc : Nat}
    {op : Sqe} (h : Ledger base s reqs cs (op.clientFd.toList + fs) acc)
    (hopcode : op.opcode ≠ .accept) (call : Syscall)
    (hsame : clients base (call :: s.trace) = clients base s.trace)
    (hlawful : op.fd ∈ openKeys base s.trace → LawfulCall base call s.trace) :
    Ledger base (s.called call) reqs cs (op.clientFd.toList + fs) acc := by
  have hopen : op.fd ∈ openKeys base s.trace := by
    apply h.mem_open
    simp [Sqe.clientFd, hopcode]
  exact h.call hsame (hlawful hopen)

/-- The kernel completes an operation. -/
theorem complete_inv (h : Inv base s) {cqEntries n : Nat} {out : Outcome}
    {op : Sqe} {u : State} {res : Int} (hn : s.inflight[n]? = some op)
    (hbacked : Backed s.requests s.conns op)
    (hperformed : Performed (s.takeUp n) op out (u, res))
    (hk : KernelOk base (post cqEntries u ⟨op.userData, res, op⟩).trace) :
    Inv base (post cqEntries u ⟨op.userData, res, op⟩) := by
  have htaken := h.takeUp hn
  obtain ⟨_, hpc, hmemory, _⟩ := post_same cqEntries u ⟨op.userData, res, op⟩
  rw [hmemory.trace] at hk
  rw [Inv, hpc]
  cases hperformed with
  | opened fd hopcode _ =>
      obtain ⟨⟨hpos, hnew⟩, _⟩ := hk
      have hopened := htaken.acceptFd hnew
      have hfound : (⟨op.userData, res, op⟩ : Cqe).opened = some res := by
        simp [Cqe.opened, hopcode, hpos]
      have hclient : op.clientFd = none := by
        simp [Sqe.clientFd, hopcode]
      rw [hclient] at hopened
      have hposted : Ledger base ((s.takeUp n).called (.accept res))
          (op.userData ::ₘ s.pc.request) (op.addr.toList + 0)
          (((⟨op.userData, res, op⟩ : Cqe).opened.toList +
            op.clientFd.toList : Multiset Int) + s.pc.opened)
          (0 + if op.opcode = .accept then 1 else 0) := by
        rw [hfound, hclient]
        simpa using hopened
      exact hposted.posted rfl hbacked cqEntries
  | declined e hopcode _ =>
      exact htaken.postedQuiet hbacked (fun _ => by decide) cqEntries
  | read c k bytes hopcode haddr hck hfd _ =>
      have hne : op.opcode ≠ .accept := by simp [hopcode]
      have hcall := htaken.opCall hne
        (.read op.fd op.len (.ok bytes)) clients_read id
      have htouch := hcall.touch hck
        { k with buffer := k.buffer.store bytes } rfl
      exact htouch.postedQuiet (hbacked.touch hck rfl)
        (fun hacc => absurd hacc hne) cqEntries
  | readFailed e hopcode _ =>
      have hne : op.opcode ≠ .accept := by simp [hopcode]
      have hcall := htaken.opCall hne
        (.read op.fd op.len (.error e)) clients_read id
      exact hcall.postedQuiet hbacked (fun hacc => absurd hacc hne) cqEntries
  | wrote c k n hopcode _ _ _ _ =>
      have hne : op.opcode ≠ .accept := by simp [hopcode]
      have hcall := htaken.opCall hne
        (.write op.fd (k.buffer.window 0 op.len) (.ok n))
        clients_write id
      exact hcall.postedQuiet hbacked (fun hacc => absurd hacc hne) cqEntries
  | writeFailed c k e hopcode _ _ _ _ =>
      have hne : op.opcode ≠ .accept := by simp [hopcode]
      have hcall := htaken.opCall hne
        (.write op.fd (k.buffer.window 0 op.len) (.error e))
        clients_write id
      exact hcall.postedQuiet hbacked (fun hacc => absurd hacc hne) cqEntries

theorem flush_queued {cqe : Cqe} {rest : List Cqe}
    (hoverflow : s.overflow = cqe :: rest) :
    { s with cq := s.cq ++ [cqe], overflow := rest }.queued = s.queued := by
  rw [State.queued, State.queued, hoverflow, Multiset.coe_add, Multiset.coe_add,
    List.append_assoc]
  rfl

/-- The kernel moves a completion over from the overflow list. -/
theorem flush_inv (h : Inv base s) {cqe : Cqe} {rest : List Cqe}
    (hoverflow : s.overflow = cqe :: rest) :
    Inv base { s with cq := s.cq ++ [cqe], overflow := rest } := by
  have hqueued := flush_queued hoverflow
  apply Ledger.congr (t := { s with cq := s.cq ++ [cqe], overflow := rest })
    h ⟨rfl, rfl, rfl, rfl, rfl⟩ _ hqueued
  rw [State.ops, hqueued]
  rfl

theorem step_inv (h : Inv base s) {cqEntries : Nat} {listenFd : Int} {e : Event}
    (hstep : step cqEntries listenFd s e = some t) (hk : KernelOk base t.trace)
    (hans : Answer s e) : Inv base t := by
  cases (step_stepped h hstep).2 with
  | completed n out op u res hn hbacked hperformed =>
      exact complete_inv h hn hbacked hperformed hk
  | flushed cqe rest hoverflow _ => exact flush_inv h hoverflow
  | waited enter _ _ =>
      rcases enter with _ | errno
      · exact h
      · exact h.halted _
  | entered hpc _ =>
      rw [Inv, hpc] at h
      exact h.congr ⟨rfl, rfl, rfl, rfl, rfl⟩ rfl rfl
  | published hpc _ =>
      rw [Inv, hpc] at h
      exact h.congr ⟨rfl, rfl, rfl, rfl, rfl⟩ rfl rfl
  | handled cqe rest calloc enter out hpc hcq hhandled =>
      exact handle_inv h hpc hcq hhandled hans.1
  | connected req result callocConn calloc enter out hpc hconnected =>
      exact connect_inv h hpc hconnected hans.1 hans.2.1

end Steps

/-- The first submission hands out what there is: one request. -/
theorem initial_inv {base : Finset Int} {listenFd : Int} {a : Nat} {s : State}
    (h : request blank (some a) none .accept listenFd none = .ok s) :
    Inv base s := by
  obtain ⟨op, _, _, hop, _, _, rfl⟩ := request_ok (fun _ => rfl) h
  have hnone : op.addr = none := congrArg Request.conn hop
  have htype : op.opcode = .accept := congrArg Request.type hop
  have hblank : Ledger base blank 0 0 0 1 := by
    refine ⟨rfl, rfl, ?_, rfl, ?_, ?_, ?_, trivial, trivial, trivial⟩
    · show (0 : Multiset Int) = (clients base ([] : Trace)).val
      rw [clients_nil]
      rfl
    · intro op hop
      exact absurd hop (Multiset.notMem_zero op)
    · intro c k hk
      cases hk
    · intro cqe hcqe
      exact absurd hcqe (Multiset.notMem_zero cqe)
  show Ledger base _ 0 0 0 0
  apply Ledger.submit _ (Finset.notMem_empty _) (fun _ => hnone)
    (fun hacc => absurd htype hacc)
  simpa [hnone, htype, Sqe.clientFd] using hblank

/-- Ownership is linear in every reachable state. -/
theorem reachable_inv {cqEntries : Nat} {base : Finset Int} {listenFd : Int}
    {s : State} (hs : (system cqEntries base listenFd).Reachable s) :
    Inv base s := by
  refine hs.induct ?_ ?_
  · rintro s ⟨a, ha⟩
    exact initial_inv ha
  · rintro s e t _ hinv ⟨hstep, hk, hans⟩
    exact step_inv hinv hstep hk hans

end SysLab.PartB.IoUringServer
