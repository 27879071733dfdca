import SysLab.PartB.IoUringOwnership

/-!
# What the `io_uring` server owes its clients

The bytes of a connection pass through its buffer: a completed `RECV` leaves
them there, the `SEND` submitted for it offers them, and the next `RECV` is
submitted however many of them the `SEND` has taken.  `Owed` says of every
outstanding operation which bytes of its connection are still to be echoed;
a `RECV` in flight owes none, and a completed `SEND` owes what it left.
-/

namespace SysLab.PartB.IoUringServer

open SysLab.Foundation
open SysLab.Foundation.Transcript

/-! ## Bytes of an operation -/

/-- The buffer an operation works on. -/
def Sqe.buffer (op : Sqe) (conns : Nat → Option Connection) :
    Buffer UInt8 bufferSize :=
  match op.addr.bind conns with
  | some k => k.buffer
  | none => .fill bufferSize 0

/-- What an operation in flight has to write. -/
def Sqe.pending (op : Sqe) (conns : Nat → Option Connection) : List UInt8 :=
  match op.opcode with
  | .send => (op.buffer conns).window 0 op.len
  | _ => []

/-- What is unwritten of the connection's input when an operation has
completed: all a `RECV` has delivered, and all a `SEND` has left. -/
def Cqe.pending (cqe : Cqe) (conns : Nat → Option Connection) : List UInt8 :=
  match cqe.op.opcode with
  | .accept => []
  | .recv => (cqe.op.buffer conns).window 0 cqe.res.toNat
  | .send => (cqe.op.buffer conns).window cqe.res.toNat cqe.op.len

theorem Sqe.buffer_eq {conns : Nat → Option Connection} {op : Sqe} {c : Nat}
    {k : Connection} (haddr : op.addr = some c) (hk : conns c = some k) :
    op.buffer conns = k.buffer := by
  simp [Sqe.buffer, haddr, hk]

/-- A `RECV` in flight has nothing to write. -/
theorem Sqe.pending_recv {conns : Nat → Option Connection} {op : Sqe}
    (hopcode : op.opcode = .recv) : op.pending conns = [] := by
  simp only [Sqe.pending, hopcode]

section Pending

variable {conns : Nat → Option Connection} {c : Nat} {k : Connection}

theorem Sqe.pending_send {op : Sqe} (hopcode : op.opcode = .send)
    (haddr : op.addr = some c) (hk : conns c = some k) :
    op.pending conns = k.buffer.window 0 op.len := by
  simp only [Sqe.pending, hopcode, Sqe.buffer_eq haddr hk]

theorem Cqe.pending_send {cqe : Cqe} (hopcode : cqe.op.opcode = .send)
    (haddr : cqe.op.addr = some c) (hk : conns c = some k) :
    cqe.pending conns = k.buffer.window cqe.res.toNat cqe.op.len := by
  simp only [Cqe.pending, hopcode, Sqe.buffer_eq haddr hk]

theorem Cqe.pending_recv {cqe : Cqe} (hopcode : cqe.op.opcode = .recv)
    (haddr : cqe.op.addr = some c) (hk : conns c = some k) :
    cqe.pending conns = k.buffer.window 0 cqe.res.toNat := by
  simp only [Cqe.pending, hopcode, Sqe.buffer_eq haddr hk]

/-- An operation that failed has left what it was submitted with. -/
theorem Cqe.pending_failed {op : Sqe} (hclient : op.opcode ≠ .accept) :
    (⟨op.userData, failed, op⟩ : Cqe).pending conns = op.pending conns := by
  cases hopcode : op.opcode with
  | accept => exact absurd hopcode hclient
  | recv => simp [Cqe.pending, Sqe.pending, hopcode, failed]
  | send => simp [Cqe.pending, Sqe.pending, hopcode, failed]

end Pending

theorem Sqe.pending_congr {conns conns' : Nat → Option Connection} {op : Sqe}
    (h : op.buffer conns' = op.buffer conns) :
    op.pending conns' = op.pending conns := by
  rw [Sqe.pending, Sqe.pending, h]

theorem Cqe.pending_congr {conns conns' : Nat → Option Connection} {cqe : Cqe}
    (h : cqe.op.buffer conns' = cqe.op.buffer conns) :
    cqe.pending conns' = cqe.pending conns := by
  rw [Cqe.pending, Cqe.pending, h]

/-- A write to another connection does not show. -/
theorem Sqe.buffer_update {conns : Nat → Option Connection} {op : Sqe} {c : Nat}
    (haddr : op.addr ≠ some c) (k : Option Connection) :
    op.buffer (Function.update conns c k) = op.buffer conns := by
  rcases h : op.addr with _ | c'
  · simp [Sqe.buffer, h]
  · have hne : c' ≠ c := by
      rintro rfl
      exact haddr h
    simp [Sqe.buffer, h, Function.update_of_ne hne]

/-! ## What is owed -/

/-- An operation in flight: its entry fits the buffer, and what it has to write
is all that is owed. -/
def Sqe.Owes (s : State) (op : Sqe) : Prop :=
  op.opcode ≠ .accept →
    op.len ≤ bufferSize ∧ Conserved s.trace op.fd (op.pending s.conns)

/-- A completed one: it moved no more than was asked, and what it left is all
that is owed. -/
def Cqe.Owes (s : State) (cqe : Cqe) : Prop :=
  cqe.op.opcode ≠ .accept →
    cqe.op.len ≤ bufferSize ∧ cqe.res ≤ cqe.op.len ∧
      Conserved s.trace cqe.op.fd (cqe.pending s.conns)

/-- What every outstanding operation owes, `fs` being the descriptors in hand
that no byte has passed through yet. -/
structure Owed (s : State) (fs : Multiset Int) : Prop where
  inflight : ∀ op ∈ s.inflight, op.Owes s
  queued : ∀ cqe ∈ s.queued, cqe.Owes s
  opened : ∀ fd ∈ fs + s.queued.filterMap Cqe.opened, Conserved s.trace fd []
  halfDuplex : HalfDuplex s.trace

section Rules

variable {s : State} {fs : Multiset Int}

/-- A call on a descriptor in hand moves no byte of the outstanding ones. -/
theorem Owed.frame (h : Owed s fs) {call : Syscall}
    (hcall : HalfDuplexCall call s.trace)
    (hkey : call.key ∉
      fs + (s.queued.filterMap Cqe.opened + s.ops.filterMap Sqe.clientFd)) :
    Owed (s.called call) fs := by
  have hclient : ∀ op ∈ s.ops, op.opcode ≠ .accept → call.key ≠ op.fd := by
    intro op hop hopcode heq
    apply hkey
    refine Multiset.mem_add.mpr (.inr (Multiset.mem_add.mpr (.inr ?_)))
    apply (Multiset.mem_filterMap _ _).mpr
    exact ⟨op, hop, by simp [Sqe.clientFd, hopcode, heq]⟩
  constructor
  · intro op hop hopcode
    obtain ⟨hlen, hconserved⟩ := h.inflight op hop hopcode
    exact ⟨hlen, hconserved.frame (hclient op (mem_ops_of_inflight hop) hopcode)⟩
  · intro cqe hcqe hopcode
    obtain ⟨hlen, hres, hconserved⟩ := h.queued cqe hcqe hopcode
    exact ⟨hlen, hres,
      hconserved.frame (hclient cqe.op (mem_ops_of_queued hcqe) hopcode)⟩
  · intro fd hfd
    apply (h.opened fd hfd).frame
    rintro rfl
    apply hkey
    rw [← add_assoc]
    exact Multiset.mem_add.mpr (.inl hfd)
  · exact ⟨hcall, h.halfDuplex⟩

/-- The connection objects may change as long as the buffers of the outstanding
operations do not. -/
theorem Owed.touch (h : Owed s fs) {t : State} (hin : t.inflight = s.inflight)
    (hqueued : t.queued = s.queued) (htrace : t.trace = s.trace)
    (hbuffer : ∀ op ∈ s.ops, op.buffer t.conns = op.buffer s.conns) :
    Owed t fs := by
  constructor
  · intro op hop hopcode
    rw [hin] at hop
    rw [htrace, Sqe.pending_congr (hbuffer op (mem_ops_of_inflight hop))]
    exact h.inflight op hop hopcode
  · intro cqe hcqe hopcode
    rw [hqueued] at hcqe
    rw [htrace, Cqe.pending_congr (hbuffer cqe.op (mem_ops_of_queued hcqe))]
    exact h.queued cqe hcqe hopcode
  · rw [hqueued, htrace]
    exact h.opened
  · rw [htrace]
    exact h.halfDuplex

theorem Owed.same (h : Owed s fs) {t : State} (hin : t.inflight = s.inflight)
    (hqueued : t.queued = s.queued) (htrace : t.trace = s.trace)
    (hconns : t.conns = s.conns) : Owed t fs :=
  h.touch hin hqueued htrace (fun op _ => congrArg op.buffer hconns)

/-- The kernel takes up an operation in flight. -/
theorem Owed.takeUp (h : Owed s fs) {n : Nat} {op : Sqe}
    (hn : s.inflight[n]? = some op) : op.Owes s ∧ Owed (s.takeUp n) fs := by
  constructor
  · exact h.inflight op (List.mem_of_getElem? hn)
  · exact ⟨fun op' hop' => h.inflight op' (List.mem_of_mem_eraseIdx hop'),
      h.queued, h.opened, h.halfDuplex⟩

/-- A completion is taken off the queue. -/
theorem Owed.pop (h : Owed s fs) {cqe : Cqe} {rest : List Cqe}
    (hcq : s.cq = cqe :: rest) :
    cqe.Owes s ∧ Owed (s.popCqe rest) (cqe.opened.toList + fs) := by
  have hqueued := popCqe_queued hcq
  have hall := h.queued
  have hopened := h.opened
  rw [hqueued] at hall
  rw [hqueued, filterMap_cons_toList] at hopened
  refine ⟨hall cqe (Multiset.mem_cons_self _ _), h.inflight, ?_, ?_,
    h.halfDuplex⟩
  · intro cqe' hcqe'
    exact hall cqe' (Multiset.mem_cons_of_mem hcqe')
  · intro fd hfd
    apply hopened
    rwa [add_left_comm, ← add_assoc]

/-- An operation is submitted. -/
theorem Owed.submitted (h : Owed s fs) {op : Sqe} (hop : op.Owes s) :
    Owed (s.submitted op) fs := by
  refine ⟨?_, h.queued, h.opened, h.halfDuplex⟩
  intro op' hop'
  rcases List.mem_cons.mp hop' with rfl | hold
  · exact hop
  · exact h.inflight op' hold

/-- A completion is posted. -/
theorem Owed.posted (h : Owed s fs) {cqe : Cqe} (hcqe : cqe.Owes s)
    (hopened : ∀ fd ∈ cqe.opened, Conserved s.trace fd []) (cqEntries : Nat) :
    Owed (post cqEntries s cqe) fs := by
  obtain ⟨_, _, hsame, hinflight⟩ := post_same cqEntries s cqe
  constructor
  · rw [hinflight]
    intro op hop hopcode
    rw [hsame.trace, hsame.conns]
    exact h.inflight op hop hopcode
  · intro cqe' hcqe' hopcode
    rw [hsame.trace, hsame.conns]
    rw [post_queued] at hcqe'
    rcases Multiset.mem_cons.mp hcqe' with rfl | hold
    · exact hcqe hopcode
    · exact h.queued cqe' hold hopcode
  · intro fd hfd
    rw [hsame.trace]
    rw [post_queued, filterMap_cons_toList, add_left_comm] at hfd
    rcases Multiset.mem_add.mp hfd with hnew | hold
    · exact hopened fd (by simpa using hnew)
    · exact h.opened fd hold
  · rw [hsame.trace]
    exact h.halfDuplex

end Rules

/-! ## Every step pays -/

section Steps

variable {base : Finset Int} {s : State}

/-- What the loop owes between two of its steps. -/
def EchoInv (s : State) : Prop := Owed s s.pc.opened

/-- An operation of a client opens nothing. -/
theorem opened_of_client {cqe : Cqe} (h : cqe.op.opcode ≠ .accept) :
    cqe.opened = none := by
  simp [Cqe.opened, h]

/-- A read or a write of an operation in hand. -/
theorem Owed.opCall {reqs cs : Multiset Nat} {fs : Multiset Int} {acc : Nat}
    {op : Sqe} (h : Owed s fs)
    (hledger : Ledger base s reqs cs (op.clientFd.toList + fs) acc)
    (hopcode : op.opcode ≠ .accept) {call : Syscall} (hkey : call.key = op.fd)
    (hcall : HalfDuplexCall call s.trace) : Owed (s.called call) fs := by
  have hclient : op.clientFd = some op.fd := by
    simp [Sqe.clientFd, hopcode]
  rw [hclient] at hledger
  have hheld : Ledger base s reqs cs (op.fd ::ₘ fs) acc := by
    simpa using hledger
  apply h.frame hcall
  rw [hkey]
  exact hheld.fd_notMem

/-- A completion of a client's operation is posted. -/
theorem Owed.postedClient {fs : Multiset Int} (h : Owed s fs) {op : Sqe}
    {res : Int} (hopcode : op.opcode ≠ .accept) (hlen : op.len ≤ bufferSize)
    (hres : res ≤ op.len)
    (hconserved : Conserved s.trace op.fd
      ((⟨op.userData, res, op⟩ : Cqe).pending s.conns)) (cqEntries : Nat) :
    Owed (post cqEntries s ⟨op.userData, res, op⟩) fs := by
  apply h.posted (fun _ => ⟨hlen, hres, hconserved⟩)
  have hnone : (⟨op.userData, res, op⟩ : Cqe).opened = none :=
    opened_of_client hopcode
  rw [hnone]
  intro fd hfd
  cases hfd

section Completed

variable {reqs cs : Multiset Nat} {fs : Multiset Int} {acc : Nat} {op : Sqe}

/-- An accepted descriptor owes nothing yet. -/
theorem Owed.acceptOp (h : Owed s fs)
    (hledger : Ledger base s reqs cs (op.clientFd.toList + fs) acc)
    (hopcode : op.opcode = .accept) {fd : Int} (hpos : 0 ≤ fd)
    (hnew : fd ∉ openKeys base s.trace) (cqEntries : Nat) :
    Owed (post cqEntries (s.called (.accept fd)) ⟨op.userData, fd, op⟩) fs := by
  have hduplex : HalfDuplexCall (.accept fd) s.trace := trivial
  have hcalled : Owed (s.called (.accept fd)) fs := by
    apply h.frame hduplex
    intro hmem
    apply hnew
    apply hledger.mem_open
    rw [add_assoc]
    exact Multiset.mem_add.mpr (.inr hmem)
  apply hcalled.posted (fun hclient => absurd hopcode hclient)
  have hfound : (⟨op.userData, fd, op⟩ : Cqe).opened = some fd := by
    simp [Cqe.opened, hopcode, hpos]
  rw [hfound]
  intro fd' hfd'
  cases hfd'
  exact Conserved.accept s.trace fd

/-- A client's operation that failed owes what it owed. -/
theorem Owed.failedOp (h : Owed s fs)
    (hledger : Ledger base s reqs cs (op.clientFd.toList + fs) acc)
    (hclient : op.opcode ≠ .accept) (hlen : op.len ≤ bufferSize)
    (hconserved : Conserved s.trace op.fd (op.pending s.conns)) (call : Syscall)
    (hkey : call.key = op.fd) (hcall : HalfDuplexCall call s.trace)
    (hopens : call.opens = false) (hdelivered : call.delivered = [])
    (htaken : call.taken = []) (cqEntries : Nat) :
    Owed (post cqEntries (s.called call) ⟨op.userData, failed, op⟩) fs := by
  have hcalled := h.opCall hledger hclient hkey hcall
  have hres : failed ≤ op.len := le_trans (by decide) (Int.natCast_nonneg _)
  apply hcalled.postedClient hclient hlen hres
  rw [Cqe.pending_failed hclient]
  exact hconserved.idle hopens hdelivered htaken

/-- A `RECV` has put into the buffer what is now owed. -/
theorem Owed.readOp (h : Owed s fs) {c : Nat} {k : Connection}
    (hledger : Ledger base s reqs (c ::ₘ cs) (op.clientFd.toList + fs) acc)
    (hopcode : op.opcode = .recv) (haddr : op.addr = some c)
    (hlen : op.len ≤ bufferSize) {bytes : List UInt8}
    (hfits : bytes.length ≤ op.len) (hconserved : Conserved s.trace op.fd [])
    (cqEntries : Nat) :
    Owed (post cqEntries ((s.called (.read op.fd op.len (.ok bytes))).setConnection
      c { k with buffer := k.buffer.store bytes })
      ⟨op.userData, bytes.length, op⟩) fs := by
  have hclient : op.opcode ≠ .accept := by simp [hopcode]
  have hkey : (Call.read op.fd op.len (.ok bytes) : Syscall).key = op.fd := rfl
  have hcalled := h.opCall hledger hclient hkey hconserved
  have hstored := hcalled.touch
    (t := (s.called (.read op.fd op.len (.ok bytes))).setConnection c
      { k with buffer := k.buffer.store bytes }) rfl rfl rfl
    (fun op' hop' => Sqe.buffer_update (hledger.conn_ne hop') _)
  have hpending : (⟨op.userData, bytes.length, op⟩ : Cqe).pending
      (Function.update s.conns c
        (some { k with buffer := k.buffer.store bytes })) = bytes := by
    rw [Cqe.pending_recv hopcode haddr (Function.update_self _ _ _)]
    exact k.buffer.window_store (le_trans hfits hlen)
  apply hstored.postedClient hclient hlen (Int.ofNat_le.mpr hfits)
  show Conserved _ _ (Cqe.pending _ (Function.update s.conns c _))
  rw [hpending]
  exact hconserved.read op.len bytes

/-- A `SEND` owes what it has left. -/
theorem Owed.wroteOp (h : Owed s fs) {c : Nat} {k : Connection}
    (hledger : Ledger base s reqs cs (op.clientFd.toList + fs) acc)
    (hopcode : op.opcode = .send) (haddr : op.addr = some c)
    (hk : s.conns c = some k) (hlen : op.len ≤ bufferSize) {n : Nat}
    (hfits : n ≤ op.len)
    (hconserved : Conserved s.trace op.fd (k.buffer.window 0 op.len))
    (cqEntries : Nat) :
    Owed (post cqEntries
      (s.called (.write op.fd (k.buffer.window 0 op.len) (.ok n)))
      ⟨op.userData, n, op⟩) fs := by
  have hclient : op.opcode ≠ .accept := by simp [hopcode]
  have hkey : (Call.write op.fd (k.buffer.window 0 op.len) (.ok n) :
    Syscall).key = op.fd := rfl
  have hcalled := h.opCall hledger hclient hkey hconserved
  have hpending : (⟨op.userData, n, op⟩ : Cqe).pending s.conns =
      k.buffer.window n op.len := Cqe.pending_send hopcode haddr hk
  apply hcalled.postedClient hclient hlen (Int.ofNat_le.mpr hfits)
  show Conserved _ _ (Cqe.pending _ s.conns)
  have hwritten := hconserved.write n
  rw [Buffer.drop_window, zero_add] at hwritten
  rw [hpending]
  exact hwritten

end Completed

/-- The kernel completes an operation. -/
theorem complete_owed (hinv : Inv base s) (h : EchoInv s) {cqEntries n : Nat}
    {out : Outcome} {op : Sqe} {u : State} {res : Int}
    (hn : s.inflight[n]? = some op)
    (hperformed : Performed (s.takeUp n) op out (u, res))
    (hk : KernelOk base (post cqEntries u ⟨op.userData, res, op⟩).trace) :
    EchoInv (post cqEntries u ⟨op.userData, res, op⟩) := by
  obtain ⟨howes, htaken⟩ := h.takeUp hn
  have hledger := hinv.takeUp hn
  obtain ⟨_, hpc, hmemory, _⟩ := post_same cqEntries u ⟨op.userData, res, op⟩
  rw [hmemory.trace] at hk
  rw [EchoInv, hpc]
  cases hperformed with
  | opened fd hopcode _ =>
      obtain ⟨⟨hpos, hnew⟩, _⟩ := hk
      exact htaken.acceptOp hledger hopcode hpos hnew cqEntries
  | declined e hopcode _ =>
      apply htaken.posted (fun hclient => absurd hopcode hclient)
      intro fd hfd
      simp [Cqe.opened, failed] at hfd
  | read c k bytes hopcode haddr hck hfd _ =>
      have hclient : op.opcode ≠ .accept := by simp [hopcode]
      obtain ⟨hlen, hconserved⟩ := howes hclient
      obtain ⟨hsane, _⟩ := hk
      have hfits : bytes.length ≤ op.len := hsane
      rw [Sqe.pending_recv hopcode] at hconserved
      rw [haddr] at hledger
      have hheld : Ledger base (s.takeUp n) _ (c ::ₘ 0) _ _ := hledger
      exact htaken.readOp hheld hopcode haddr hlen hfits hconserved cqEntries
  | readFailed e hopcode _ =>
      have hclient : op.opcode ≠ .accept := by simp [hopcode]
      obtain ⟨hlen, hconserved⟩ := howes hclient
      have hcall := hconserved
      rw [Sqe.pending_recv hopcode] at hcall
      exact htaken.failedOp hledger hclient hlen hconserved
        (.read op.fd op.len (.error e)) rfl hcall rfl rfl rfl cqEntries
  | wrote c k m hopcode haddr hck hfd _ =>
      have hclient : op.opcode ≠ .accept := by simp [hopcode]
      obtain ⟨hlen, hconserved⟩ := howes hclient
      obtain ⟨hsane, _⟩ := hk
      have hfits : m ≤ op.len := by
        have hwindow : m ≤ (k.buffer.window 0 op.len).length := hsane
        rw [k.buffer.length_window hlen] at hwindow
        omega
      have hlive : s.conns c = some k := hck
      rw [Sqe.pending_send hopcode haddr hlive] at hconserved
      exact htaken.wroteOp hledger hopcode haddr hck hlen hfits hconserved
        cqEntries
  | writeFailed c k e hopcode haddr hck hfd _ =>
      have hclient : op.opcode ≠ .accept := by simp [hopcode]
      obtain ⟨hlen, hconserved⟩ := howes hclient
      have hcall := hconserved
      have hlive : s.conns c = some k := hck
      rw [Sqe.pending_send hopcode haddr hlive] at hcall
      exact htaken.failedOp hledger hclient hlen hconserved
        (.write op.fd (k.buffer.window 0 op.len) (.error e))
        rfl hcall rfl rfl rfl cqEntries

/-- Every `SEND` whose completion makes the loop submit a `RECV` took all the
bytes that were submitted. -/
def SentAll (s : State) : Event → Prop
  | .handle (some _) none => ∀ cqe ∈ s.cq.head?, cqe.op.opcode = .send →
      0 < cqe.res → cqe.res = cqe.op.len
  | _ => True

instance (s : State) : (e : Event) → Decidable (SentAll s e)
  | .handle (some _) none => inferInstanceAs (Decidable (∀ cqe ∈ _, _))
  | .handle (some _) (some _) => isTrue trivial
  | .handle none _ => isTrue trivial
  | .complete _ _ => isTrue trivial
  | .flush => isTrue trivial
  | .wait _ => isTrue trivial
  | .turn => isTrue trivial
  | .connect _ _ _ => isTrue trivial

/-- A client's completion is taken off the queue. -/
theorem EchoInv.popClient (h : EchoInv s) (hpc : s.pc = .inner) {cqe : Cqe}
    {rest : List Cqe} (hcq : s.cq = cqe :: rest)
    (hclient : cqe.op.opcode ≠ .accept) :
    cqe.Owes s ∧ Owed (s.popCqe rest) 0 := by
  obtain ⟨howes, hpop⟩ := Owed.pop h hcq
  rw [hpc, opened_of_client hclient] at hpop
  exact ⟨howes, by simpa [Pc.opened] using hpop⟩

/-- A connection in hand is closed and freed. -/
theorem Owed.closeConn {reqs cs : Multiset Nat} {acc c : Nat} {k : Connection}
    (h : Owed s 0) (hledger : Ledger base s reqs (c ::ₘ cs) (k.fd ::ₘ 0) acc)
    (hpos : 0 ≤ k.fd) : Owed (freeConnection (closeConnection s c k) c) 0 := by
  have hother : ∀ (k' : Option Connection), ∀ op ∈ s.ops,
      ∀ conns, op.buffer (Function.update conns c k') = op.buffer conns :=
    fun k' op hop _ => Sqe.buffer_update (hledger.conn_ne hop) k'
  have hduplex : HalfDuplexCall (.close k.fd) s.trace := trivial
  have hcalled := h.frame hduplex hledger.fd_notMem
  have hset : Owed (closeConnection s c k) 0 := by
    rw [closeConnection, if_pos hpos]
    exact hcalled.touch (t := (s.called (.close k.fd)).setConnection c
      { k with fd := -1, length := 0 }) rfl rfl rfl
      (fun op hop => hother _ op hop _)
  have hsame : (closeConnection s c k).ops = s.ops := by
    rw [closeConnection, if_pos hpos]
    rfl
  exact hset.touch (t := freeConnection (closeConnection s c k) c) rfl rfl rfl
    (fun op hop => hother _ op (hsame ▸ hop) _)

/-- The completion at the head of the queue is handled. -/
theorem handle_owed (hinv : Inv base s) (h : EchoInv s) (hpc : s.pc = .inner)
    {cqe : Cqe} {rest : List Cqe} (hcq : s.cq = cqe :: rest) {listenFd : Int}
    {calloc : Option Nat} {enter : Option Errno} {out : Except Halt State}
    (hhandled : Handled listenFd (s.popCqe rest) cqe calloc enter out)
    (hsent : SentAll s (.handle calloc enter)) : EchoInv (s.run out) := by
  cases hhandled with
  | failed why _ => exact h.same rfl rfl rfl rfl
  | accept op hopcode _ _ hop =>
      obtain ⟨_, hpop⟩ := Owed.pop h hcq
      have htype : op.opcode = .accept := congrArg Request.type hop
      rw [hpc, opened_accepted hopcode] at hpop
      have hheld : Owed (s.popCqe rest)
          (Pc.accepted cqe.op.userData cqe.res).opened := by
        simpa [Pc.opened] using hpop
      have hsubmitted : Owed ((s.popCqe rest).submitted op) _ :=
        hheld.submitted (fun hclient => absurd htype hclient)
      exact hsubmitted.same rfl rfl rfl rfl
  | closed c k hclient haddr hk hfd hpos _ =>
      obtain ⟨_, hnone⟩ := h.popClient hpc hcq hclient
      have hledger := hinv.popClient hpc hcq hclient haddr hfd
      have hheld : Ledger base (s.popCqe rest) _ (c ::ₘ 0) (k.fd ::ₘ 0) 0 :=
        hledger
      exact (hnone.closeConn hheld hpos).same rfl rfl rfl rfl
  | received c k op hopcode haddr hk hfd hpos hres _ _ hop hlen =>
      have hclient : cqe.op.opcode ≠ .accept := by simp [hopcode]
      have htype : op.opcode = .send := congrArg Request.type hop
      have hfdop : op.fd = k.fd := congrArg Request.fd hop
      have haddrop : op.addr = some c := congrArg Request.conn hop
      have hledger := hinv.popClient hpc hcq hclient haddr hfd
      have hheld : Ledger base (s.popCqe rest) _ (c ::ₘ 0) _ 0 := hledger
      obtain ⟨howes, hnone⟩ := h.popClient hpc hcq hclient
      obtain ⟨hsize, hbound, hconserved⟩ := howes hclient
      have hset := hnone.touch (t := (s.popCqe rest).setConnection c
        { k with length := cqe.res.toNat }) rfl rfl rfl
        (fun op' hop' => Sqe.buffer_update (hheld.conn_ne hop') _)
      have howesop : op.Owes ((s.popCqe rest).setConnection c
          { k with length := cqe.res.toNat }) := by
        intro _
        constructor
        · omega
        · rw [State.setConnection_conns, hfdop, hfd,
            Sqe.pending_send htype haddrop (Function.update_self _ _ _), hlen]
          have hlive : s.conns c = some k := hk
          rw [Cqe.pending_recv hopcode haddr hlive] at hconserved
          exact hconserved
      exact (hset.submitted howesop).same rfl rfl rfl rfl
  | sent c k op hopcode haddr hk hfd hpos hres hcalloc henter hop hlen =>
      have hclient : cqe.op.opcode ≠ .accept := by simp [hopcode]
      have htype : op.opcode = .recv := congrArg Request.type hop
      have hfdop : op.fd = k.fd := congrArg Request.fd hop
      obtain ⟨howes, hnone⟩ := h.popClient hpc hcq hclient
      obtain ⟨hsize, _, hconserved⟩ := howes hclient
      have hall : cqe.res = cqe.op.len := by
        subst hcalloc henter
        exact hsent cqe (by simp [hcq]) hopcode hres
      have howesop : op.Owes (s.popCqe rest) := by
        intro _
        refine ⟨hlen.le, ?_⟩
        have hlive : s.conns c = some k := hk
        rw [Cqe.pending_send hopcode haddr hlive, hall, Int.toNat_natCast,
          Buffer.window_self] at hconserved
        rw [Sqe.pending_recv htype, hfdop, hfd]
        exact hconserved
      exact (hnone.submitted howesop).same rfl rfl rfl rfl

/-- A descriptor in hand need not stay there. -/
theorem Owed.drop {fs fs' : Multiset Int} (h : Owed s (fs' + fs)) :
    Owed s fs := by
  refine ⟨h.inflight, h.queued, ?_, h.halfDuplex⟩
  intro fd hfd
  apply h.opened
  rw [add_assoc]
  exact Multiset.mem_add.mpr (.inr hfd)

/-- The rest of the `OP_ACCEPT` branch. -/
theorem connect_owed (hinv : Inv base s) (h : EchoInv s) {req : Nat}
    {result : Int} (hpc : s.pc = .accepted req result)
    {callocConn calloc : Option Nat} {enter : Option Errno}
    {out : Except Halt State}
    (hconnected : Connected s req result callocConn calloc enter out)
    (hfresh : FreshIn s.connLog callocConn) : EchoInv (s.run out) := by
  have hnone : Owed s 0 := by
    have hall : Owed s (s.pc.opened + 0) := by
      rw [add_zero]
      exact h
    exact hall.drop
  cases hconnected with
  | failed why _ => exact h.same rfl rfl rfl rfl
  | nobody _ => exact hnone.same rfl rfl rfl rfl
  | refused hres _ =>
      have hledger := hinv
      rw [Inv, hpc, Pc.opened, if_pos hres] at hledger
      have hheld : Ledger base s _ 0 (result ::ₘ 0) 0 := hledger
      have hduplex : HalfDuplexCall (.close result) s.trace := trivial
      have hcalled := hnone.frame hduplex hheld.fd_notMem
      exact hcalled.same rfl rfl rfl rfl
  | connected c op hres hc _ _ hop hlen =>
      have htype : op.opcode = .recv := congrArg Request.type hop
      have hfdop : op.fd = result := congrArg Request.fd hop
      have hnew : ∀ op' ∈ s.ops, op'.addr ≠ some c :=
        fun op' hop' => hinv.addr_ne (hfresh c hc) hop'
      have halloc := hnone.touch
        (t := s.allocConnection c (newConnection result)) rfl rfl rfl
        (fun op' hop' => Sqe.buffer_update (hnew op' hop') _)
      have howesop : op.Owes (s.allocConnection c (newConnection result)) := by
        intro _
        refine ⟨hlen.le, ?_⟩
        rw [Sqe.pending_recv htype, hfdop]
        apply h.opened
        rw [hpc, Pc.opened, if_pos hres]
        exact Multiset.mem_add.mpr (.inl (Multiset.mem_singleton_self result))
      exact (halloc.submitted howesop).same rfl rfl rfl rfl

/-! ## An echo without loss -/

/-- While a `RECV` is in flight all input of its connection has been echoed;
and on every descriptor the output is a prefix of the input. -/
def Exact (s : State) : Prop :=
  (∀ op ∈ s.inflight, op.opcode = .recv →
    echoed s.trace op.fd = received s.trace op.fd) ∧
  ∀ fd, echoed s.trace fd <+: received s.trace fd

theorem Owed.exact {fs : Multiset Int} (h : Owed s fs) : Exact s := by
  constructor
  · intro op hop hopcode
    have hclient : op.opcode ≠ .accept := by simp [hopcode]
    have hconserved := (h.inflight op hop hclient).2
    rw [Sqe.pending_recv hopcode] at hconserved
    exact hconserved.eq_of_nil
  · exact h.halfDuplex.isPrefix

/-- A `RECV` submitted after a short `SEND` has input behind it that is not
echoed. -/
theorem sentAll_of_exact (h : EchoInv s) {cqe : Cqe} {rest : List Cqe}
    (hcq : s.cq = cqe :: rest)
    {listenFd : Int} {calloc : Option Nat} {enter : Option Errno}
    {out : Except Halt State}
    (hhandled : Handled listenFd (s.popCqe rest) cqe calloc enter out)
    (hexact : Exact (s.run out)) : SentAll s (.handle calloc enter) := by
  rcases calloc with _ | a
  · trivial
  rcases enter with _ | e
  swap
  · trivial
  intro cqe' hcqe' hsend hpos
  have heq : cqe = cqe' := by simpa [hcq] using hcqe'
  subst heq
  obtain ⟨howes, _⟩ := Owed.pop h hcq
  have hclient : cqe.op.opcode ≠ .accept := by simp [hsend]
  cases hhandled with
  | failed why hwhy =>
      rcases hwhy with ⟨habsurd, _⟩ | ⟨_, habsurd, _⟩
      · cases habsurd
      · cases habsurd
  | accept op hopcode _ _ _ => exact absurd hopcode hclient
  | closed c k _ _ _ _ _ hres => omega
  | received c k op hopcode _ _ _ _ _ _ _ _ _ =>
      rw [hsend] at hopcode
      cases hopcode
  | sent c k op hopcode haddr hk hfd _ _ _ _ hop _ =>
      obtain ⟨hsize, hbound, hconserved⟩ := howes hclient
      have htype : op.opcode = .recv := congrArg Request.type hop
      have hfdop : op.fd = k.fd := congrArg Request.fd hop
      have hechoed : echoed s.trace op.fd = received s.trace op.fd :=
        hexact.1 op List.mem_cons_self htype
      have hlive : s.conns c = some k := hk
      rw [Cqe.pending_send hopcode haddr hlive, ← hfd, ← hfdop, Conserved,
        hechoed] at hconserved
      have hleft := congrArg List.length hconserved
      rw [List.length_append, Buffer.length_window _ hsize] at hleft
      omega

/-- One step. -/
theorem step_echo {cqEntries : Nat} {listenFd : Int} {t : State} {e : Event}
    (hinv : Inv base s) (h : EchoInv s)
    (hstep : step cqEntries listenFd s e = some t) (hk : KernelOk base t.trace)
    (hans : Answer s e) :
    (SentAll s e → EchoInv t) ∧ (Exact t → SentAll s e) := by
  cases (step_stepped hinv hstep).2 with
  | completed n out op u res hn _ hperformed =>
      exact ⟨fun _ => complete_owed hinv h hn hperformed hk, fun _ => trivial⟩
  | flushed cqe rest hoverflow _ =>
      have hkept : EchoInv { s with cq := s.cq ++ [cqe], overflow := rest } :=
        Owed.same h rfl (flush_queued hoverflow) rfl rfl
      exact ⟨fun _ => hkept, fun _ => trivial⟩
  | waited enter _ _ =>
      rcases enter with _ | errno
      · exact ⟨fun _ => h, fun _ => trivial⟩
      · exact ⟨fun _ => Owed.same h rfl rfl rfl rfl, fun _ => trivial⟩
  | entered hpc _ =>
      rw [EchoInv, hpc] at h
      exact ⟨fun _ => h.same rfl rfl rfl rfl, fun _ => trivial⟩
  | published hpc _ =>
      rw [EchoInv, hpc] at h
      exact ⟨fun _ => h.same rfl rfl rfl rfl, fun _ => trivial⟩
  | handled cqe rest calloc enter out hpc hcq hhandled =>
      exact ⟨handle_owed hinv h hpc hcq hhandled,
        sentAll_of_exact h hcq hhandled⟩
  | connected req result callocConn calloc enter out hpc hconnected =>
      exact ⟨fun _ => connect_owed hinv h hpc hconnected hans.1, fun _ => trivial⟩

end Steps

/-- The first `ACCEPT` owes nothing. -/
theorem initial_echo {listenFd : Int} {a : Nat} {s : State}
    (h : request blank (some a) none .accept listenFd none = .ok s) :
    EchoInv s := by
  obtain ⟨op, _, _, hop, _, _, rfl⟩ := request_ok (fun _ => rfl) h
  have htype : op.opcode = .accept := congrArg Request.type hop
  have hblank : Owed blank 0 := by
    refine ⟨fun op hop => absurd hop List.not_mem_nil,
      fun cqe hcqe => absurd hcqe (Multiset.notMem_zero cqe), ?_, trivial⟩
    intro fd hfd
    exact absurd hfd (Multiset.notMem_zero fd)
  have hsubmitted := hblank.submitted (fun hclient => absurd htype hclient)
  exact hsubmitted.same rfl rfl rfl rfl

/-- For every number of connections, every order of completions and every
result of the kernel: a run echoes without loss, in all of its states, exactly
when every `SEND` after which a `RECV` is submitted took all the bytes it was
given. -/
theorem echoes_iff {cqEntries : Nat} {base : Finset Int} {listenFd : Int}
    {s t : State} {es : List Event}
    (hinit : (system cqEntries base listenFd).init s) :
    Exact s ∧ (((system cqEntries base listenFd).within Exact).Run s es t ↔
      ((system cqEntries base listenFd).restrict SentAll).Run s es t) := by
  obtain ⟨a, ha⟩ := hinit
  have hecho := initial_echo ha
  refine ⟨hecho.exact, System.within_run_iff (I := EchoInv) ?_ ?_ (.start ⟨a, ha⟩)
    hecho⟩
  · intro s h
    exact h.exact
  · rintro s e t hreach h ⟨hstep, hk, hans⟩
    exact step_echo (reachable_inv hreach) h hstep hk hans

/-- A client connects at descriptor `5` and sends two bytes; the `SEND` for them
takes `sent`, and the next `RECV` is submitted. -/
def twoBytes (sent : Nat) : List Event :=
  [.complete 0 (.accept (.ok 5)), .turn, .handle (some 101) none,
    .connect (some 200) (some 102) none, .complete 0 (.recv (.ok [65, 66])),
    .handle (some 103) none, .complete 0 (.send (.ok sent)),
    .handle (some 104) none]

/-- It sends one more, and gets it back. -/
def oneMore : List Event :=
  [.complete 0 (.recv (.ok [67])), .handle (some 105) none,
    .complete 0 (.send (.ok 1)), .handle (some 106) none]

/-- `echoes_iff` on a `SEND` that takes both bytes. -/
theorem echoes_full_send : ∃ t,
    ((system 512 {0, 1, 2, 3, 4} 3).restrict SentAll).Run (started 3 100)
      (twoBytes 2) t ∧
    ((system 512 {0, 1, 2, 3, 4} 3).within Exact).Run (started 3 100)
      (twoBytes 2) t := by
  have hrun : ((system 512 {0, 1, 2, 3, 4} 3).restrict SentAll).Run
      (started 3 100) (twoBytes 2) _ :=
    .cons ⟨⟨rfl, by decide, by decide⟩, trivial⟩
      (.cons ⟨⟨rfl, by decide, by decide⟩, trivial⟩
      (.cons ⟨⟨rfl, by decide, by decide⟩, by decide⟩
      (.cons ⟨⟨rfl, by decide, by decide⟩, trivial⟩
      (.cons ⟨⟨rfl, by decide, by decide⟩, trivial⟩
      (.cons ⟨⟨rfl, by decide, by decide⟩, by decide⟩
      (.cons ⟨⟨rfl, by decide, by decide⟩, trivial⟩
      (.cons ⟨⟨rfl, by decide, by decide⟩, by decide⟩ (.nil _))))))))
  exact ⟨_, hrun, (echoes_iff (started_init _ _ 3 100)).2.mpr hrun⟩

/-- A `SEND` that takes the first byte only: the second one is never echoed. -/
theorem short_send_skips : ∃ s t,
    (system 512 {0, 1, 2, 3, 4} 3).Run (started 3 100) (twoBytes 1) s ∧
    (∃ op ∈ s.inflight, op.opcode = .recv ∧ op.fd = 5) ∧
    echoed s.trace 5 = [65] ∧ received s.trace 5 = [65, 66] ∧
    (system 512 {0, 1, 2, 3, 4} 3).Run s oneMore t ∧
    echoed t.trace 5 = [65, 67] ∧ received t.trace 5 = [65, 66, 67] := by
  have hrun : (system 512 {0, 1, 2, 3, 4} 3).Run (started 3 100) (twoBytes 1) _ :=
    .cons ⟨rfl, by decide, by decide⟩
      (.cons ⟨rfl, by decide, by decide⟩
      (.cons ⟨rfl, by decide, by decide⟩
      (.cons ⟨rfl, by decide, by decide⟩
      (.cons ⟨rfl, by decide, by decide⟩
      (.cons ⟨rfl, by decide, by decide⟩
      (.cons ⟨rfl, by decide, by decide⟩
      (.cons ⟨rfl, by decide, by decide⟩ (.nil _))))))))
  exact ⟨_, _, hrun, ⟨_, List.mem_cons_self, rfl, rfl⟩, rfl, rfl,
    .cons ⟨rfl, by decide, by decide⟩
      (.cons ⟨rfl, by decide, by decide⟩
      (.cons ⟨rfl, by decide, by decide⟩
      (.cons ⟨rfl, by decide, by decide⟩ (.nil _)))), rfl, rfl⟩

end SysLab.PartB.IoUringServer
