import SysLab.Foundation.EchoService
import SysLab.PartB.IoUringEcho
import SysLab.PartB.IoUringLinear

/-!
# The `io_uring` server as an echo service

The server's connections have no table; what is owed to a client is in the buffer of
the one operation outstanding for it.  Read off there (`State.Owes`), the server is
the echo service of `Foundation.EchoService` as long as no `SEND` is short, and after
a short one it no longer is (`echo_service_iff`).
-/

namespace SysLab.PartB.IoUringServer

open SysLab.Foundation
open SysLab.Foundation.Transcript

variable {base : Finset Int} {cqEntries : Nat} {listenFd : Int} {s t : State} {e : Event}

/-- A completed `ACCEPT` has brought `fd` and nothing is owed yet, or an operation for
`fd` is outstanding with `pending` in its buffer. -/
inductive State.Owes (s : State) (fd : Int) : List UInt8 → Prop
  | opened : fd ∈ s.pc.opened + s.queued.filterMap Cqe.opened → Owes s fd []
  | inflight (op : Sqe) : op ∈ s.inflight → op.Works fd → Owes s fd (op.pending s.conns)
  | queued (cqe : Cqe) : cqe ∈ s.queued → cqe.op.Works fd → Owes s fd (cqe.pending s.conns)

/-! ## No other descriptor -/

/-- An operation works on a client. -/
theorem Inv.mem_clients_of_op (h : Inv base s) {op : Sqe} (hop : op ∈ s.ops)
    (hclient : op.opcode ≠ .accept) : op.fd ∈ clients base s.trace := by
  rw [← Finset.mem_val, ← h.fds]
  refine Multiset.mem_add.mpr (.inr (Multiset.mem_add.mpr (.inr ?_)))
  exact (Multiset.mem_filterMap _ _).mpr ⟨op, hop, works_iff.mpr ⟨hclient, rfl⟩⟩

/-- A step makes one call or none, and one that opens nothing is on a client. -/
theorem Stepped.calls (hstep : Stepped cqEntries listenFd s e t) (h : Inv base s) :
    t.trace = s.trace ∨
      ∃ c, t.trace = c :: s.trace ∧ (c.opens = false → c.key ∈ clients base s.trace) := by
  cases hstep with
  | completed n out op u res hn _ hperformed =>
      have hop : op ∈ s.ops := mem_ops_of_inflight (List.mem_of_getElem? hn)
      have hposted : (post cqEntries u ⟨op.userData, res, op⟩).trace = u.trace :=
        (post_same cqEntries u _).2.2.1.trace
      rw [hposted]
      cases hperformed with
      | opened fd _ _ => exact .inr ⟨_, rfl, fun hopens => by cases hopens⟩
      | declined _ _ _ => exact .inl rfl
      | read c k bytes hopcode _ _ _ _ =>
          exact .inr ⟨_, rfl, fun _ => h.mem_clients_of_op hop (by simp [hopcode])⟩
      | readFailed _ hopcode _ =>
          exact .inr ⟨_, rfl, fun _ => h.mem_clients_of_op hop (by simp [hopcode])⟩
      | wrote c k n hopcode _ _ _ _ =>
          exact .inr ⟨_, rfl, fun _ => h.mem_clients_of_op hop (by simp [hopcode])⟩
      | writeFailed c k e hopcode _ _ _ _ =>
          exact .inr ⟨_, rfl, fun _ => h.mem_clients_of_op hop (by simp [hopcode])⟩
  | flushed _ _ _ _ => exact .inl rfl
  | waited enter _ _ =>
      rcases enter with _ | errno
      · exact .inl rfl
      · exact .inl rfl
  | entered _ _ => exact .inl rfl
  | published _ _ => exact .inl rfl
  | handled cqe rest calloc enter out _ hcq hhandled =>
      have hop := mem_ops_of_queued (mem_queued_of_cq hcq)
      cases hhandled with
      | failed _ _ => exact .inl rfl
      | accept _ _ _ _ _ => exact .inl rfl
      | closed c k hclient _ _ hfd hpos _ =>
          refine .inr ⟨.close k.fd, ?_, fun _ => ?_⟩
          · show (closeConnection (s.popCqe rest) c k).trace = _
            rw [closeConnection, if_pos hpos]
            rfl
          · rw [show (Call.close k.fd : Syscall).key = k.fd from rfl, hfd]
            exact h.mem_clients_of_op hop hclient
      | received _ _ _ _ _ _ _ _ _ _ _ _ => exact .inl rfl
      | sent _ _ _ _ _ _ _ _ _ _ _ _ => exact .inl rfl
  | connected req result callocConn calloc enter out hpc hconnected =>
      cases hconnected with
      | failed _ _ => exact .inl rfl
      | nobody _ => exact .inl rfl
      | refused hres _ =>
          refine .inr ⟨.close result, rfl, fun _ => ?_⟩
          rw [← Finset.mem_val, ← h.fds, hpc, Pc.opened, if_pos hres]
          exact Multiset.mem_add.mpr (.inl (Multiset.mem_singleton_self result))
      | connected _ _ _ _ _ _ _ _ => exact .inl rfl

/-- The server makes no call on a descriptor it has not accepted. -/
theorem reachable_own (hs : (system cqEntries base listenFd).Reachable s) :
    ∀ c ∈ s.trace, c.key ∉ base := by
  refine hs.induct (I := fun s => ∀ c ∈ s.trace, c.key ∉ base) ?_ ?_
  · rintro s ⟨a, ha⟩ c hc
    obtain ⟨op, _, _, _, _, _, rfl⟩ := request_ok (fun _ => rfl) ha
    exact absurd hc List.not_mem_nil
  · rintro s e t hs hown hnext
    have hinv := reachable_inv hs
    rcases (step_stepped hinv hnext.1).2.calls hinv with htrace | ⟨c, htrace, hclient⟩
    · rw [htrace]
      exact hown
    · have hlawful := (reachable_inv (hs.step hnext)).lawful
      rw [htrace] at hlawful ⊢
      refine List.forall_mem_cons.mpr ⟨fun hbase => ?_, hown⟩
      cases c with
      | accept fd => exact hlawful.1 (hinv.lawful.base_subset hbase)
      | read fd asked res => exact (Transcript.mem_clients.mp (hclient rfl)).2 hbase
      | write fd chunk res => exact (Transcript.mem_clients.mp (hclient rfl)).2 hbase
      | close fd => exact hlawful.1.2 hbase

/-! ## The service -/

/-- With every operation owing what is in its buffer, the server is the service. -/
theorem Owed.refines (h : EchoInv s) (hs : (system cqEntries base listenFd).Reachable s) :
    EchoService.Refines base s.trace s.Owes := by
  have hinv := reachable_inv hs
  have horderly : EchoService.Orderly base s.trace :=
    ⟨hinv.lawful, h.halfDuplex, reachable_own hs⟩
  refine horderly.refines ?_ ?_
  · intro fd pending hholds
    cases hholds with
    | opened hfd =>
        refine ⟨?_, h.opened fd hfd⟩
        rw [← Finset.mem_val, ← hinv.fds, ← add_assoc]
        exact Multiset.mem_add.mpr (.inl hfd)
    | inflight op hop hworks =>
        obtain ⟨hclient, rfl⟩ := hworks
        exact ⟨hinv.mem_clients_of_op (mem_ops_of_inflight hop) hclient,
          (h.inflight op hop hclient).2⟩
    | queued cqe hcqe hworks =>
        obtain ⟨hclient, rfl⟩ := hworks
        exact ⟨hinv.mem_clients_of_op (mem_ops_of_queued hcqe) hclient,
          (h.queued cqe hcqe hclient).2.2⟩
  · intro fd hfd
    rw [← Finset.mem_val, ← hinv.fds, ← add_assoc] at hfd
    rcases Multiset.mem_add.mp hfd with hopened | hop
    · exact ⟨[], .opened hopened⟩
    · obtain ⟨op, hop, hclientFd⟩ := (Multiset.mem_filterMap _ _).mp hop
      have hworks := works_iff.mp hclientFd
      rcases Multiset.mem_add.mp hop with hin | hqueued
      · exact ⟨_, .inflight op hin hworks⟩
      · obtain ⟨cqe, hcqe, rfl⟩ := Multiset.mem_map.mp hqueued
        exact ⟨_, .queued cqe hcqe hworks⟩

/-- A server that is the service has echoed all input of a connection while its `RECV`
is in flight. -/
theorem exact_of_refines (h : EchoService.Refines base s.trace s.Owes) : Exact s := by
  obtain ⟨horderly, hholds⟩ := EchoService.refines_iff.mp h
  refine ⟨fun op hop hrecv => ?_, horderly.halfDuplex.isPrefix⟩
  have hheld : s.Owes op.fd (op.pending s.conns) :=
    .inflight op hop ⟨by simp [hrecv], rfl⟩
  rw [Sqe.pending_recv hrecv] at hheld
  exact ((hholds op.fd []).mp hheld).2.eq_of_nil

/-- A run has the server as an echo service in all of its states exactly when every
`SEND` after which a `RECV` is submitted took all the bytes it was given. -/
theorem echo_service_iff {es : List Event} (hinit : (system cqEntries base listenFd).init s) :
    EchoService.Refines base s.trace s.Owes ∧
      (((system cqEntries base listenFd).within
          fun s => EchoService.Refines base s.trace s.Owes).Run s es t ↔
        ((system cqEntries base listenFd).restrict SentAll).Run s es t) := by
  obtain ⟨a, ha⟩ := hinit
  have hstart : (system cqEntries base listenFd).Reachable s := .start ⟨a, ha⟩
  have hecho := initial_echo ha
  refine ⟨Owed.refines hecho hstart, ?_⟩
  refine System.within_run_iff
    (I := fun s => EchoInv s ∧ (system cqEntries base listenFd).Reachable s) ?_ ?_ hstart
    ⟨hecho, hstart⟩
  · rintro s ⟨h, hs⟩
    exact Owed.refines h hs
  · rintro s e t hs ⟨h, _⟩ hnext
    obtain ⟨hkeeps, honly⟩ := step_echo (reachable_inv hs) h hnext.1 hnext.2.1 hnext.2.2
    exact ⟨fun hsent => ⟨hkeeps hsent, hs.step hnext⟩,
      fun hrefines => honly (exact_of_refines hrefines)⟩

/-- The run of `twoBytes` with a `SEND` that takes both bytes. -/
theorem echo_service_full_send : ∃ t,
    ((system 512 {0, 1, 2, 3, 4} 3).within
      fun s => EchoService.Refines {0, 1, 2, 3, 4} s.trace s.Owes).Run (started 3 100)
      (twoBytes 2) t := by
  have hrun : ((system 512 {0, 1, 2, 3, 4} 3).restrict SentAll).Run
      (started 3 100) (twoBytes 2) _ :=
    .cons ⟨⟨rfl, by decide, by decide⟩, trivial⟩
      (.cons ⟨⟨rfl, by decide, by decide⟩, trivial⟩
      (.cons ⟨⟨rfl, by decide, by decide⟩, by decide⟩
      (.cons ⟨⟨rfl, by decide, by decide⟩, trivial⟩
      (.cons ⟨⟨rfl, by decide, by decide⟩, trivial⟩
      (.cons ⟨⟨rfl, by decide, by decide⟩, by decide⟩
      (.cons ⟨⟨rfl, by decide, by decide⟩, trivial⟩
      (.cons ⟨⟨rfl, by decide, by decide⟩, by decide⟩ (.nil _))))))))
  exact ⟨_, (echo_service_iff (started_init _ _ 3 100)).2.mpr hrun⟩

end SysLab.PartB.IoUringServer
