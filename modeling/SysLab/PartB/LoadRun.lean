import SysLab.PartB.LoadPartition

/-!
# A run of the load client to its end

If there is memory, and no call fails, the threads are created, serve all their
connections and are joined.
-/

namespace SysLab.PartB.LoadClient

open SysLab.Foundation

variable {a : Arithmetic} {opts : Options} {C R n : Nat} {s : State}

/-! ## A thread -/

/-- The calls a thread still has to make on its connection, at most. -/
def requestWork (cfg : Config) (w : Worker) : Nat :=
  match w.pc with
  | .writeFull _ => 2 * (cfg.requestsPerConnection - w.req) + 2
  | .readFull _ => 2 * (cfg.requestsPerConnection - w.req) + 1
  | .closed => 1
  | .died _ => 0

/-- And on all of them. -/
def threadWork (cfg : Config) (connections : Nat) (thread : Thread) : Nat :=
  match thread.pc with
  | .connecting _ =>
      (connections - thread.connIndex) * (2 * cfg.requestsPerConnection + 3)
  | .connected w =>
      (connections - (thread.connIndex + 1)) * (2 * cfg.requestsPerConnection + 3) +
        requestWork cfg w
  | .returned _ => 0

theorem requestWork_loopTest (cfg : Config) {w : Worker} (hpc : w.pc = loopTest cfg w.req) :
    requestWork cfg w ≤ 2 * (cfg.requestsPerConnection - w.req) + 2 := by
  unfold requestWork
  rw [hpc, loopTest]
  split
  · exact Nat.le_refl _
  · omega
  · omega
  · omega

theorem threadWork_loopTest (cfg : Config) (connections connIndex bytes : Nat) :
    threadWork cfg connections (.loopTest connections connIndex bytes) ≤
      (connections - connIndex) * (2 * cfg.requestsPerConnection + 3) := by
  unfold threadWork Thread.loopTest
  split
  · next heq =>
      split at heq
      · exact Nat.le_refl _
      · cases heq
  · next heq => split at heq <;> cases heq
  · exact Nat.zero_le _

/-- The rest of the payload in one `write`. -/
theorem wrote_rest {cfg : Config} {done : Nat} (h : done < cfg.payloadSize) (w : Worker) :
    w.wrote cfg done (.ok (cfg.payloadSize - done)) =
      { w with pc := .readFull 0, recvBuf := [] } := by
  have hdone : done + (cfg.payloadSize - done) = cfg.payloadSize :=
    Nat.add_sub_cancel' (Nat.le_of_lt h)
  rw [wrote_ok (Nat.sub_pos_of_lt h) (Nat.le_of_eq hdone), hdone,
    if_neg (Nat.lt_irrefl _)]

/-- And in one `read`. -/
theorem received_rest {cfg : Config} {done : Nat} {bytes : List UInt8}
    (h : done < cfg.payloadSize) (hlength : done + bytes.length = cfg.payloadSize)
    (w : Worker) :
    w.received cfg done (.ok bytes) =
      Worker.nextRequest cfg { w with recvBuf := w.recvBuf ++ bytes } := by
  rw [received_ok (by omega) (Nat.le_of_eq hlength), hlength, if_neg (Nat.lt_irrefl _)]

/-- A `read` that completes the request, with the store that follows. -/
theorem read_rest (hsized : Sized a opts C R n) (h : Inv a opts C R n s) {i : Nat}
    {arg : WorkerArg} (hrunning : s.running = true) (hget : s.workers[i]? = some arg)
    {w : Worker} (hconn : arg.thread.pc = .connected w) {done : Nat}
    (hw : w.pc = .readFull done) (hreq : w.req < opts.config.requestsPerConnection)
    (hdone : done < opts.config.payloadSize) {bytes : List UInt8}
    (hlength : done + bytes.length = opts.config.payloadSize) :
    ∃ t, LoadClient.read a opts i arg (.ok bytes) 0 s = some t ∧ t.pc = s.pc ∧
      t.workers = s.workers.set i { arg with thread := { arg.thread with
        pc := .connected (Worker.nextRequest opts.config
          { w with recvBuf := w.recvBuf ++ bytes }) } } := by
  have hfits : ∀ k ∈ (Except.ok (ε := Errno) bytes).toOption,
      done + k.length ≤ opts.payloadSize := by
    intro k hk
    cases hk
    exact Nat.le_of_eq hlength
  have hR : w.req < R := config_requests hsized ▸ hreq
  generalize hnext : Worker.nextRequest opts.config
    { w with recvBuf := w.recvBuf ++ bytes } = w'
  have hpc' : w'.pc = loopTest opts.config (w.req + 1) := hnext ▸ rfl
  have hreq' : w.req < w'.req := hnext ▸ Nat.lt_succ_self w.req
  have hread : LoadClient.read a opts i arg (.ok bytes) 0 s =
      some ((s.resume i arg w').store a opts i arg w.req 0) := by
    rw [LoadClient.read, hconn]
    dsimp only
    rw [hw]
    dsimp only
    rw [if_pos hfits, received_rest hdone hlength, hnext, if_pos hreq']
  rw [store_complete hsized h hrunning hget hconn hR hpc' 0] at hread
  exact ⟨_, hread, rfl, rfl⟩

/-- A thread that has not ended has a step to take, with which the process goes on and
the thread has less to do. -/
theorem exists_step (hsized : Sized a opts C R n) (h : Inv a opts C R n s) {i : Nat}
    {arg : WorkerArg} (hrunning : s.running = true) (hget : s.workers[i]? = some arg)
    (hpc : ∀ bytes, arg.thread.pc ≠ .returned bytes) :
    ∃ e t thread, step a opts s e = some t ∧ t.pc = s.pc ∧
      t.workers = s.workers.set i { arg with thread := thread } ∧
      threadWork opts.config (share C n i) thread <
        threadWork opts.config (share C n i) arg.thread := by
  have harg := h.workers i arg hget
  have hworker : ∀ f, s.withWorker i f = f arg s := by
    intro f
    rw [State.withWorker, if_pos hrunning, hget]
    rfl
  cases hconn : arg.thread.pc with
  | connecting bytes =>
      have hlt := (harg.thread.connecting hconn).1
      refine ⟨.connect i (.ok ()), s.setThread i arg { arg.thread with
        pc := .connected (.start opts.config bytes) }, { arg.thread with
        pc := .connected (.start opts.config bytes) }, (hworker _).trans ?_, rfl, rfl, ?_⟩
      · simp only [LoadClient.connect, hconn]
      · have hwork : requestWork opts.config (.start opts.config bytes) ≤
            2 * opts.config.requestsPerConnection + 2 := requestWork_loopTest _ rfl
        have hless : share C n i - arg.thread.connIndex =
            share C n i - (arg.thread.connIndex + 1) + 1 := by omega
        unfold threadWork
        rw [hconn]
        dsimp only
        rw [hless, Nat.succ_mul (share C n i - (arg.thread.connIndex + 1))]
        omega
  | connected w =>
      obtain ⟨hlt, _, hrequest⟩ := harg.thread.connected hconn
      cases hw : w.pc with
      | writeFull done =>
          have hrequest := hrequest.writing hw
          have hdone : done < opts.payloadSize := hrequest.2
          have hfits : ∀ k ∈ (Except.ok (ε := Errno) (opts.payloadSize - done)).toOption,
              done + k ≤ opts.payloadSize := by
            intro k hk
            cases hk
            omega
          have hwrote : w.wrote opts.config done (.ok (opts.payloadSize - done)) =
              { w with pc := .readFull 0, recvBuf := [] } := wrote_rest hrequest.2 w
          refine ⟨.write i (.ok (opts.payloadSize - done)), s.setThread i arg { arg.thread with
            pc := .connected { w with pc := .readFull 0, recvBuf := [] } }, { arg.thread with
            pc := .connected { w with pc := .readFull 0, recvBuf := [] } },
            (hworker _).trans ?_, rfl, rfl, ?_⟩
          · simp only [LoadClient.write, hconn, hw, if_pos hfits, hwrote, State.resume]
          · unfold threadWork requestWork
            rw [hconn]
            dsimp only
            rw [hw]
            exact Nat.add_lt_add_left (Nat.lt_succ_self _) _
      | readFull done =>
          have hrequest := hrequest.reading hw
          obtain ⟨bytes, hlength⟩ : ∃ bytes : List UInt8,
              done + bytes.length = opts.config.payloadSize := by
            refine ⟨List.replicate (opts.config.payloadSize - done) 0, ?_⟩
            rw [List.length_replicate]
            exact Nat.add_sub_cancel' (Nat.le_of_lt hrequest.2)
          obtain ⟨t, hstep, hsame, hworkers⟩ :=
            read_rest hsized h hrunning hget hconn hw hrequest.1 hrequest.2 hlength
          refine ⟨.read i (.ok bytes) 0, t, _, (hworker _).trans hstep, hsame, hworkers, ?_⟩
          have hwork : requestWork opts.config (Worker.nextRequest opts.config
              { w with recvBuf := w.recvBuf ++ bytes }) ≤
                2 * (opts.config.requestsPerConnection - (w.req + 1)) + 2 :=
            requestWork_loopTest opts.config rfl
          have hnow : requestWork opts.config w =
              2 * (opts.config.requestsPerConnection - w.req) + 1 := by
            rw [requestWork, hw]
          have hmore : w.req < opts.config.requestsPerConnection := hrequest.1
          unfold threadWork
          rw [hconn]
          dsimp only
          omega
      | closed =>
          refine ⟨.next i, s.setThread i arg (.loopTest arg.connections.toNat
              (arg.thread.connIndex + 1) w.bytesCompleted),
            .loopTest arg.connections.toNat (arg.thread.connIndex + 1) w.bytesCompleted,
            (hworker _).trans ?_, rfl, rfl, ?_⟩
          · simp only [LoadClient.next, hconn, hw]
          · rw [harg.connections, Int.toNat_natCast]
            refine Nat.lt_of_le_of_lt (threadWork_loopTest _ _ _ _) ?_
            unfold threadWork requestWork
            rw [hconn]
            dsimp only
            rw [hw]
            exact Nat.lt_succ_self _
      | died message =>
          unfold RequestOk at hrequest
          rw [hw] at hrequest
          exact absurd hrequest id
  | returned bytes => exact absurd hconn (hpc bytes)

/-! ## `main` -/

/-- `pthread_create` succeeds. -/
theorem create_ok (hsized : Sized a opts C R n) (h : Inv a opts C R n s) {i : Nat}
    {offset : Int} (hpc : s.pc = .creating i offset) :
    ∃ t, LoadClient.create a opts true s = some t ∧
      t.workers.length = s.workers.length + 1 ∧
      ((∃ offset', t.pc = .creating (i + 1) offset') ∨ t.pc = .joining 0 0) := by
  obtain ⟨hlt, _, rfl, hlocals, _⟩ := h.creating hpc
  rw [LoadClient.create, hpc]
  dsimp only
  rw [connCounts_eq hsized hlt hlocals]
  refine ⟨_, rfl, by simp, ?_⟩
  have hpos : (0 : Int) < n := by exact_mod_cast hsized.pos
  rw [hlocals, createTest, if_pos hpos]
  dsimp only
  split
  · exact .inl ⟨_, rfl⟩
  · exact .inr rfl

/-- All threads can be created. -/
theorem exists_created (hsized : Sized a opts C R n) (hs : (system a opts).Reachable s)
    {i : Nat} {offset : Int} (hpc : s.pc = .creating i offset) :
    ∃ t, (system a opts).Reachable t ∧ t.pc = .joining 0 0 := by
  let I : State → Prop := fun s => (∃ i offset, s.pc = .creating i offset) ∨
    s.pc = .joining 0 0
  have hstep : ∀ s, (system a opts).Reachable s → I s → s.pc ≠ .joining 0 0 →
      ∃ t, (system a opts).Reachable t ∧ I t ∧ n - t.workers.length < n - s.workers.length := by
    intro s hs hI hnot
    obtain ⟨i, offset, hpc⟩ := hI.resolve_right hnot
    have hinv := reachable_inv hsized hs
    obtain ⟨hlt, hlength, _⟩ := hinv.creating hpc
    obtain ⟨t, hcreate, hmore, hpc'⟩ := create_ok hsized hinv hpc
    refine ⟨t, hs.step (e := Event.create true) hcreate, ?_, by omega⟩
    exact hpc'.imp_left fun ⟨offset', heq⟩ => ⟨i + 1, offset', heq⟩
  obtain ⟨t, ht, _, hgoal⟩ := hs.exists_goal _ hstep (.inl ⟨i, offset, hpc⟩)
  exact ⟨t, ht, hgoal⟩

/-- A thread that `main` waits for can end. -/
theorem exists_returned (hsized : Sized a opts C R n) (hs : (system a opts).Reachable s)
    {i bytes : Nat} (hpc : s.pc = .joining i bytes) :
    ∃ t, (system a opts).Reachable t ∧ t.pc = .joining i bytes ∧ Returned t i := by
  have hstep : ∀ s, (system a opts).Reachable s → s.pc = .joining i bytes →
      ¬ Returned s i → ∃ t, (system a opts).Reachable t ∧ t.pc = .joining i bytes ∧
        (t.workers[i]?.map fun arg => threadWork opts.config (share C n i) arg.thread).getD 0 <
        (s.workers[i]?.map fun arg => threadWork opts.config (share C n i) arg.thread).getD
          0 := by
    intro s hs hpc hnot
    have hinv := reachable_inv hsized hs
    obtain ⟨hlt, hlength, _⟩ := hinv.joining hpc
    have hi : i < s.workers.length := hlength ▸ hlt
    have hget : s.workers[i]? = some s.workers[i] := List.getElem?_eq_getElem hi
    have hrunning : s.running = true := by
      rw [State.running, hpc]
    obtain ⟨e, t, thread, hstep, hpc', hworkers, hless⟩ :=
      exists_step hsized hinv hrunning hget fun bytes hreturned =>
        hnot ⟨s.workers[i], bytes, hget, hreturned⟩
    refine ⟨t, hs.step hstep, hpc'.trans hpc, ?_⟩
    rw [hworkers, List.getElem?_set_self hi, hget]
    exact hless
  exact hs.exists_goal _ hstep hpc

/-- And be joined. -/
theorem exists_next (hsized : Sized a opts C R n) (hs : (system a opts).Reachable s)
    {i bytes : Nat} (hpc : s.pc = .joining i bytes) :
    i < n ∧ ∃ t, (system a opts).Reachable t ∧
      ((∃ bytes', t.pc = .joining (i + 1) bytes') ∨
        ∃ totalBytes, t.pc = .joined totalBytes) := by
  obtain ⟨t, ht, htpc, arg, bytes', hget, hreturned⟩ := exists_returned hsized hs hpc
  have hlt := ((reachable_inv hsized ht).joining htpc).1
  have hjoin : LoadClient.join t = some (t.goto (joinTest t.locals.threads (i + 1)
      ((bytes + bytes') % 2 ^ 64))) := by
    rw [LoadClient.join, htpc]
    dsimp only
    rw [hget]
    dsimp only
    rw [hreturned]
  refine ⟨hlt, _, ht.step (e := Event.join) hjoin, ?_⟩
  by_cases hmore : ((i + 1 : Nat) : Int) < t.locals.threads
  · exact .inl ⟨_, if_pos hmore⟩
  · exact .inr ⟨_, if_neg hmore⟩

/-- All of them, one after the other. -/
theorem exists_joined (hsized : Sized a opts C R n) (hs : (system a opts).Reachable s)
    {i bytes : Nat} (hpc : s.pc = .joining i bytes) :
    ∃ t totalBytes, (system a opts).Reachable t ∧ t.pc = .joined totalBytes := by
  obtain ⟨hlt, t, ht, hnext⟩ := exists_next hsized hs hpc
  induction hleft : n - i generalizing s i bytes t with
  | zero => omega
  | succ k ih =>
      rcases hnext with ⟨bytes', hjoining⟩ | ⟨totalBytes, hjoined⟩
      · obtain ⟨hlt', t', ht', hnext'⟩ := exists_next hsized ht hjoining
        exact ih ht hjoining hlt' t' ht' hnext' (by omega)
      · exact ⟨t, totalBytes, ht, hjoined⟩

/-- If there is memory for the arrays, the load client can come to its end. -/
theorem exists_run (hsized : Sized a opts C R n)
    (hlatencies : a.allocates (C * R : Nat) sizeofLatency = true)
    (htids : a.allocates n sizeofPthread = true)
    (hargs : a.allocates n sizeofWorkerArg = true) :
    ∃ t totalBytes, (system a opts).Reachable t ∧ t.pc = .joined totalBytes := by
  have hstart : (system a opts).Reachable initialState := .start rfl
  have hallocate := allocate_eq hsized true initialState
  rw [if_pos rfl, if_pos ⟨hlatencies, htids, hargs⟩] at hallocate
  have hstep : step a opts initialState (.allocate true) =
      LoadClient.allocate a opts true initialState := rfl
  have hallocated := hstart.step (e := Event.allocate true) (hstep.trans hallocate)
  obtain ⟨t, ht, hcreated⟩ := exists_created hsized hallocated rfl
  exact exists_joined hsized ht hcreated

end SysLab.PartB.LoadClient
