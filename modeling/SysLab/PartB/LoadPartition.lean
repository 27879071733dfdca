import SysLab.Foundation.Partition
import SysLab.PartB.Latency
import SysLab.PartB.LoadMain

/-!
# How the load client divides its work

As long as no `int` computation overflows, thread `i` has `share C n i` of the
connections, and its requests have consecutive elements of `latencies`: the invariant
`Inv` says how far each thread has come there, and which stores there have been.
-/

namespace SysLab.PartB.LoadClient

open SysLab.Foundation

/-! ## A thread -/

section Thread

variable {cfg : Config} {connections : Nat} {w : Worker}

/-- `bytes_completed` after so many requests. -/
def bytesFor (cfg : Config) (requests : Nat) : Nat :=
  2 * cfg.payloadSize * requests % 2 ^ 64

theorem bytesFor_succ (cfg : Config) (k : Nat) :
    (bytesFor cfg k + cfg.payloadSize * 2) % 2 ^ 64 = bytesFor cfg (k + 1) := by
  rw [bytesFor, bytesFor, Nat.mul_comm cfg.payloadSize 2, Nat.mod_add_mod, ← Nat.mul_succ]

theorem bytesFor_add (cfg : Config) (j k : Nat) :
    (bytesFor cfg j + bytesFor cfg k) % 2 ^ 64 = bytesFor cfg (j + k) := by
  rw [bytesFor, bytesFor, bytesFor, Nat.mul_add, ← Nat.add_mod]

/-- Within a request, or past the last one. -/
def RequestOk (cfg : Config) (w : Worker) : Prop :=
  match w.pc with
  | .writeFull done => w.req < cfg.requestsPerConnection ∧ done < cfg.payloadSize
  | .readFull done => w.req < cfg.requestsPerConnection ∧ done < cfg.payloadSize
  | .closed => w.req = cfg.requestsPerConnection
  | .died _ => False

/-- Within its connections, or past the last one, with all its bytes counted. -/
def ThreadOk (cfg : Config) (connections : Nat) (thread : Thread) : Prop :=
  match thread.pc with
  | .connecting bytes =>
      thread.connIndex < connections ∧ bytes = bytesFor cfg (thread.completed cfg)
  | .connected w =>
      thread.connIndex < connections ∧
        w.bytesCompleted = bytesFor cfg (thread.completed cfg) ∧ RequestOk cfg w
  | .returned bytes =>
      thread.connIndex = connections ∧ bytes = bytesFor cfg (thread.completed cfg)

section Cases

variable {thread : Thread} {bytes done : Nat}

theorem RequestOk.writing (h : RequestOk cfg w) (hpc : w.pc = .writeFull done) :
    w.req < cfg.requestsPerConnection ∧ done < cfg.payloadSize := by
  unfold RequestOk at h
  rwa [hpc] at h

theorem RequestOk.reading (h : RequestOk cfg w) (hpc : w.pc = .readFull done) :
    w.req < cfg.requestsPerConnection ∧ done < cfg.payloadSize := by
  unfold RequestOk at h
  rwa [hpc] at h

theorem RequestOk.closed (h : RequestOk cfg w) (hpc : w.pc = .closed) :
    w.req = cfg.requestsPerConnection := by
  unfold RequestOk at h
  rwa [hpc] at h

/-- Within a request. -/
theorem RequestOk.of_moving (hpc : w.pc = .writeFull done ∨ w.pc = .readFull done)
    (hreq : w.req < cfg.requestsPerConnection) (hdone : done < cfg.payloadSize) :
    RequestOk cfg w := by
  unfold RequestOk
  rcases hpc with hpc | hpc
  · rw [hpc]
    exact ⟨hreq, hdone⟩
  · rw [hpc]
    exact ⟨hreq, hdone⟩

theorem ThreadOk.connecting (h : ThreadOk cfg connections thread)
    (hpc : thread.pc = .connecting bytes) :
    thread.connIndex < connections ∧ bytes = bytesFor cfg (thread.completed cfg) := by
  unfold ThreadOk at h
  rwa [hpc] at h

theorem ThreadOk.connected (h : ThreadOk cfg connections thread)
    (hpc : thread.pc = .connected w) :
    thread.connIndex < connections ∧
      w.bytesCompleted = bytesFor cfg (thread.completed cfg) ∧ RequestOk cfg w := by
  unfold ThreadOk at h
  rwa [hpc] at h

theorem ThreadOk.returned (h : ThreadOk cfg connections thread)
    (hpc : thread.pc = .returned bytes) :
    thread.connIndex = connections ∧ bytes = bytesFor cfg (thread.completed cfg) := by
  unfold ThreadOk at h
  rwa [hpc] at h

end Cases

theorem request_loopTest (hpayload : 0 < cfg.payloadSize) (hpc : w.pc = loopTest cfg w.req)
    (hreq : w.req ≤ cfg.requestsPerConnection) : RequestOk cfg w := by
  unfold RequestOk
  rw [hpc, loopTest]
  split
  · next heq =>
      split at heq
      · next hmore =>
          cases heq
          exact ⟨hmore, hpayload⟩
      · cases heq
  · next heq => split at heq <;> cases heq
  · next heq =>
      split at heq
      · cases heq
      · next hlast => exact Nat.le_antisymm hreq (Nat.le_of_not_lt hlast)
  · next heq => split at heq <;> cases heq

theorem request_le (h : RequestOk cfg w) : w.req ≤ cfg.requestsPerConnection := by
  unfold RequestOk at h
  split at h
  · exact Nat.le_of_lt h.1
  · exact Nat.le_of_lt h.1
  · exact Nat.le_of_eq h
  · exact absurd h id

/-- Turning to a connection, if there is one more. -/
theorem thread_loopTest (cfg : Config) {connIndex : Nat} (h : connIndex ≤ connections) :
    ThreadOk cfg connections (.loopTest connections connIndex
        (bytesFor cfg (connIndex * cfg.requestsPerConnection))) ∧
      (Thread.loopTest connections connIndex
          (bytesFor cfg (connIndex * cfg.requestsPerConnection))).completed cfg =
        connIndex * cfg.requestsPerConnection := by
  unfold ThreadOk Thread.completed Thread.loopTest
  by_cases hmore : connIndex < connections
  · simp [hmore]
  · simp [Nat.le_antisymm h (Nat.le_of_not_lt hmore)]

/-- It never has more requests behind it than there are. -/
theorem completed_le {thread : Thread} (h : ThreadOk cfg connections thread) :
    thread.completed cfg ≤ connections * cfg.requestsPerConnection := by
  have hrow : ∀ k, thread.connIndex < connections → k ≤ cfg.requestsPerConnection →
      thread.connIndex * cfg.requestsPerConnection + k ≤
        connections * cfg.requestsPerConnection := by
    intro k hlt hk
    have hmul := Nat.mul_le_mul_right cfg.requestsPerConnection hlt
    rw [Nat.succ_mul] at hmul
    omega
  unfold Thread.completed
  cases hpc : thread.pc with
  | connecting bytes => exact hrow 0 (h.connecting hpc).1 (Nat.zero_le _)
  | connected w =>
      obtain ⟨hlt, _, hrequest⟩ := h.connected hpc
      exact hrow w.req hlt (request_le hrequest)
  | returned bytes =>
      dsimp only
      rw [(h.returned hpc).1, Nat.add_zero]

theorem completed_returned {thread : Thread} {bytes : Nat}
    (h : ThreadOk cfg connections thread) (hpc : thread.pc = .returned bytes) :
    thread.completed cfg = connections * cfg.requestsPerConnection ∧
      bytes = bytesFor cfg (connections * cfg.requestsPerConnection) := by
  obtain ⟨hlast, hbytes⟩ := h.returned hpc
  have hcompleted : thread.completed cfg = connections * cfg.requestsPerConnection := by
    rw [Thread.completed, hpc, hlast]
    rfl
  exact ⟨hcompleted, hcompleted ▸ hbytes⟩

/-- A `write` ends the process or leaves the thread in the request. -/
theorem wrote_cases (cfg : Config) (hpayload : 0 < cfg.payloadSize) (w : Worker)
    (done : Nat) (res : Except Errno Nat) :
    (∃ message, (w.wrote cfg done res).pc = .died message) ∨
    (w.wrote cfg done res).req = w.req ∧
      (w.wrote cfg done res).bytesCompleted = w.bytesCompleted ∧
      ∃ done' < cfg.payloadSize, (w.wrote cfg done res).pc = .writeFull done' ∨
        (w.wrote cfg done res).pc = .readFull done' := by
  unfold Worker.wrote
  cases htransfer : PartB.writeFull cfg.payloadSize done res with
  | running done' =>
      exact .inr ⟨rfl, rfl, done', transferStep_running htransfer, .inl rfl⟩
  | returned res' =>
      cases res' with
      | error e => exact .inl ⟨"write_full", rfl⟩
      | ok n =>
          unfold Worker.afterWrite
          dsimp only
          split
          · exact .inr ⟨rfl, rfl, 0, hpayload, .inr rfl⟩
          · exact .inl ⟨"write_full", rfl⟩

theorem afterRead_cases (cfg : Config) (w : Worker) {transfer : Transfer}
    (h : ∀ done, transfer = .running done → done < cfg.payloadSize) :
    (∃ message, (w.afterRead cfg transfer).pc = .died message ∧
      (w.afterRead cfg transfer).req = w.req) ∨
    ((w.afterRead cfg transfer).req = w.req ∧
      (w.afterRead cfg transfer).bytesCompleted = w.bytesCompleted ∧
      ∃ done < cfg.payloadSize, (w.afterRead cfg transfer).pc = .readFull done) ∨
    (w.afterRead cfg transfer).req = w.req + 1 ∧
      (w.afterRead cfg transfer).bytesCompleted =
        (w.bytesCompleted + cfg.payloadSize * 2) % 2 ^ 64 ∧
      (w.afterRead cfg transfer).pc = loopTest cfg (w.req + 1) := by
  cases transfer with
  | running done => exact .inr (.inl ⟨rfl, rfl, done, h done rfl, rfl⟩)
  | returned res =>
      cases res with
      | error e => exact .inl ⟨"read_full", rfl, rfl⟩
      | ok n =>
          unfold Worker.afterRead
          dsimp only
          split
          · exact .inr (.inr ⟨rfl, rfl, rfl⟩)
          · exact .inl ⟨"read_full", rfl, rfl⟩

/-- A `read` ends the process, or leaves the thread in the request, or completes it. -/
theorem received_cases (cfg : Config) (w : Worker) (done : Nat)
    (res : Except Errno (List UInt8)) :
    (∃ message, (w.received cfg done res).pc = .died message ∧
      (w.received cfg done res).req = w.req) ∨
    ((w.received cfg done res).req = w.req ∧
      (w.received cfg done res).bytesCompleted = w.bytesCompleted ∧
      ∃ done' < cfg.payloadSize, (w.received cfg done res).pc = .readFull done') ∨
    (w.received cfg done res).req = w.req + 1 ∧
      (w.received cfg done res).bytesCompleted =
        (w.bytesCompleted + cfg.payloadSize * 2) % 2 ^ 64 ∧
      (w.received cfg done res).pc = loopTest cfg (w.req + 1) := by
  have hrunning : ∀ done', PartB.readFull cfg.payloadSize done res = .running done' →
      done' < cfg.payloadSize := fun _ => transferStep_running
  cases res with
  | ok bytes =>
      exact afterRead_cases cfg { w with recvBuf := w.recvBuf ++ bytes } hrunning
  | error e => exact afterRead_cases cfg w hrunning

end Thread

/-! ## The invariant -/

/-- There are `C` connections with `R` requests each and `n` threads, and `int` has
room for the number of connections and of requests. -/
structure Sized (a : Arithmetic) (opts : Options) (C R n : Nat) : Prop where
  connections : opts.connections = C
  requests : opts.requestsPerConnection = R
  threads : threadCount opts = n
  pos : 0 < n
  le : n ≤ C
  payload : 0 < opts.payloadSize
  sound : ∀ z z', a.int z = some z' → z' = z
  int_connections : ∀ z : Int, 0 ≤ z → z ≤ C → a.int z = some z
  int_requests : ∀ z : Int, 0 ≤ z → z ≤ C * R → a.int z = some z

section State

variable (a : Arithmetic) (opts : Options) (C R n : Nat)

/-- `main` has allocated the array. -/
def Laid (s : State) : Prop :=
  s.locals = ⟨n, (C * R : Nat), (C / n : Nat), (C % n : Nat)⟩ ∧
    s.latencies.length = C * R

/-- The thread has ended. -/
def Returned (s : State) (i : Nat) : Prop :=
  ∃ arg bytes, s.workers[i]? = some arg ∧ arg.thread.pc = .returned bytes

/-- Where `main` is, with what it has computed. -/
def MainOk (s : State) : Prop :=
  match s.pc with
  | .start => s.workers = []
  | .creating i offset =>
      i < n ∧ s.workers.length = i ∧ offset = start (share C n) i ∧ Laid C R n s
  | .joining i bytes =>
      i < n ∧ s.workers.length = n ∧
        bytes = bytesFor opts.config (start (share C n) i * R) ∧
        (∀ j < i, Returned s j) ∧ Laid C R n s
  | .joined bytes =>
      s.workers.length = n ∧ bytes = bytesFor opts.config (C * R) ∧
        (∀ j < n, Returned s j) ∧ Laid C R n s
  | .reported bytes index =>
      s.workers.length = n ∧ bytes = bytesFor opts.config (C * R) ∧
        (∀ j < n, Returned s j) ∧ index = p99Index (C * R) ∧ p99Index (C * R) < C * R ∧
        Laid C R n s
  | .exited _ => True
  | .undefined why =>
      why ≠ .divideByZero ∧ (a.int ((C * R : Nat) * 99) = none ∨ C * R = 0)

/-- The arguments of a thread, and how far it is. -/
structure WorkerOk (i : Nat) (arg : WorkerArg) : Prop where
  lt : i < n
  connections : arg.connections = share C n i
  offset : arg.latencyOffset = (start (share C n) i * R : Nat)
  thread : ThreadOk opts.config (share C n i) arg.thread

structure Inv (s : State) : Prop where
  workers : ∀ i arg, s.workers[i]? = some arg → WorkerOk opts C R n i arg
  stores : ∀ i k, (i, k) ∈ s.stores ↔ ∃ arg, s.workers[i]? = some arg ∧
    ∃ p < arg.thread.completed opts.config, start (share C n) i * R + p = k
  nodup : s.stores.Nodup
  main : MainOk a opts C R n s

end State

section Steps

variable {a : Arithmetic} {opts : Options} {C R n : Nat} {s : State}

theorem config_requests (h : Sized a opts C R n) :
    opts.config.requestsPerConnection = R := by
  show opts.requestsPerConnection.toNat = R
  rw [h.requests, Int.toNat_natCast]

theorem inv_initial : Inv a opts C R n initialState where
  workers _ _ h := (by cases h)
  stores i k := by simp [initialState]
  nodup := List.nodup_nil
  main := rfl

theorem Inv.exited (h : Inv a opts C R n s) (message : String) :
    Inv a opts C R n (s.goto (.exited message)) :=
  { h with main := trivial }

section Main

variable {i : Nat}

theorem Inv.creating (h : Inv a opts C R n s) {offset : Int}
    (hpc : s.pc = .creating i offset) :
    i < n ∧ s.workers.length = i ∧ offset = start (share C n) i ∧ Laid C R n s := by
  have hmain := h.main
  unfold MainOk at hmain
  rwa [hpc] at hmain

theorem Inv.joining (h : Inv a opts C R n s) {bytes : Nat} (hpc : s.pc = .joining i bytes) :
    i < n ∧ s.workers.length = n ∧
      bytes = bytesFor opts.config (start (share C n) i * R) ∧
      (∀ j < i, Returned s j) ∧ Laid C R n s := by
  have hmain := h.main
  unfold MainOk at hmain
  rwa [hpc] at hmain

theorem Inv.joined (h : Inv a opts C R n s) {bytes : Nat} (hpc : s.pc = .joined bytes) :
    s.workers.length = n ∧ bytes = bytesFor opts.config (C * R) ∧
      (∀ j < n, Returned s j) ∧ Laid C R n s := by
  have hmain := h.main
  unfold MainOk at hmain
  rwa [hpc] at hmain

theorem Inv.reported (h : Inv a opts C R n s) {bytes : Nat} {index : Int}
    (hpc : s.pc = .reported bytes index) :
    s.workers.length = n ∧ bytes = bytesFor opts.config (C * R) ∧
      (∀ j < n, Returned s j) ∧ index = p99Index (C * R) ∧ p99Index (C * R) < C * R ∧
      Laid C R n s := by
  have hmain := h.main
  unfold MainOk at hmain
  rwa [hpc] at hmain

theorem Inv.undefined (h : Inv a opts C R n s) {why : Undefined}
    (hpc : s.pc = .undefined why) :
    why ≠ .divideByZero ∧ (a.int ((C * R : Nat) * 99) = none ∨ C * R = 0) := by
  have hmain := h.main
  unfold MainOk at hmain
  rwa [hpc] at hmain

end Main

/-! ### Steps of a thread -/

/-- A thread that has not returned goes on, perhaps with a store into the next of its
elements. -/
theorem Inv.thread (h : Inv a opts C R n s) {i : Nat} {arg : WorkerArg}
    (hrunning : s.running = true) (hget : s.workers[i]? = some arg)
    (hpc : ∀ bytes, arg.thread.pc ≠ .returned bytes) {thread : Thread}
    (hthread : ThreadOk opts.config (share C n i) thread) {stores : List (Nat × Nat)}
    (hstores : thread.completed opts.config = arg.thread.completed opts.config ∧
        stores = s.stores ∨
      thread.completed opts.config = arg.thread.completed opts.config + 1 ∧
        stores = (i, start (share C n) i * R + arg.thread.completed opts.config) ::
          s.stores)
    {latencies : List UInt64} (hlength : latencies.length = s.latencies.length) :
    Inv a opts C R n { s with
      workers := s.workers.set i { arg with thread := thread }
      stores := stores
      latencies := latencies } := by
  have hi : i < s.workers.length := (List.getElem?_eq_some_iff.mp hget).1
  have hself : (s.workers.set i { arg with thread := thread })[i]? =
      some { arg with thread := thread } := List.getElem?_set_self hi
  have hother : ∀ j, j ≠ i →
      (s.workers.set i { arg with thread := thread })[j]? = s.workers[j]? :=
    fun j hj => List.getElem?_set_ne hj.symm
  have hreturned : ∀ j, Returned s j → Returned { s with
      workers := s.workers.set i { arg with thread := thread }
      stores := stores
      latencies := latencies } j := by
    rintro j ⟨arg', bytes, hget', hpc'⟩
    have hj : j ≠ i := by
      rintro rfl
      rw [hget] at hget'
      cases hget'
      exact hpc bytes hpc'
    exact ⟨arg', bytes, (hother j hj).trans hget', hpc'⟩
  have hnew : (i, start (share C n) i * R + arg.thread.completed opts.config) ∉
      s.stores := by
    intro hmem
    obtain ⟨arg', hget', p, hp, hk⟩ := (h.stores _ _).mp hmem
    rw [hget] at hget'
    cases hget'
    omega
  refine ⟨?_, ?_, ?_, ?_⟩
  · intro j arg' hget'
    by_cases hj : j = i
    · subst hj
      have heq : some { arg with thread := thread } = some arg' := hself.symm.trans hget'
      cases heq
      exact { h.workers j arg hget with thread := hthread }
    · exact h.workers j arg' ((hother j hj).symm.trans hget')
  · intro j k
    by_cases hj : j = i
    · subst hj
      have hmem : (j, k) ∈ s.stores ↔ ∃ p < arg.thread.completed opts.config,
          start (share C n) j * R + p = k := by
        rw [h.stores, hget]
        simp
      show (j, k) ∈ stores ↔ ∃ arg', _ = some arg' ∧ _
      rw [hself]
      rcases hstores with ⟨hcompleted, rfl⟩ | ⟨hcompleted, rfl⟩
      · simp [hmem, hcompleted]
      · simp only [List.mem_cons, hmem, Option.some.injEq, exists_eq_left', hcompleted,
          Prod.mk.injEq, true_and]
        constructor
        · rintro (rfl | ⟨p, hp, hk⟩)
          · exact ⟨_, Nat.lt_succ_self _, rfl⟩
          · exact ⟨p, Nat.lt_succ_of_lt hp, hk⟩
        · rintro ⟨p, hp, hk⟩
          by_cases hlast : p = arg.thread.completed opts.config
          · exact .inl (by rw [← hk, hlast])
          · exact .inr ⟨p, by omega, hk⟩
    · show (j, k) ∈ stores ↔ ∃ arg', _ = some arg' ∧ _
      rw [hother j hj, ← h.stores]
      rcases hstores with ⟨_, rfl⟩ | ⟨_, rfl⟩
      · rfl
      · simp [hj]
  · rcases hstores with ⟨_, rfl⟩ | ⟨_, rfl⟩
    · exact h.nodup
    · exact List.nodup_cons.mpr ⟨hnew, h.nodup⟩
  · have hmain := h.main
    unfold MainOk at hmain ⊢
    unfold State.running at hrunning
    dsimp only
    split
    · next hstart =>
        rw [hstart] at hmain
        dsimp only at hmain
        rw [hmain] at hget
        cases hget
    · next hcreating =>
        rw [hcreating] at hmain
        obtain ⟨hlt, hcount, hoffset, hlaid⟩ := hmain
        exact ⟨hlt, (List.length_set ..).trans hcount, hoffset, hlaid.1,
          hlength.trans hlaid.2⟩
    · next hjoining =>
        rw [hjoining] at hmain
        obtain ⟨hlt, hcount, hbytes, hended, hlaid⟩ := hmain
        exact ⟨hlt, (List.length_set ..).trans hcount, hbytes,
          fun j hj => hreturned j (hended j hj), hlaid.1, hlength.trans hlaid.2⟩
    · next hjoined =>
        rw [hjoined] at hmain
        obtain ⟨hcount, hbytes, hended, hlaid⟩ := hmain
        exact ⟨(List.length_set ..).trans hcount, hbytes,
          fun j hj => hreturned j (hended j hj), hlaid.1, hlength.trans hlaid.2⟩
    · next hreported =>
        rw [hreported] at hrunning
        cases hrunning
    · trivial
    · next hundefined =>
        rw [hundefined] at hrunning
        cases hrunning

theorem Inv.connect (h : Inv a opts C R n s) (hsized : Sized a opts C R n) {i : Nat}
    {arg : WorkerArg} (hrunning : s.running = true) (hget : s.workers[i]? = some arg)
    {res : Except String Unit} {t : State}
    (hstep : LoadClient.connect opts i arg res s = some t) : Inv a opts C R n t := by
  have hthread := (h.workers i arg hget).thread
  unfold LoadClient.connect at hstep
  split at hstep
  · cases hstep
    exact h.exited _
  · next bytes hpc =>
      cases hstep
      obtain ⟨hlt, hbytes⟩ := hthread.connecting hpc
      have hsame : Thread.completed opts.config { arg.thread with
          pc := .connected (.start opts.config bytes) } =
            arg.thread.completed opts.config := by
        simp only [Thread.completed, hpc]
        rfl
      refine h.thread hrunning hget (by simp [hpc]) ?_
        (.inl ⟨hsame, rfl⟩) rfl
      exact ⟨hlt, hbytes.trans (congrArg _ hsame.symm),
        request_loopTest hsized.payload rfl (Nat.zero_le _)⟩
  · cases hstep

/-- A thread that is still in the same request. -/
theorem Inv.resume (h : Inv a opts C R n s) {i : Nat} {arg : WorkerArg}
    (hrunning : s.running = true) (hget : s.workers[i]? = some arg) {w w' : Worker}
    (hpc : arg.thread.pc = .connected w) (hreq : w'.req = w.req)
    (hbytes : w'.bytesCompleted = w.bytesCompleted) (hrequest : RequestOk opts.config w') :
    Inv a opts C R n (s.resume i arg w') := by
  have hthread := (h.workers i arg hget).thread.connected hpc
  have hsame : Thread.completed opts.config { arg.thread with pc := .connected w' } =
      arg.thread.completed opts.config := by
    simp only [Thread.completed, hpc, hreq]
  unfold State.resume
  split
  · exact h.exited _
  · refine h.thread hrunning hget (by simp [hpc]) ?_
      (.inl ⟨hsame, rfl⟩) rfl
    exact ⟨hthread.1, by rw [hbytes, hthread.2.1, hsame], hrequest⟩

theorem resume_died {w : Worker} {message : String} (h : w.pc = .died message) (s : State)
    (i : Nat) (arg : WorkerArg) : s.resume i arg w = s.goto (.exited message) := by
  rw [State.resume, h]

theorem Inv.write (h : Inv a opts C R n s) (hsized : Sized a opts C R n) {i : Nat}
    {arg : WorkerArg} (hrunning : s.running = true) (hget : s.workers[i]? = some arg)
    {res : Except Errno Nat} {t : State}
    (hstep : LoadClient.write opts i arg res s = some t) : Inv a opts C R n t := by
  have hthread := (h.workers i arg hget).thread
  unfold LoadClient.write at hstep
  split at hstep
  · next w hpc =>
      split at hstep
      · next done hwriting =>
          have hrequest := (hthread.connected hpc).2.2.writing hwriting
          split at hstep
          · cases hstep
            rcases wrote_cases opts.config hsized.payload w done res with
              ⟨message, hdied⟩ | ⟨hreq, hbytes, done', hdone', hwrote⟩
            · rw [resume_died hdied]
              exact h.exited message
            · exact h.resume hrunning hget hpc hreq hbytes
                (.of_moving hwrote (by rw [hreq]; exact hrequest.1) hdone')
          · cases hstep
      · cases hstep
  · cases hstep

/-- While a thread runs, the array is there. -/
theorem Inv.laid (h : Inv a opts C R n s) {i : Nat} {arg : WorkerArg}
    (hrunning : s.running = true) (hget : s.workers[i]? = some arg) : Laid C R n s := by
  have hmain := h.main
  unfold MainOk at hmain
  unfold State.running at hrunning
  split at hmain
  · rw [hmain] at hget
    cases hget
  · exact hmain.2.2.2
  · exact hmain.2.2.2.2
  · exact hmain.2.2.2
  · next hpc =>
      rw [hpc] at hrunning
      cases hrunning
  · next hpc =>
      rw [hpc] at hrunning
      cases hrunning
  · next hpc =>
      rw [hpc] at hrunning
      cases hrunning

/-- The element for the request is the next one of the thread. -/
theorem latencyIndex_eq (hsized : Sized a opts C R n) {i : Nat} {arg : WorkerArg}
    (harg : WorkerOk opts C R n i arg) {w : Worker} (hpc : arg.thread.pc = .connected w)
    (hreq : w.req < R) :
    latencyIndex a opts arg w.req =
        some ((start (share C n) i * R + arg.thread.completed opts.config : Nat) : Int) ∧
      start (share C n) i * R + arg.thread.completed opts.config < C * R := by
  have hthread := harg.thread.connected hpc
  have hR := config_requests hsized
  have hcompleted : arg.thread.completed opts.config = arg.thread.connIndex * R + w.req := by
    rw [Thread.completed, hpc, hR]
  have hrow : (arg.thread.connIndex + 1) * R ≤ share C n i * R :=
    Nat.mul_le_mul_right R hthread.1
  have hsegment : (start (share C n) i + share C n i) * R ≤ C * R := by
    refine Nat.mul_le_mul_right R ?_
    calc start (share C n) i + share C n i ≤ start (share C n) n := segment_le _ harg.lt
      _ = C := start_share hsized.pos C
  rw [Nat.add_mul] at hsegment
  rw [Nat.add_mul, Nat.one_mul] at hrow
  have hint : ∀ k : Nat, k ≤ C * R → a.int (k : Int) = some (k : Int) :=
    fun k hk => hsized.int_requests k (Int.natCast_nonneg k) (by exact_mod_cast hk)
  refine ⟨?_, by omega⟩
  have hfirst : a.int (arg.thread.connIndex * opts.requestsPerConnection) =
      some ((arg.thread.connIndex * R : Nat) : Int) := by
    rw [hsized.requests]
    exact_mod_cast hint (arg.thread.connIndex * R) (by omega)
  have hsecond : a.int (arg.latencyOffset + (arg.thread.connIndex * R : Nat)) =
      some ((start (share C n) i * R + arg.thread.connIndex * R : Nat) : Int) := by
    rw [harg.offset]
    exact_mod_cast hint (start (share C n) i * R + arg.thread.connIndex * R) (by omega)
  have hthird := hint (start (share C n) i * R + arg.thread.connIndex * R + w.req)
    (by omega)
  rw [latencyIndex, hfirst, Option.bind_some, hsecond, Option.bind_some, hcompleted,
    ← Nat.add_assoc]
  exact_mod_cast hthird

/-- The store when a request is complete. -/
theorem store_complete (hsized : Sized a opts C R n) (h : Inv a opts C R n s) {i : Nat}
    {arg : WorkerArg} (hrunning : s.running = true) (hget : s.workers[i]? = some arg)
    {w w' : Worker} (hpc : arg.thread.pc = .connected w) (hreq : w.req < R) {req : Nat}
    (hpc' : w'.pc = loopTest opts.config req) (latency : UInt64) :
    (s.resume i arg w').store a opts i arg w.req latency = { s with
      workers := s.workers.set i
        { arg with thread := { arg.thread with pc := .connected w' } }
      stores := (i, start (share C n) i * R + arg.thread.completed opts.config) :: s.stores
      latencies := s.latencies.set
        (start (share C n) i * R + arg.thread.completed opts.config) latency } := by
  obtain ⟨hindex, hbound⟩ := latencyIndex_eq hsized (h.workers i arg hget) hpc hreq
  have hresume : s.resume i arg w' =
      s.setThread i arg { arg.thread with pc := .connected w' } := by
    unfold State.resume
    rw [hpc', loopTest]
    split
    · next heq => split at heq <;> cases heq
    · rfl
  rw [hresume, State.store, hindex]
  dsimp only
  rw [if_pos ⟨Int.natCast_nonneg _, by
    show ((_ : Nat) : Int) < (s.latencies.length : Nat)
    rw [(h.laid hrunning hget).2]
    exact_mod_cast hbound⟩]
  rfl

theorem Inv.read (h : Inv a opts C R n s) (hsized : Sized a opts C R n) {i : Nat}
    {arg : WorkerArg} (hrunning : s.running = true) (hget : s.workers[i]? = some arg)
    {res : Except Errno (List UInt8)} {latency : UInt64} {t : State}
    (hstep : LoadClient.read a opts i arg res latency s = some t) :
    Inv a opts C R n t := by
  have harg := (h.workers i arg hget).thread
  unfold LoadClient.read at hstep
  split at hstep
  · next w hpc =>
      have hthread := harg.connected hpc
      split at hstep
      · next done hreading =>
          have hrequest := hthread.2.2.reading hreading
          split at hstep
          · rcases received_cases opts.config w done res with
              ⟨message, hdied, hreq⟩ | ⟨hreq, hbytes, done', hdone', hread⟩ |
              ⟨hreq, hbytes, hread⟩
            · rw [if_neg (by omega)] at hstep
              cases hstep
              rw [resume_died hdied]
              exact h.exited message
            · rw [if_neg (by omega)] at hstep
              cases hstep
              exact h.resume hrunning hget hpc hreq hbytes
                (.of_moving (.inr hread) (by rw [hreq]; exact hrequest.1) hdone')
            · rw [if_pos (by omega)] at hstep
              cases hstep
              have hlt : w.req < R := (config_requests hsized) ▸ hrequest.1
              have hnext : Thread.completed opts.config { arg.thread with
                  pc := .connected (w.received opts.config done res) } =
                    arg.thread.completed opts.config + 1 := by
                simp only [Thread.completed, hpc, hreq, Nat.add_assoc]
              have hthread' : ThreadOk opts.config (share C n i) { arg.thread with
                  pc := .connected (w.received opts.config done res) } := by
                refine ⟨hthread.1, ?_, request_loopTest hsized.payload ?_ ?_⟩
                · rw [hbytes, hthread.2.1, bytesFor_succ, hnext]
                · rw [hread, hreq]
                · rw [hreq]
                  exact hrequest.1
              rw [store_complete hsized h hrunning hget hpc hlt hread]
              exact h.thread hrunning hget (by simp [hpc])
                hthread' (.inr ⟨hnext, rfl⟩) (List.length_set ..)
          · cases hstep
      · cases hstep
  · cases hstep

theorem Inv.next (h : Inv a opts C R n s) {i : Nat}
    {arg : WorkerArg} (hrunning : s.running = true) (hget : s.workers[i]? = some arg)
    {t : State} (hstep : LoadClient.next i arg s = some t) : Inv a opts C R n t := by
  have harg := h.workers i arg hget
  unfold LoadClient.next at hstep
  split at hstep
  · next w hpc =>
      obtain ⟨hlt, hbytes, hclosed⟩ := harg.thread.connected hpc
      split at hstep
      · next hpc' =>
          cases hstep
          have hrequest := hclosed.closed hpc'
          have hcompleted : arg.thread.completed opts.config =
              (arg.thread.connIndex + 1) * opts.config.requestsPerConnection := by
            rw [Thread.completed, hpc, Nat.succ_mul, ← hrequest]
          have hcount : arg.connections.toNat = share C n i := by
            rw [harg.connections, Int.toNat_natCast]
          obtain ⟨hthread', hsame⟩ := thread_loopTest opts.config
            (Nat.succ_le_of_lt hlt)
          rw [hbytes, hcompleted, hcount]
          exact h.thread hrunning hget (by simp [hpc]) hthread'
            (.inl ⟨hsame.trans hcompleted.symm, rfl⟩) rfl
      · cases hstep
  · cases hstep

/-! ### Steps of `main` -/

theorem start_zero (count : Nat → Nat) : start count 0 = 0 := Finset.sum_range_zero count

theorem start_le (hsized : Sized a opts C R n) {i : Nat} (hi : i < n) :
    start (share C n) i + share C n i ≤ C :=
  calc start (share C n) i + share C n i ≤ start (share C n) n := segment_le _ hi
    _ = C := start_share hsized.pos C

/-- The arrays are allocated, and the division begins. -/
theorem allocate_eq (hsized : Sized a opts C R n) (ok : Bool) (s : State) :
    LoadClient.allocate a opts ok s =
      if ok then
        if a.allocates (C * R : Nat) sizeofLatency ∧ a.allocates n sizeofPthread ∧
            a.allocates n sizeofWorkerArg then
          some { s with
            pc := .creating 0 0
            locals := ⟨n, (C * R : Nat), (C / n : Nat), (C % n : Nat)⟩
            latencies := List.replicate (C * R) 0 }
        else none
      else some (s.goto (.exited "calloc")) := by
  have htotal : a.int (opts.connections * opts.requestsPerConnection) =
      some ((C * R : Nat) : Int) := by
    rw [hsized.connections, hsized.requests]
    exact_mod_cast hsized.int_requests (C * R : Nat) (Int.natCast_nonneg _)
      (by exact_mod_cast Nat.le_refl _)
  have hbase : a.int (opts.connections.tdiv n) = some ((C / n : Nat) : Int) := by
    rw [hsized.connections, ← Int.ofNat_tdiv]
    exact hsized.int_connections _ (Int.natCast_nonneg _)
      (by exact_mod_cast Nat.div_le_self C n)
  have hextra : opts.connections.tmod n = ((C % n : Nat) : Int) := by
    rw [hsized.connections, Int.ofNat_tmod]
  have hthreads : (n : Int) ≠ 0 := by exact_mod_cast hsized.pos.ne'
  have hcreate : createTest n 0 0 = .creating 0 0 :=
    if_pos (by exact_mod_cast hsized.pos)
  unfold LoadClient.allocate
  simp only [htotal, hsized.threads, if_neg hthreads, hbase, hextra, hcreate,
    Int.toNat_natCast]

theorem Inv.allocate (h : Inv a opts C R n s) (hsized : Sized a opts C R n)
    (hpc : s.pc = .start) {ok : Bool} {t : State}
    (hstep : LoadClient.allocate a opts ok s = some t) : Inv a opts C R n t := by
  have hmain := h.main
  unfold MainOk at hmain
  rw [hpc] at hmain
  rw [allocate_eq hsized] at hstep
  split at hstep
  · split at hstep
    · cases hstep
      refine { h with main := ?_ }
      exact ⟨hsized.pos, by rw [hmain]; rfl, by rw [start_zero]; rfl, rfl,
        List.length_replicate⟩
    · cases hstep
  · cases hstep
    exact h.exited _

theorem connCounts_eq (hsized : Sized a opts C R n) {i : Nat} (hi : i < n) {locals : Locals}
    (hlocals : locals = ⟨n, (C * R : Nat), (C / n : Nat), (C % n : Nat)⟩) :
    connCounts a opts locals i (start (share C n) i) =
      some ((share C n i : Int), ((start (share C n) i * R : Nat) : Int),
        ((start (share C n) (i + 1) : Nat) : Int)) := by
  have hle := start_le hsized hi
  have hcount : a.int (((C / n : Nat) : Int) + if (i : Int) < (C % n : Nat) then 1 else 0) =
      some ((share C n i : Nat) : Int) := by
    have hshare : ((C / n : Nat) : Int) + (if (i : Int) < (C % n : Nat) then 1 else 0) =
        (share C n i : Nat) := by
      rw [share]
      split <;> split <;> omega
    rw [hshare]
    exact hsized.int_connections _ (Int.natCast_nonneg _) (by omega)
  have hoffset : a.int ((start (share C n) i : Int) * opts.requestsPerConnection) =
      some ((start (share C n) i * R : Nat) : Int) := by
    have hmul : start (share C n) i * R ≤ C * R := Nat.mul_le_mul_right R (by omega)
    rw [hsized.requests]
    exact_mod_cast hsized.int_requests (start (share C n) i * R : Nat)
      (Int.natCast_nonneg _) (by exact_mod_cast hmul)
  have hnext : a.int ((start (share C n) i : Int) + (share C n i : Nat)) =
      some ((start (share C n) (i + 1) : Nat) : Int) := by
    rw [start_succ]
    exact_mod_cast hsized.int_connections (start (share C n) i + share C n i : Nat)
      (Int.natCast_nonneg _) (by omega)
  unfold connCounts
  rw [hlocals]
  dsimp only
  rw [hcount, Option.bind_some, hoffset, Option.bind_some, hnext]
  rfl

theorem Inv.create (h : Inv a opts C R n s) (hsized : Sized a opts C R n) {ok : Bool}
    {t : State} (hstep : LoadClient.create a opts ok s = some t) :
    Inv a opts C R n t := by
  unfold LoadClient.create at hstep
  split at hstep
  · next i offset hpc =>
      obtain ⟨hlt, hlength, rfl, hlocals, hlatencies⟩ := h.creating hpc
      rw [connCounts_eq hsized hlt hlocals] at hstep
      dsimp only at hstep
      split at hstep
      · cases hstep
        have hthread := thread_loopTest opts.config (Nat.zero_le (share C n i))
        have hzero : bytesFor opts.config (0 * opts.config.requestsPerConnection) = 0 := by
          rw [Nat.zero_mul]
          rfl
        rw [hzero, Nat.zero_mul] at hthread
        have hget : ∀ (arg : WorkerArg) j arg', (s.workers ++ [arg])[j]? = some arg' ↔
            s.workers[j]? = some arg' ∨ j = i ∧ arg' = arg := by
          intro arg j arg'
          rw [← hlength]
          by_cases hj : j < s.workers.length
          · rw [List.getElem?_append_left hj]
            simp [Nat.ne_of_lt hj]
          · rw [List.getElem?_append_right (Nat.le_of_not_lt hj),
              List.getElem?_eq_none (Nat.le_of_not_lt hj)]
            by_cases heq : j = s.workers.length
            · simp [heq, eq_comm]
            · rw [List.getElem?_eq_none (by simp; omega)]
              simp [heq]
        refine ⟨?_, ?_, h.nodup, ?_⟩
        · intro j arg' hj
          rcases (hget _ j arg').mp hj with hj | ⟨rfl, rfl⟩
          · exact h.workers j arg' hj
          · exact ⟨hlt, rfl, rfl, by simpa using hthread.1⟩
        · intro j k
          rw [h.stores]
          constructor
          · rintro ⟨arg', hj, hp⟩
            exact ⟨arg', (hget _ j arg').mpr (.inl hj), hp⟩
          · rintro ⟨arg', hj, p, hp, hk⟩
            rcases (hget _ j arg').mp hj with hj | ⟨rfl, rfl⟩
            · exact ⟨arg', hj, p, hp, hk⟩
            · simp [hthread.2] at hp
        · have hpos : (0 : Int) < n := by exact_mod_cast hsized.pos
          have hthreads : s.locals.threads = n := by rw [hlocals]
          unfold MainOk createTest
          simp only [hthreads]
          by_cases hmore : i + 1 < n
          · have hmore' : ((i + 1 : Nat) : Int) < n := by exact_mod_cast hmore
            simp only [hmore', if_true]
            exact ⟨hmore, by simp [hlength], trivial, hlocals, hlatencies⟩
          · have hlast : ¬ ((i + 1 : Nat) : Int) < n := by exact_mod_cast hmore
            simp only [hlast, if_false, hpos, if_true]
            refine ⟨hsized.pos, by simp [hlength]; omega, ?_, ?_, hlocals, hlatencies⟩
            · rw [start_zero, Nat.zero_mul]
              rfl
            · exact fun j hj => absurd hj (Nat.not_lt_zero j)
      · cases hstep
        exact h.exited _
  · cases hstep

theorem Inv.join (h : Inv a opts C R n s) (hsized : Sized a opts C R n) {t : State}
    (hstep : LoadClient.join s = some t) : Inv a opts C R n t := by
  unfold LoadClient.join at hstep
  split at hstep
  · next i bytes hpc =>
      obtain ⟨hlt, hlength, rfl, hended, hlaid⟩ := h.joining hpc
      split at hstep
      · cases hstep
      · next arg hget =>
          split at hstep
          · next bytes hreturned =>
              cases hstep
              refine { h with main := ?_ }
              obtain ⟨_, rfl⟩ :=
                completed_returned (h.workers i arg hget).thread hreturned
              have hthreads : s.locals.threads = n := by rw [hlaid.1]
              have hended' : ∀ j < i + 1, Returned s j := by
                intro j hj
                by_cases hlast : j = i
                · exact hlast ▸ ⟨arg, _, hget, hreturned⟩
                · exact hended j (by omega)
              rw [config_requests hsized, bytesFor_add, ← Nat.add_mul, ← start_succ]
              unfold MainOk joinTest State.goto
              simp only [hthreads]
              by_cases hmore : i + 1 < n
              · have hmore' : ((i + 1 : Nat) : Int) < n := by exact_mod_cast hmore
                simp only [hmore', if_true]
                exact ⟨hmore, hlength, trivial, hended', hlaid⟩
              · have hlast : ¬ ((i + 1 : Nat) : Int) < n := by exact_mod_cast hmore
                have hn : i + 1 = n := by omega
                simp only [hlast, if_false]
                refine ⟨hlength, ?_, hn ▸ hended', hlaid⟩
                rw [hn, start_share hsized.pos]
          · cases hstep
  · cases hstep

theorem Inv.report (h : Inv a opts C R n s) (hsized : Sized a opts C R n) {t : State}
    (hstep : LoadClient.report a s = some t) : Inv a opts C R n t := by
  unfold LoadClient.report at hstep
  split at hstep
  · next bytes hpc =>
      obtain ⟨hlength, rfl, hended, hlocals, hlatencies⟩ := h.joined hpc
      rw [hlocals] at hstep
      dsimp only at hstep
      split at hstep
      · next hnone =>
          cases hstep
          exact { h with main := ⟨Undefined.noConfusion, .inl hnone⟩ }
      · next product hproduct =>
          have hindex : product.tdiv 100 = (p99Index (C * R) : Nat) := by
            rw [hsized.sound _ _ hproduct, p99Index]
            exact_mod_cast (Int.ofNat_tdiv (C * R * 99) 100).symm
          rw [hindex, hlatencies] at hstep
          split at hstep
          · next hbound =>
              cases hstep
              refine { h with main := ?_ }
              exact ⟨hlength, rfl, hended, rfl, by exact_mod_cast hbound.2, hlocals,
                hlatencies⟩
          · next hbound =>
              cases hstep
              refine { h with main := ⟨Undefined.noConfusion, .inr ?_⟩ }
              by_contra hne
              exact hbound ⟨Int.natCast_nonneg _,
                by exact_mod_cast p99Index_lt (Nat.pos_of_ne_zero hne)⟩
  · cases hstep

/-! ### Every step -/

theorem withWorker_inv {i : Nat}
    {f : WorkerArg → State → Option State} {t : State}
    (hf : s.running = true → ∀ arg, s.workers[i]? = some arg → f arg s = some t →
      Inv a opts C R n t)
    (hstep : s.withWorker i f = some t) : Inv a opts C R n t := by
  unfold State.withWorker at hstep
  split at hstep
  · next hrunning =>
      obtain ⟨arg, hget, hstep⟩ := Option.bind_eq_some_iff.mp hstep
      exact hf hrunning arg hget hstep
  · cases hstep

theorem Inv.step (h : Inv a opts C R n s) (hsized : Sized a opts C R n) {e : Event}
    {t : State} (hstep : LoadClient.step a opts s e = some t) : Inv a opts C R n t := by
  cases e with
  | allocate ok =>
      unfold LoadClient.step at hstep
      dsimp only at hstep
      split at hstep
      · next hpc => exact h.allocate hsized hpc hstep
      · cases hstep
  | create ok => exact h.create hsized hstep
  | join => exact h.join hsized hstep
  | report => exact h.report hsized hstep
  | connect i res =>
      exact withWorker_inv (fun hrunning _ hget hstep =>
        h.connect hsized hrunning hget hstep) hstep
  | write i res =>
      exact withWorker_inv (fun hrunning _ hget hstep =>
        h.write hsized hrunning hget hstep) hstep
  | read i res latency =>
      exact withWorker_inv (fun hrunning _ hget hstep =>
        h.read hsized hrunning hget hstep) hstep
  | next i =>
      exact withWorker_inv (fun hrunning _ hget hstep => h.next hrunning hget hstep) hstep

theorem reachable_inv (hsized : Sized a opts C R n) (h : (system a opts).Reachable s) :
    Inv a opts C R n s := by
  refine h.induct ?_ fun _ _ _ _ hinv hstep => hinv.step hsized hstep
  rintro _ rfl
  exact inv_initial

end Steps

end SysLab.PartB.LoadClient
