import SysLab.Foundation.Wire
import SysLab.PartB.LoadClient
import SysLab.PartB.PollServerTable

/-!
# Requests of the load client, counted at both ends

A worker of `load_client.c` on one of its connections, and the whole of
`poll_server.c` at the other end, busy with any other clients besides.  The
kernel cuts the two byte streams as it likes, lets calls fail, and the server may
be at any point of its loop when the client moves.

Whenever the worker has just completed a request, nothing is under way in either
direction and nothing is left in the server's slot: what it measures is this
request and no other (`aligned`).
-/

namespace SysLab.PartB.Alignment

open SysLab.Foundation
open SysLab.Foundation.Transcript
open SysLab.PartB.LoadClient

/-! ## The two programs -/

/-- The server, the worker, the connection between them, and all that the worker
has sent and received on it. -/
structure State where
  server : PollServer.State
  worker : Worker
  wire : Wire Int UInt8
  sent : List UInt8
  got : List UInt8

/-- A step of the server, `mine` telling whether an accepted client is this one; or
an answer to the worker's call. -/
inductive Event
  | server (e : PollServer.Event) (mine : Bool)
  | write (res : Except Errno Nat)
  | read (res : Except Errno (List UInt8))

/-- The `write` in `write_full` returns. -/
def writeStep (cfg : Config) (s : State) (done : Nat) : Except Errno Nat → Option State
  | .error e => some { s with worker := s.worker.wrote cfg done (.error e) }
  | .ok n =>
      if done + n ≤ cfg.payloadSize then
        some { s with
          worker := s.worker.wrote cfg done (.ok n)
          wire := s.wire.send (((sendBuf cfg).drop done).take n)
          sent := s.sent ++ ((sendBuf cfg).drop done).take n }
      else none

/-- The `read` in `read_full` returns; no bytes are the end of the stream. -/
def readStep (cfg : Config) (s : State) (done : Nat) :
    Except Errno (List UInt8) → Option State
  | .error e => some { s with worker := s.worker.received cfg done (.error e) }
  | .ok bytes =>
      if done + bytes.length ≤ cfg.payloadSize then
        (s.wire.receive bytes).map fun wire =>
          { s with
            worker := s.worker.received cfg done (.ok bytes)
            wire := wire
            got := s.got ++ bytes }
      else none

/-- The server has moved on; the calls it has made move the wire. -/
structure ServerStep (maxClients : Nat) (base : Finset Int) (listenFd : Int)
    (e : PollServer.Event) (mine : Bool) (s t : State) : Prop where
  server : (PollServer.system maxClients base listenFd).next s.server e t.server
  wire : ∃ past, t.server.trace = past ++ s.server.trace ∧
    s.wire.serveAll mine past = some t.wire
  worker : t.worker = s.worker
  sent : t.sent = s.sent
  got : t.got = s.got

/-- The pair, from the return of `connect_to_server`; the server may not have
accepted the client yet. -/
def system (maxClients : Nat) (base : Finset Int) (listenFd : Int) (cfg : Config) :
    System State Event where
  init s :=
    s.server = PollServer.initial listenFd ∧
      (∃ bytesCompleted, s.worker = .start cfg bytesCompleted) ∧
      s.wire = .fresh ∧ s.sent = [] ∧ s.got = []
  next s e t :=
    match e with
    | .server e mine => ServerStep maxClients base listenFd e mine s t
    | .write res => ∃ done, s.worker.pc = .writeFull done ∧ writeStep cfg s done res = some t
    | .read res => ∃ done, s.worker.pc = .readFull done ∧ readStep cfg s done res = some t

/-! ## The worker's count -/

/-- How much the worker has sent and received, by where it stands. -/
structure Counted (cfg : Config) (w : Worker) (sent got : Nat) : Prop where
  writing : ∀ done, w.pc = .writeFull done → done < cfg.payloadSize ∧
    sent = w.req * cfg.payloadSize + done ∧ got = w.req * cfg.payloadSize
  reading : ∀ done, w.pc = .readFull done → done < cfg.payloadSize ∧
    sent = (w.req + 1) * cfg.payloadSize ∧ got = w.req * cfg.payloadSize + done
  closed : w.pc = .closed → sent = w.req * cfg.payloadSize ∧ got = w.req * cfg.payloadSize

section Counted

variable {cfg : Config} {w : Worker} {sent got done : Nat}

/-- A worker that has given up owes nothing. -/
theorem counted_died {message : String} (hpc : w.pc = .died message) :
    Counted cfg w sent got := by
  refine ⟨fun done hd => ?_, fun done hd => ?_, fun hd => ?_⟩
  · rw [hpc] at hd
    cases hd
  · rw [hpc] at hd
    cases hd
  · rw [hpc] at hd
    cases hd

/-- Before the first byte of a request. -/
theorem counted_loopTest (hpayload : 1 ≤ cfg.payloadSize) (hpc : w.pc = loopTest cfg w.req)
    (hsent : sent = w.req * cfg.payloadSize) (hgot : got = w.req * cfg.payloadSize) :
    Counted cfg w sent got := by
  refine ⟨fun done hd => ?_, fun done hd => ?_, fun _ => ⟨hsent, hgot⟩⟩
  · rw [hpc, loopTest] at hd
    split at hd
    · cases hd
      exact ⟨hpayload, hsent, hgot⟩
    · cases hd
  · rw [hpc, loopTest] at hd
    split at hd
    · cases hd
    · cases hd

/-- Within the sending of a request. -/
theorem counted_writing (hpc : w.pc = .writeFull done) (hdone : done < cfg.payloadSize)
    (hsent : sent = w.req * cfg.payloadSize + done) (hgot : got = w.req * cfg.payloadSize) :
    Counted cfg w sent got := by
  refine ⟨fun done' hd => ?_, fun done' hd => ?_, fun hd => ?_⟩
  · rw [hpc] at hd
    cases hd
    exact ⟨hdone, hsent, hgot⟩
  · rw [hpc] at hd
    cases hd
  · rw [hpc] at hd
    cases hd

/-- Within the receiving of its answer. -/
theorem counted_reading (hpc : w.pc = .readFull done) (hdone : done < cfg.payloadSize)
    (hsent : sent = (w.req + 1) * cfg.payloadSize)
    (hgot : got = w.req * cfg.payloadSize + done) : Counted cfg w sent got := by
  refine ⟨fun done' hd => ?_, fun done' hd => ?_, fun hd => ?_⟩
  · rw [hpc] at hd
    cases hd
  · rw [hpc] at hd
    cases hd
    exact ⟨hdone, hsent, hgot⟩
  · rw [hpc] at hd
    cases hd

/-- A loop that an error or an empty answer meets runs on or gives up. -/
theorem transferStep_idle {length : Nat} (hdone : done < length) {res : Except Errno Nat}
    (hres : ∀ n, res = .ok n → n = 0) :
    transferStep length done res = .running done ∨
      transferStep length done res = .returned (.ok done) ∨
      ∃ e, transferStep length done res = .returned (.error e) := by
  rcases res with e | n
  · by_cases hintr : e = .EINTR
    · exact .inl (by simp [transferStep, hintr, Transfer.resume, hdone])
    · exact .inr (.inr ⟨e, by simp [transferStep, hintr]⟩)
  · cases hres n rfl
    exact .inr (.inl rfl)

/-- `write_full` with nothing moved. -/
theorem Counted.wrote_idle (h : Counted cfg w sent got) (hpc : w.pc = .writeFull done)
    {res : Except Errno Nat} (hres : ∀ n, res = .ok n → n = 0) :
    Counted cfg (w.wrote cfg done res) sent got := by
  obtain ⟨hdone, hsent, hgot⟩ := h.writing done hpc
  rw [Worker.wrote, PartB.writeFull]
  rcases transferStep_idle hdone hres with hrun | hshort | ⟨e, herror⟩
  · rw [hrun]
    exact counted_writing rfl hdone hsent hgot
  · rw [hshort, Worker.afterWrite, if_neg (Nat.ne_of_lt hdone)]
    exact counted_died rfl
  · rw [herror]
    exact counted_died rfl

/-- `read_full` with nothing moved. -/
theorem Counted.received_idle (h : Counted cfg w sent got) (hpc : w.pc = .readFull done)
    {res : Except Errno (List UInt8)} (hres : ∀ bytes, res = .ok bytes → bytes = []) :
    Counted cfg (w.received cfg done res) sent got := by
  obtain ⟨hdone, hsent, hgot⟩ := h.reading done hpc
  have hmap : ∀ n, res.map List.length = .ok n → n = 0 := by
    intro n hn
    rcases res with e | bytes
    · cases hn
    · cases hres bytes rfl
      cases hn
      rfl
  unfold Worker.received PartB.readFull
  dsimp only
  rcases transferStep_idle hdone hmap with hrun | hshort | ⟨e, herror⟩
  · rw [hrun]
    rcases res with e | bytes
    · exact counted_reading rfl hdone hsent hgot
    · exact counted_reading rfl hdone hsent hgot
  · rw [hshort, Worker.afterRead, if_neg (Nat.ne_of_lt hdone)]
    exact counted_died rfl
  · rw [herror]
    exact counted_died rfl

/-- `write_full` with `n` bytes taken. -/
theorem Counted.wrote (h : Counted cfg w sent got) (hpc : w.pc = .writeFull done) {n : Nat}
    (hn : 0 < n) (hle : done + n ≤ cfg.payloadSize) :
    Counted cfg (w.wrote cfg done (.ok n)) (sent + n) got := by
  obtain ⟨hdone, hsent, hgot⟩ := h.writing done hpc
  rw [wrote_ok hn hle]
  split
  · rename_i hmore
    exact counted_writing rfl hmore (by dsimp only; omega) hgot
  · refine counted_reading rfl (by omega) ?_ hgot
    have hall : done + n = cfg.payloadSize := by omega
    dsimp only
    rw [Nat.succ_mul]
    omega

/-- `read_full` with `bytes` returned. -/
theorem Counted.received (h : Counted cfg w sent got) (hpayload : 1 ≤ cfg.payloadSize)
    (hpc : w.pc = .readFull done) {bytes : List UInt8} (hn : 0 < bytes.length)
    (hle : done + bytes.length ≤ cfg.payloadSize) :
    Counted cfg (w.received cfg done (.ok bytes)) sent (got + bytes.length) := by
  obtain ⟨hdone, hsent, hgot⟩ := h.reading done hpc
  rw [received_ok hn hle]
  split
  · rename_i hmore
    exact counted_reading rfl hmore hsent (by dsimp only; omega)
  · refine counted_loopTest hpayload rfl hsent ?_
    dsimp only [Worker.nextRequest]
    rw [Nat.succ_mul]
    omega

end Counted

/-! ## The invariant -/

/-- The server's tables are in order, the wire agrees with the server and carries
what the worker sends and receives, and the worker's count is right. -/
structure Aligned (maxClients : Nat) (base : Finset Int) (cfg : Config) (s : State) :
    Prop where
  server : PollServer.Inv maxClients base s.server
  tracks : Wire.Tracks base s.wire s.server.trace
  carries : s.wire.Carries s.sent s.got
  counted : Counted cfg s.worker s.sent.length s.got.length

section Invariant

variable {maxClients : Nat} {base : Finset Int} {listenFd : Int} {cfg : Config} {s t : State}

theorem init_aligned (hpayload : 1 ≤ cfg.payloadSize)
    (hs : (system maxClients base listenFd cfg).init s) : Aligned maxClients base cfg s := by
  obtain ⟨hserver, ⟨bytesCompleted, hworker⟩, hwire, hsent, hgot⟩ := hs
  refine ⟨?_, ?_, ?_, ?_⟩
  · rw [hserver]
    exact PollServer.initial_inv listenFd
  · rw [hserver, hwire]
    exact Wire.fresh_tracks
  · rw [hwire, hsent, hgot]
    exact Wire.fresh_carries
  · rw [hworker, hsent, hgot]
    exact counted_loopTest hpayload rfl (Nat.zero_mul _).symm (Nat.zero_mul _).symm

theorem server_aligned (h : Aligned maxClients base cfg s) {e : PollServer.Event}
    {mine : Bool} (hstep : ServerStep maxClients base listenFd e mine s t) :
    Aligned maxClients base cfg t := by
  have hinv : PollServer.Inv maxClients base t.server :=
    PollServer.step_inv h.server hstep.server.1 hstep.server.2
  obtain ⟨past, htrace, hwire⟩ := hstep.wire
  have hlawful := hinv.lawful
  have hhalf := hinv.halfDuplex
  rw [htrace] at hlawful hhalf
  refine ⟨hinv, ?_, ?_, ?_⟩
  · rw [htrace]
    exact h.tracks.serveAll hlawful hhalf hwire
  · rw [hstep.sent, hstep.got]
    exact h.carries.serveAll hwire
  · rw [hstep.worker, hstep.sent, hstep.got]
    exact h.counted

theorem write_aligned (h : Aligned maxClients base cfg s) {done : Nat}
    (hpc : s.worker.pc = .writeFull done) {res : Except Errno Nat}
    (hstep : writeStep cfg s done res = some t) : Aligned maxClients base cfg t := by
  rcases res with e | n
  · cases hstep
    exact ⟨h.server, h.tracks, h.carries,
      h.counted.wrote_idle hpc fun _ hn => (by cases hn)⟩
  · simp only [writeStep] at hstep
    split at hstep
    · rename_i hle
      cases hstep
      have hchunk : (((sendBuf cfg).drop done).take n).length = n := length_chunk hle
      have htracks : Wire.Tracks base (s.wire.send (((sendBuf cfg).drop done).take n))
          s.server.trace :=
        ⟨h.tracks.waiting, h.tracks.established, h.tracks.isPrefix⟩
      refine ⟨h.server, htracks, h.carries.send _, ?_⟩
      dsimp only
      rw [List.length_append, hchunk]
      by_cases hn : n = 0
      · subst hn
        exact h.counted.wrote_idle hpc fun _ hm => (Except.ok.inj hm).symm
      · exact h.counted.wrote hpc (by omega) hle
    · cases hstep

theorem read_aligned (hpayload : 1 ≤ cfg.payloadSize) (h : Aligned maxClients base cfg s)
    {done : Nat} (hpc : s.worker.pc = .readFull done) {res : Except Errno (List UInt8)}
    (hstep : readStep cfg s done res = some t) : Aligned maxClients base cfg t := by
  rcases res with e | bytes
  · cases hstep
    exact ⟨h.server, h.tracks, h.carries,
      h.counted.received_idle hpc fun _ hn => (by cases hn)⟩
  · simp only [readStep] at hstep
    split at hstep
    · rename_i hle
      obtain ⟨wire, hwire, rfl⟩ := Option.map_eq_some_iff.mp hstep
      have hcarries := h.carries.receive hwire
      have htracks : Wire.Tracks base wire s.server.trace := by
        unfold Wire.receive at hwire
        split at hwire
        · cases hwire
          exact ⟨h.tracks.waiting, h.tracks.established, h.tracks.isPrefix⟩
        · cases hwire
      refine ⟨h.server, htracks, hcarries, ?_⟩
      dsimp only
      rw [List.length_append]
      cases bytes with
      | nil =>
          exact h.counted.received_idle hpc fun _ hm => (Except.ok.inj hm).symm
      | cons b bs => exact h.counted.received hpayload hpc (Nat.succ_pos _) hle
    · cases hstep

theorem reachable_aligned (hpayload : 1 ≤ cfg.payloadSize)
    (hs : (system maxClients base listenFd cfg).Reachable s) :
    Aligned maxClients base cfg s := by
  refine hs.induct (fun s hinit => init_aligned hpayload hinit) ?_
  intro s e t _ h hnext
  cases e with
  | server e mine => exact server_aligned h hnext
  | write res =>
      obtain ⟨done, hpc, hstep⟩ := hnext
      exact write_aligned h hpc hstep
  | read res =>
      obtain ⟨done, hpc, hstep⟩ := hnext
      exact read_aligned hpayload h hpc hstep

/-- An open connection of the server has a slot, and one from which everything has
been echoed is drained. -/
theorem Aligned.slot (h : Aligned maxClients base cfg s) {fd : Int}
    (hlink : s.wire.link = .established fd) (hdrained : s.wire.replied = s.wire.fetched) :
    ∃ i, 1 ≤ i ∧ i ≤ maxClients ∧ (s.server.conns i).fd = fd ∧
      (s.server.conns i).used = 0 ∧ (s.server.conns i).sent = 0 := by
  obtain ⟨hopen, hfetched, hreplied⟩ := h.tracks.established fd hlink
  obtain ⟨i, ⟨hi, him⟩, hlive, hfd⟩ :=
    h.server.table.exists_slot (Finset.mem_coe.mpr hopen)
  have hslot := h.server.slots i hi him
  have hconserved : Conserved s.server.trace (s.server.conns i).fd
      (s.server.conns i).pending := hslot.conserved hlive
  have hpending : (s.server.conns i).pending = [] := by
    rw [Conserved, hfd, ← hfetched, ← hreplied, hdrained] at hconserved
    exact List.append_right_eq_self.mp hconserved
  rcases hslot.busy hlive with ⟨_, hused, hsent⟩ | ⟨_, hless, hcap⟩
  · exact ⟨i, hi, him, hfd, hused, hsent⟩
  · have hlength : (s.server.conns i).pending.length =
        (s.server.conns i).used - (s.server.conns i).sent :=
      (s.server.conns i).buffer.length_window hcap
    rw [hpending, List.length_nil] at hlength
    change (s.server.conns i).sent < (s.server.conns i).used at hless
    omega

end Invariant

/-- Whenever the worker has just completed request `r`, it has sent and received
exactly `r + 1` payloads, and received what it sent; nothing is under way in either
direction, and if the server still has the connection open, then in a slot with
`used = sent = 0`. -/
theorem aligned (maxClients : Nat) (base : Finset Int) (listenFd : Int) (cfg : Config)
    (hpayload : 1 ≤ cfg.payloadSize) (s : State)
    (hs : (system maxClients base listenFd cfg).Reachable s) (r : Nat)
    (hreq : s.worker.req = r + 1) (hpc : s.worker.pc = loopTest cfg (r + 1)) :
    s.sent.length = (r + 1) * cfg.payloadSize ∧
      s.got.length = (r + 1) * cfg.payloadSize ∧ s.got = s.sent ∧
      s.wire.inbound = [] ∧ s.wire.outbound = [] ∧
      ∀ fd, s.wire.link = .established fd → ∃ i, 1 ≤ i ∧ i ≤ maxClients ∧
        (s.server.conns i).fd = fd ∧ (s.server.conns i).used = 0 ∧
        (s.server.conns i).sent = 0 := by
  have h := reachable_aligned hpayload hs
  have hcount : s.sent.length = (r + 1) * cfg.payloadSize ∧
      s.got.length = (r + 1) * cfg.payloadSize := by
    rw [← hreq]
    rw [loopTest] at hpc
    split at hpc
    · obtain ⟨_, hsent, hgot⟩ := h.counted.writing 0 hpc
      exact ⟨hsent, hgot⟩
    · exact h.counted.closed hpc
  obtain ⟨hsame, hin, hout, hdrained⟩ :=
    h.carries.settled h.tracks.isPrefix (hcount.1.trans hcount.2.symm)
  exact ⟨hcount.1, hcount.2, hsame, hin, hout, fun fd hlink => h.slot hlink hdrained⟩

section Steps

variable {maxClients : Nat} {base : Finset Int} {listenFd : Int} {cfg : Config} {s t : State}

/-- A step of the server, the calls it makes being `past`. -/
theorem serve_reachable (hs : (system maxClients base listenFd cfg).Reachable s)
    (e : PollServer.Event) (mine : Bool) (past : Trace) {u : PollServer.State}
    {wire : Wire Int UInt8} (hstep : PollServer.step maxClients base s.server e = some u)
    (hk : KernelOk base u.trace) (hpast : u.trace = past ++ s.server.trace)
    (hwire : s.wire.serveAll mine past = some wire) :
    (system maxClients base listenFd cfg).Reachable ⟨u, s.worker, wire, s.sent, s.got⟩ := by
  have hnext : ServerStep maxClients base listenFd e mine s
      ⟨u, s.worker, wire, s.sent, s.got⟩ :=
    ⟨⟨hstep, hk⟩, ⟨past, hpast, hwire⟩, rfl, rfl, rfl⟩
  exact hs.step (e := .server e mine) hnext

/-- A step of the worker. -/
theorem write_reachable (hs : (system maxClients base listenFd cfg).Reachable s)
    (res : Except Errno Nat) {done : Nat} (hpc : s.worker.pc = .writeFull done)
    (hstep : writeStep cfg s done res = some t) :
    (system maxClients base listenFd cfg).Reachable t :=
  hs.step (e := .write res) ⟨done, hpc, hstep⟩

theorem read_reachable (hs : (system maxClients base listenFd cfg).Reachable s)
    (res : Except Errno (List UInt8)) {done : Nat} (hpc : s.worker.pc = .readFull done)
    (hstep : readStep cfg s done res = some t) :
    (system maxClients base listenFd cfg).Reachable t :=
  hs.step (e := .read res) ⟨done, hpc, hstep⟩

end Steps

/-- A request of one byte, from the accept to its completion. -/
theorem aligned_one_byte :
    ∃ s, (system 1 {3} 3 ⟨1, 1⟩).Reachable s ∧ s.worker.req = 1 ∧ s.got = [65] ∧
      s.got = s.sent ∧ s.wire.inbound = [] ∧ s.wire.outbound = [] := by
  have h₀ : (system 1 {3} 3 ⟨1, 1⟩).Reachable
      ⟨PollServer.initial 3, .start ⟨1, 1⟩ 0, .fresh, [], []⟩ :=
    .start ⟨rfl, ⟨0, rfl⟩, rfl, rfl, rfl⟩
  have h₁ := serve_reachable h₀ (.poll (.ok fun i =>
    if i = 0 then PollServer.POLLIN else PollServer.noFlags)) false [] rfl (by decide) rfl rfl
  have h₂ := serve_reachable h₁ (.accept (.ok 4)) true [.accept 4] rfl (by decide) rfl rfl
  have h₃ := serve_reachable h₂ (.accept (.error .EAGAIN)) false [] rfl (by decide) rfl rfl
  have h₄ := write_reachable h₃ (.ok 1) rfl rfl
  have h₅ := serve_reachable h₄ (.slot (.error .EAGAIN) (.error .EAGAIN)) false [] rfl
    (by decide) rfl rfl
  have h₆ := serve_reachable h₅ (.poll (.ok fun i =>
    if i = 0 then PollServer.noFlags else PollServer.POLLIN)) false [] rfl (by decide) rfl rfl
  have h₇ := serve_reachable h₆ (.slot (.ok [65]) (.error .EAGAIN)) false
    [.read 4 4096 (.ok [65])] rfl (by decide) rfl rfl
  have h₈ := serve_reachable h₇ (.poll (.ok fun i =>
    if i = 0 then PollServer.noFlags else PollServer.POLLOUT)) false [] rfl (by decide) rfl rfl
  have h₉ := serve_reachable h₈ (.slot (.error .EAGAIN) (.ok 1)) false
    [.write 4 [65] (.ok 1)] rfl (by decide) rfl rfl
  have h₁₀ := read_reachable h₉ (.ok [65]) rfl rfl
  obtain ⟨_, _, hsame, hin, hout, _⟩ :=
    aligned 1 {3} 3 ⟨1, 1⟩ (Nat.le_refl 1) _ h₁₀ 0 rfl rfl
  exact ⟨_, h₁₀, rfl, rfl, hsame, hin, hout⟩

end SysLab.PartB.Alignment
