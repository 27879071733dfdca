import SysLab.PartB.PollLoad
import SysLab.PartB.PollServerActions
import SysLab.PartB.ThreadpoolServed

/-!
# One slot of the `poll` server

What `poll` has reported stays true until the slot is served: only the server reads
what is there to read, and only the server fills the room there is to write.  So a slot
that is served makes one call, which moves bytes or sees the end of the stream
(`Passed`).
-/

namespace SysLab.PartB.PollLoad

open SysLab.Foundation
open SysLab.PartB.PollServer (PollFlags noFlags POLLIN POLLOUT Slot SlotOk closeConnection)
open SysLab.PartB.ThreadpoolLoad (Setup Conn newCalls newCalls_append)

section Model

variable {threads toServer toClient maxClients : Nat} {setup : Setup threads}
  {s t : State threads toServer toClient}

theorem step_some {e : Event threads} (h : step setup maxClients s e = some t) :
    s.exited = false ∧ move setup maxClients s e = some t := by
  unfold step at h
  split at h
  · cases h
  · next halive => exact ⟨Bool.not_eq_true _ ▸ halive, h⟩

theorem step_eq (halive : s.exited = false) (e : Event threads) :
    step setup maxClients s e = move setup maxClients s e :=
  if_neg (by rw [halive]; exact Bool.false_ne_true)

/-! ## What `poll` has reported -/

/-- What was reported is still so, and is no error. -/
structure Within (f g : PollFlags) : Prop where
  sound : f.broken = false
  pollin : f.pollin = true → g.pollin = true
  pollout : f.pollout = true → g.pollout = true

/-- The scan has still to pass slot `j`. -/
def Remaining : PollServer.Pc → Nat → Prop
  | .accept, _ => True
  | .scan i, j => i ≤ j
  | _, _ => False

/-- The server runs and watches its listening socket, and the slots that the scan has
still to pass are ready for what `poll` has reported of them. -/
structure Ready (maxClients : Nat) (s : State threads toServer toClient) : Prop where
  running : ∀ why, s.server.pc ≠ .exited why
  listener : (s.server.pfds 0).events = POLLIN
  flags : ∀ j, 1 ≤ j → j ≤ maxClients → Remaining s.server.pc j →
    0 ≤ (s.server.conns j).fd → Within (s.server.pfds j).revents (s.polled j)

theorem eq_of_sound {f : PollFlags} (hsound : f.broken = false) :
    f = { pollin := f.pollin, pollout := f.pollout } := by
  obtain ⟨pollin, pollout, pollerr, pollhup, pollnval⟩ := f
  simp only [PollFlags.broken, Bool.or_eq_false_iff] at hsound
  obtain ⟨⟨rfl, rfl⟩, rfl⟩ := hsound
  rfl

theorem flagged_cases {f : PollFlags} (hflagged : f ≠ noFlags) (hsound : f.broken = false) :
    f.pollin = true ∨ f.pollout = true := by
  by_contra hneither
  obtain ⟨hin, hout⟩ := not_or.mp hneither
  refine hflagged ?_
  rw [eq_of_sound hsound, Bool.eq_false_iff.mpr hin, Bool.eq_false_iff.mpr hout]
  rfl

/-- A slot that is reported has a connection. -/
theorem polled_eq {j : Nat} (hj : j ≠ 0) {fd : Int} (hfd : (s.server.pfds j).fd = fd)
    (hlive : 0 ≤ fd) {k : Conn threads} (hpeer : s.network.peer fd = some k) :
    s.polled j =
      { pollin := (s.server.pfds j).events.pollin &&
          (decide (0 < (s.network.inbound k).length) || !s.clientSide.isOpen k)
        pollout := (s.server.pfds j).events.pollout &&
          decide ((s.network.outbound k).length < toClient) } := by
  have hnonneg : ¬ (s.server.pfds j).fd < 0 := by omega
  rw [State.polled, if_neg hj, if_neg hnonneg, hfd, hpeer]

theorem exists_peer {j : Nat} (hj : j ≠ 0)
    (h : (s.polled j).pollin = true ∨ (s.polled j).pollout = true) :
    ∃ k, s.network.peer (s.server.pfds j).fd = some k ∧ 0 ≤ (s.server.pfds j).fd := by
  by_cases hneg : (s.server.pfds j).fd < 0
  · have hnone : s.polled j = noFlags := by rw [State.polled, if_neg hj, if_pos hneg]
    rw [hnone] at h
    rcases h with h | h
    · cases h
    · cases h
  · cases hpeer : s.network.peer (s.server.pfds j).fd with
    | some k => exact ⟨k, rfl, Int.not_lt.mp hneg⟩
    | none =>
        have hnone : s.polled j = noFlags := by
          rw [State.polled, if_neg hj, if_neg hneg, hpeer]
        rw [hnone] at h
        rcases h with h | h
        · cases h
        · cases h

/-! ## The server goes on -/

theorem answered_some {e : PollServer.Event} (h : answered setup maxClients s e = some t) :
    ∃ server network, PollServer.step maxClients setup.base s.server e = some server ∧
      KernelOk setup.base server.trace ∧
      s.network.answersNow s.clientSide.isOpen (newCalls s.server.trace server.trace) =
        some network ∧ t = { s with server := server, network := network } := by
  obtain ⟨server, hstep, h⟩ := Option.bind_eq_some_iff.mp h
  split at h
  · next hkernel =>
      obtain ⟨network, hanswers, rfl⟩ := Option.map_eq_some_iff.mp h
      exact ⟨server, network, hstep, hkernel, hanswers, rfl⟩
  · cases h

theorem serverStep_some {e : ServerEvent} (h : serverStep setup maxClients s e = some t) :
    ∃ e', answered setup maxClients s e' = some t := by
  cases e with
  | poll =>
      simp only [serverStep] at h
      split at h
      · exact ⟨_, h⟩
      · cases h
  | accept fd => exact ⟨_, h⟩
  | drained =>
      simp only [serverStep] at h
      split at h
      · exact ⟨_, h⟩
      · cases h
  | slot rd wr => exact ⟨_, h⟩

/-- A `write` to a connection that the server has closed. -/
theorem resetStep_some {i : Fin threads} (h : resetStep setup s i = some t) :
    ∃ w done, (s.clients i).pc = .connected w ∧ w.pc = .writeFull done ∧
      s.network.dropped (s.clientSide.conn i) = true ∧
      t = { s with
        clients := (s.clientSide.setPc i (.connected
          (w.wrote setup.client done (.error (.other 32))))).clients } := by
  unfold resetStep at h
  split at h
  · next w hpc =>
      split at h
      · next done hwrite =>
          split at h
          · next hdropped =>
              cases h
              exact ⟨w, done, hpc, hwrite, hdropped, rfl⟩
          · cases h
      · cases h
  · cases h

/-- The network answers the calls made. -/
theorem answersNow_calls {net net' : Network (Conn threads) toServer toClient}
    {isOpen : Conn threads → Bool} {before after : Trace} (calls : Trace)
    (hafter : after = calls ++ before)
    (h : net.answersNow isOpen (newCalls before after) = some net') :
    net.answersNow isOpen calls = some net' := by
  rw [hafter, newCalls_append] at h
  exact h

/-- Slot `i` has been passed: nothing was reported of it; or its `read` has returned
bytes, or the end of the stream, so that it is closed; or its `write` has taken
bytes. -/
inductive Passed (s : State threads toServer toClient) (i : Nat)
    (rd : Except Errno (List UInt8)) (y : Slot)
    (network : Network (Conn threads) toServer toClient) : Prop
  | idle : (s.server.conns i).fd < 0 ∨ (s.server.pfds i).revents = noFlags →
      y = s.server.slot i → network = s.network → Passed s i rd y network
  | read (fd : Int) (k : Conn threads) (bytes : List UInt8)
      (inbound : Channel UInt8 toServer) : rd = .ok bytes →
      (s.server.conns i).fd = fd → 0 ≤ fd → s.network.peer fd = some k →
      (s.server.conns i).used = (s.server.conns i).sent →
      (s.server.pfds i).revents = POLLIN → 0 < bytes.length →
      (s.network.inbound k).pop bytes.length = some (bytes, inbound) →
      y = { s.server.slot i with
        trace := .read fd bufferSize (.ok bytes) :: s.server.trace
        conn := { s.server.conns i with
          buffer := (s.server.conns i).buffer.store bytes
          used := bytes.length
          sent := 0 }
        pfd := { s.server.pfds i with events := POLLOUT } } →
      network = { s.network with
        inbound := Function.update s.network.inbound k inbound } → Passed s i rd y network
  | eof (fd : Int) (k : Conn threads) : rd = .ok [] →
      (s.server.conns i).fd = fd → 0 ≤ fd → s.network.peer fd = some k →
      (s.server.conns i).used = (s.server.conns i).sent →
      (s.server.pfds i).revents = POLLIN →
      s.clientSide.isOpen k = false → (s.network.inbound k).length = 0 →
      y = closeConnection { s.server.slot i with
        trace := .read fd bufferSize (.ok []) :: s.server.trace } →
      network = { s.network with
        peer := Function.update s.network.peer fd none
        dropped := Function.update s.network.dropped k true } → Passed s i rd y network
  | write (fd : Int) (k : Conn threads) (n : Nat) (outbound : Channel UInt8 toClient) :
      (s.server.conns i).fd = fd → 0 ≤ fd → s.network.peer fd = some k →
      (s.server.conns i).sent < (s.server.conns i).used →
      (s.server.pfds i).revents = POLLOUT → 0 < n →
      (s.server.conns i).sent + n ≤ (s.server.conns i).used →
      (s.network.outbound k).push ((s.server.conns i).pending.take n) = some outbound →
      y = { s.server.slot i with
        trace := .write fd (s.server.conns i).pending (.ok n) :: s.server.trace
        conn := if (s.server.conns i).sent + n = (s.server.conns i).used then
            { s.server.conns i with used := 0, sent := 0 }
          else { s.server.conns i with sent := (s.server.conns i).sent + n }
        pfd := if (s.server.conns i).sent + n = (s.server.conns i).used then
            { s.server.pfds i with events := POLLIN }
          else s.server.pfds i } →
      network = { s.network with
        outbound := Function.update s.network.outbound k outbound } → Passed s i rd y network

/-! ## What a reported slot does -/

/-- A slot that is reported for reading only is read. -/
theorem serveSlot_read {x : Slot} (hlive : 0 ≤ x.conn.fd) (hflags : x.pfd.revents = POLLIN)
    (hdrained : x.conn.used = x.conn.sent) (rd : Except Errno (List UInt8))
    (wr : Except Errno Nat) :
    PollServer.serveSlot x rd wr =
      match rd with
      | .error e =>
          if e.wouldBlock then { x with trace := .read x.conn.fd bufferSize rd :: x.trace }
          else closeConnection { x with trace := .read x.conn.fd bufferSize rd :: x.trace }
      | .ok [] =>
          closeConnection { x with trace := .read x.conn.fd bufferSize (.ok []) :: x.trace }
      | .ok (b :: bs) =>
          { x with
            trace := .read x.conn.fd bufferSize (.ok (b :: bs)) :: x.trace
            conn := { x.conn with
              buffer := x.conn.buffer.store (b :: bs)
              used := (b :: bs).length
              sent := 0 }
            pfd := { x.pfd with events := POLLOUT } } := by
  have hguard : x.pfd.revents.pollin = true ∧ x.conn.used = x.conn.sent :=
    ⟨by rw [hflags]; rfl, hdrained⟩
  rw [PollServer.serveSlot_ready hlive (by rw [hflags]; decide) (by rw [hflags]; rfl),
    PollServer.readBranch, if_pos hguard]
  rcases rd with e | bytes
  · by_cases he : e.wouldBlock = true
    · simp only [he, if_true]
    · simp only [he, Bool.false_eq_true, if_false]
  · cases bytes with
    | nil => rfl
    | cons b bs =>
        have hnot : x.pfd.revents.pollout ≠ true := by
          rw [hflags]
          decide
        exact if_neg fun hboth => hnot hboth.1

/-- A slot that is reported for writing only is written. -/
theorem serveSlot_write {x : Slot} (hlive : 0 ≤ x.conn.fd) (hflags : x.pfd.revents = POLLOUT)
    (hmore : x.conn.sent < x.conn.used) (rd : Except Errno (List UInt8))
    (wr : Except Errno Nat) :
    PollServer.serveSlot x rd wr =
      match wr with
      | .error e =>
          if e.wouldBlock then
            { x with trace := .write x.conn.fd x.conn.pending wr :: x.trace }
          else closeConnection { x with trace := .write x.conn.fd x.conn.pending wr :: x.trace }
      | .ok 0 =>
          closeConnection { x with trace := .write x.conn.fd x.conn.pending (.ok 0) :: x.trace }
      | .ok (n + 1) =>
          { x with
            trace := .write x.conn.fd x.conn.pending (.ok (n + 1)) :: x.trace
            conn := if x.conn.sent + (n + 1) = x.conn.used then
                { x.conn with used := 0, sent := 0 }
              else { x.conn with sent := x.conn.sent + (n + 1) }
            pfd := if x.conn.sent + (n + 1) = x.conn.used then
                { x.pfd with events := POLLIN }
              else x.pfd } := by
  have hread : ¬ (x.pfd.revents.pollin = true ∧ x.conn.used = x.conn.sent) := by
    rw [hflags]
    rintro ⟨hpollin, _⟩
    cases hpollin
  have hguard : x.pfd.revents.pollout = true ∧ x.conn.sent < x.conn.used :=
    ⟨by rw [hflags]; rfl, hmore⟩
  rw [PollServer.serveSlot_ready hlive (by rw [hflags]; decide) (by rw [hflags]; rfl),
    PollServer.readBranch, if_neg hread]
  dsimp only
  rw [PollServer.writeBranch, if_pos hguard]
  rcases wr with e | n
  · rfl
  · cases n with
    | zero => rfl
    | succ n =>
        dsimp only
        by_cases hall : x.conn.sent + (n + 1) = x.conn.used
        · simp only [if_pos hall]
        · simp only [if_neg hall]

/-! ## And what the network answers -/

section Answers

variable {isOpen : Conn threads → Bool} {fd : Int} {k : Conn threads}
  {network network' : Network (Conn threads) toServer toClient}

/-- A `read` that is reported does not fail. -/
theorem answerNow_read_error {e : Errno} (hpeer : network.peer fd = some k)
    (hready : 0 < (network.inbound k).length ∨ isOpen k = false) :
    network.answerNow isOpen (.read fd bufferSize (.error e)) ≠ some network' := by
  intro h
  simp only [Network.answerNow] at h
  split at h
  · next hblocks =>
      have hwait := hblocks.2
      simp only [Network.blocks, hpeer, Option.any_some, Bool.and_eq_true, beq_iff_eq] at hwait
      rcases hready with hin | hgone
      · omega
      · rw [hgone] at hwait
        cases hwait.1
  · cases h

/-- Nor does a `write` for which there is room. -/
theorem answerNow_write_error {chunk : List UInt8} {e : Errno}
    (hpeer : network.peer fd = some k) (hroom : (network.outbound k).length < toClient) :
    network.answerNow isOpen (.write fd chunk (.error e)) ≠ some network' := by
  intro h
  simp only [Network.answerNow] at h
  split at h
  · next hblocks =>
      have hfull := hblocks.2
      simp only [Network.blocks, hpeer, Option.any_some, beq_iff_eq] at hfull
      omega
  · cases h

/-- It returns nothing only when the client has gone. -/
theorem answerNow_read_nil (hpeer : network.peer fd = some k)
    (h : network.answerNow isOpen (.read fd bufferSize (.ok [])) = some network') :
    isOpen k = false ∧ (network.inbound k).length = 0 ∧ network' = network := by
  obtain ⟨k', hpeer', hread⟩ := Option.bind_eq_some_iff.mp
    (show (network.peer fd).bind (fun k => network.answerRead isOpen k []) = some network'
      from h)
  rw [hpeer] at hpeer'
  cases hpeer'
  rw [Network.answerRead, if_pos rfl] at hread
  split at hread
  · next hgone =>
      cases hread
      exact ⟨hgone.1, hgone.2, rfl⟩
  · cases hread

theorem answerNow_read_cons {b : UInt8} {bs : List UInt8}
    (hpeer : network.peer fd = some k)
    (h : network.answerNow isOpen (.read fd bufferSize (.ok (b :: bs))) = some network') :
    ∃ inbound, (network.inbound k).pop (b :: bs).length = some (b :: bs, inbound) ∧
      network' = { network with
        inbound := Function.update network.inbound k inbound } := by
  obtain ⟨k', hpeer', hread⟩ := Option.bind_eq_some_iff.mp
    (show (network.peer fd).bind (fun k => network.answerRead isOpen k (b :: bs)) =
      some network' from h)
  rw [hpeer] at hpeer'
  cases hpeer'
  rw [Network.answerRead, if_neg (List.cons_ne_nil b bs)] at hread
  split at hread
  · cases hread
  · next taken inbound hpop =>
      split at hread
      · next htaken =>
          subst htaken
          cases hread
          exact ⟨inbound, hpop, rfl⟩
      · cases hread

variable (isOpen) in
theorem answerNow_write {chunk : List UInt8} {n : Nat} (hpeer : network.peer fd = some k)
    (h : network.answerNow isOpen (.write fd chunk (.ok n)) = some network') :
    0 < n ∧ n ≤ chunk.length ∧ ∃ outbound,
      (network.outbound k).push (chunk.take n) = some outbound ∧
      network' = { network with
        outbound := Function.update network.outbound k outbound } := by
  obtain ⟨k', hpeer', hwrite⟩ := Option.bind_eq_some_iff.mp
    (show (network.peer fd).bind (fun k => network.answerWrite k chunk n) = some network'
      from h)
  rw [hpeer] at hpeer'
  cases hpeer'
  unfold Network.answerWrite at hwrite
  split at hwrite
  · next hguard =>
      obtain ⟨outbound, hpush, rfl⟩ := Option.map_eq_some_iff.mp hwrite
      exact ⟨hguard.1, hguard.2, outbound, hpush, rfl⟩
  · cases hwrite

end Answers

/-! ## The slot is passed -/

/-- A slot that can be read is read, or closed. -/
theorem readable_passed {i : Nat} {k : Conn threads} {rd : Except Errno (List UInt8)}
    {wr : Except Errno Nat} {network : Network (Conn threads) toServer toClient}
    (hlive : 0 ≤ (s.server.conns i).fd)
    (hdrained : (s.server.conns i).used = (s.server.conns i).sent)
    (hflags : (s.server.pfds i).revents = POLLIN)
    (hpeer : s.network.peer (s.server.conns i).fd = some k)
    (hready : 0 < (s.network.inbound k).length ∨ s.clientSide.isOpen k = false)
    (hanswers : s.network.answersNow s.clientSide.isOpen (newCalls s.server.trace
      (PollServer.serveSlot (s.server.slot i) rd wr).trace) = some network) :
    Passed s i rd (PollServer.serveSlot (s.server.slot i) rd wr) network := by
  have hserve := serveSlot_read (x := s.server.slot i) hlive hflags hdrained rd wr
  have hclosing : ∀ trace : Trace, (closeConnection { s.server.slot i with
      trace := trace }).trace = .close (s.server.conns i).fd :: trace := fun trace =>
    if_pos hlive
  rw [hserve] at hanswers ⊢
  rcases rd with e | bytes
  · -- neither of the two branches of an error is answered
    exfalso
    dsimp only at hanswers
    split at hanswers
    · exact answerNow_read_error hpeer hready (answersNow_calls
        [.read (s.server.conns i).fd bufferSize (.error e)] rfl hanswers)
    · obtain ⟨net, hread, _⟩ := Option.bind_eq_some_iff.mp (answersNow_calls
        [.close (s.server.conns i).fd, .read (s.server.conns i).fd bufferSize (.error e)]
        (hclosing _) hanswers)
      exact answerNow_read_error hpeer hready hread
  · cases bytes with
    | nil =>
        obtain ⟨net, hread, hclose⟩ := Option.bind_eq_some_iff.mp (answersNow_calls
          [.close (s.server.conns i).fd, .read (s.server.conns i).fd bufferSize (.ok [])]
          (hclosing _) hanswers)
        obtain ⟨hgone, hempty, rfl⟩ := answerNow_read_nil hpeer hread
        obtain ⟨k', hpeer', rfl⟩ := Option.map_eq_some_iff.mp
          (show (s.network.peer (s.server.conns i).fd).map _ = some network from hclose)
        rw [hpeer] at hpeer'
        cases hpeer'
        exact .eof _ k rfl rfl hlive hpeer hdrained hflags hgone hempty rfl rfl
    | cons b bs =>
        obtain ⟨inbound, hpop, rfl⟩ := answerNow_read_cons hpeer (answersNow_calls
          [.read (s.server.conns i).fd bufferSize (.ok (b :: bs))] rfl hanswers)
        exact .read _ k (b :: bs) inbound rfl rfl hlive hpeer hdrained hflags (Nat.succ_pos _) hpop
          rfl rfl

/-- A slot that can be written is written. -/
theorem writable_passed {i : Nat} {k : Conn threads} {rd : Except Errno (List UInt8)}
    {wr : Except Errno Nat} {network : Network (Conn threads) toServer toClient}
    (hlive : 0 ≤ (s.server.conns i).fd)
    (hmore : (s.server.conns i).sent < (s.server.conns i).used)
    (hcap : (s.server.conns i).used ≤ bufferSize)
    (hflags : (s.server.pfds i).revents = POLLOUT)
    (hpeer : s.network.peer (s.server.conns i).fd = some k)
    (hroom : (s.network.outbound k).length < toClient)
    (hanswers : s.network.answersNow s.clientSide.isOpen (newCalls s.server.trace
      (PollServer.serveSlot (s.server.slot i) rd wr).trace) = some network) :
    Passed s i rd (PollServer.serveSlot (s.server.slot i) rd wr) network := by
  have hserve := serveSlot_write (x := s.server.slot i) hlive hflags hmore rd wr
  have hclosing : ∀ trace : Trace, (closeConnection { s.server.slot i with
      trace := trace }).trace = .close (s.server.conns i).fd :: trace := fun trace =>
    if_pos hlive
  have hpending : (s.server.conns i).pending.length =
      (s.server.conns i).used - (s.server.conns i).sent :=
    Buffer.length_window _ hcap
  rw [hserve] at hanswers ⊢
  rcases wr with e | n
  · exfalso
    dsimp only at hanswers
    split at hanswers
    · exact answerNow_write_error hpeer hroom (answersNow_calls
        [.write (s.server.conns i).fd (s.server.conns i).pending (.error e)] rfl hanswers)
    · obtain ⟨net, hwrite, _⟩ := Option.bind_eq_some_iff.mp (answersNow_calls
        [.close (s.server.conns i).fd,
          .write (s.server.conns i).fd (s.server.conns i).pending (.error e)]
        (hclosing _) hanswers)
      exact answerNow_write_error hpeer hroom hwrite
  · cases n with
    | zero =>
        -- `write` takes something
        obtain ⟨net, hwrite, _⟩ := Option.bind_eq_some_iff.mp (answersNow_calls
          [.close (s.server.conns i).fd,
            .write (s.server.conns i).fd (s.server.conns i).pending (.ok 0)]
          (hclosing _) hanswers)
        exact absurd (answerNow_write s.clientSide.isOpen hpeer hwrite).1 (lt_irrefl 0)
    | succ n =>
        obtain ⟨hpos, hle, outbound, hpush, rfl⟩ := answerNow_write s.clientSide.isOpen hpeer
          (answersNow_calls
            [.write (s.server.conns i).fd (s.server.conns i).pending (.ok (n + 1))] rfl
            hanswers)
        exact .write _ k (n + 1) outbound rfl hlive hpeer hmore hflags hpos (by omega) hpush rfl
          rfl

/-- What is reported of an entry that waits for input. -/
theorem Within.reading {f g : PollFlags} (h : Within f g) (hflagged : f ≠ noFlags)
    (hnone : g.pollout = false) : f = POLLIN ∧ g.pollin = true := by
  have hout : f.pollout = false := by
    rw [Bool.eq_false_iff]
    intro hpollout
    rw [h.pollout hpollout] at hnone
    cases hnone
  have hin : f.pollin = true :=
    (flagged_cases hflagged h.sound).resolve_right (Bool.eq_false_iff.mp hout)
  refine ⟨?_, h.pollin hin⟩
  rw [eq_of_sound h.sound, hin, hout]
  rfl

/-- And of one that waits for room. -/
theorem Within.writing {f g : PollFlags} (h : Within f g) (hflagged : f ≠ noFlags)
    (hnone : g.pollin = false) : f = POLLOUT ∧ g.pollout = true := by
  have hin : f.pollin = false := by
    rw [Bool.eq_false_iff]
    intro hpollin
    rw [h.pollin hpollin] at hnone
    cases hnone
  have hout : f.pollout = true :=
    (flagged_cases hflagged h.sound).resolve_left (Bool.eq_false_iff.mp hin)
  refine ⟨?_, h.pollout hout⟩
  rw [eq_of_sound h.sound, hin, hout]
  rfl

/-- A slot that is reported can be read, or written. -/
theorem Ready.flagged (h : Ready maxClients s)
    (hinv : PollServer.Inv maxClients setup.base s.server) {j : Nat} (hj : 1 ≤ j)
    (hjm : j ≤ maxClients) (hremaining : Remaining s.server.pc j)
    (hlive : 0 ≤ (s.server.conns j).fd) (hflagged : (s.server.pfds j).revents ≠ noFlags) :
    ∃ k, s.network.peer (s.server.conns j).fd = some k ∧
      ((s.server.conns j).used = (s.server.conns j).sent ∧
          (s.server.pfds j).revents = POLLIN ∧
          (0 < (s.network.inbound k).length ∨ s.clientSide.isOpen k = false) ∨
        (s.server.conns j).sent < (s.server.conns j).used ∧
          (s.server.conns j).used ≤ bufferSize ∧ (s.server.pfds j).revents = POLLOUT ∧
          (s.network.outbound k).length < toClient) := by
  have hwithin := h.flags j hj hjm hremaining hlive
  have hslot := hinv.slots j hj hjm
  have hfd : (s.server.pfds j).fd = (s.server.conns j).fd := hslot.fd_eq
  have hne : j ≠ 0 := by omega
  obtain ⟨k, hpeer, _⟩ := exists_peer hne
    ((flagged_cases hflagged hwithin.sound).imp (hwithin.pollin ·) (hwithin.pollout ·))
  rw [hfd] at hpeer
  have hpolled := polled_eq hne hfd hlive hpeer
  refine ⟨k, hpeer, ?_⟩
  rcases hslot.busy hlive with ⟨hevents, hused, hsent⟩ | ⟨hevents, hmore, hcap⟩
  · change (s.server.pfds j).events = POLLIN at hevents
    obtain ⟨hflags, hin⟩ := hwithin.reading hflagged (by rw [hpolled, hevents]; rfl)
    rw [hpolled, hevents] at hin
    refine .inl ⟨hused.trans hsent.symm, hflags, ?_⟩
    simpa [POLLIN] using hin
  · change (s.server.pfds j).events = POLLOUT at hevents
    obtain ⟨hflags, hout⟩ := hwithin.writing hflagged (by rw [hpolled, hevents]; rfl)
    rw [hpolled, hevents] at hout
    refine .inr ⟨hmore, hcap, hflags, ?_⟩
    simpa [POLLOUT] using hout

/-- The scan passes a slot. -/
theorem slot_passed (h : Ready maxClients s)
    (hinv : PollServer.Inv maxClients setup.base s.server) {i : Nat}
    (hpc : s.server.pc = .scan i) {rd : Except Errno (List UInt8)} {wr : Except Errno Nat}
    {network : Network (Conn threads) toServer toClient}
    (hanswers : s.network.answersNow s.clientSide.isOpen (newCalls s.server.trace
      (PollServer.serveSlot (s.server.slot i) rd wr).trace) = some network) :
    Passed s i rd (PollServer.serveSlot (s.server.slot i) rd wr) network := by
  by_cases hskip : (s.server.conns i).fd < 0 ∨ (s.server.pfds i).revents = noFlags
  · have hidle : PollServer.serveSlot (s.server.slot i) rd wr = s.server.slot i :=
      if_pos hskip
    rw [hidle] at hanswers ⊢
    have hnone : some s.network = some network := answersNow_calls [] rfl hanswers
    exact .idle hskip rfl (Option.some.inj hnone).symm
  · obtain ⟨hlive, hflagged⟩ := not_or.mp hskip
    have hnonneg : 0 ≤ (s.server.conns i).fd := by omega
    obtain ⟨hi, him⟩ := hinv.scanning i hpc
    have hremaining : Remaining s.server.pc i := by
      rw [hpc]
      exact le_refl i
    obtain ⟨k, hpeer, ⟨hdrained, hflags, hready⟩ | ⟨hmore, hcap, hflags, hroom⟩⟩ :=
      h.flagged hinv hi him hremaining hnonneg hflagged
    · exact readable_passed hnonneg hdrained hflags hpeer hready hanswers
    · exact writable_passed hnonneg hmore hcap hflags hpeer hroom hanswers

/-! ## What a step of the server can be -/

/-- The server's table after a client is added. -/
def filled (server : PollServer.State) (i : Nat) (fd : Int) : PollServer.State :=
  { server with
    pfds := Function.update server.pfds i
      { fd := fd, events := POLLIN, revents := noFlags }
    conns := Function.update server.conns i { server.conns i with fd := fd, used := 0, sent := 0 }
    trace := .accept fd :: server.trace }

/-- The first client of the backlog gets slot `i`. -/
def State.seat (s : State threads toServer toClient) (i : Nat) (fd : Int)
    (k : Conn threads) (rest : List (Conn threads)) : State threads toServer toClient :=
  { s with
    server := filled s.server i fd
    network := { s.network with
      backlog := rest
      peer := Function.update s.network.peer fd (some k) } }

/-- The scan goes on behind slot `i`. -/
def State.pass (maxClients : Nat) (s : State threads toServer toClient) (i : Nat) (y : Slot)
    (network : Network (Conn threads) toServer toClient) : State threads toServer toClient :=
  { s with
    server := { s.server.setSlot i y with pc := PollServer.scanFrom maxClients (i + 1) }
    network := network }

/-- `poll` returns; a client gets a slot, or is closed because there is none; nobody is
left to be accepted; or a slot is passed. -/
inductive Served (setup : Setup threads) (maxClients : Nat)
    (s t : State threads toServer toClient) : ServerEvent → Prop
  | poll : s.server.pc = .poll → (∃ j ≤ maxClients, s.polled j ≠ noFlags) →
      t = { s with server := PollServer.pollStep maxClients s.server (.ok s.polled) } →
      Served setup maxClients s t .poll
  | accept {fd : Int} (k : Conn threads) (rest : List (Conn threads)) (i : Nat) :
      s.server.pc = .accept → s.network.backlog = k :: rest →
      KernelOk setup.base (.accept fd :: s.server.trace) →
      1 ≤ i → i ≤ maxClients → (s.server.conns i).fd < 0 →
      t = s.seat i fd k rest → Served setup maxClients s t (.accept fd)
  | refuse {fd : Int} (k : Conn threads) (rest : List (Conn threads)) :
      s.server.pc = .accept → s.network.backlog = k :: rest →
      (∀ i, 1 ≤ i → i ≤ maxClients → 0 ≤ (s.server.conns i).fd) →
      t = { s with
        server := { s.server with trace := .close fd :: .accept fd :: s.server.trace }
        network := { s.network with
          backlog := rest
          peer := Function.update (Function.update s.network.peer fd (some k)) fd none
          dropped := Function.update s.network.dropped k true } } →
      Served setup maxClients s t (.accept fd)
  | drained : s.server.pc = .accept → s.network.backlog = [] →
      t = { s with server := { s.server with pc := PollServer.scanFrom maxClients 1 } } →
      Served setup maxClients s t .drained
  | slot {rd : Except Errno (List UInt8)} {wr : Except Errno Nat} (i : Nat) (y : Slot)
      (network : Network (Conn threads) toServer toClient) :
      s.server.pc = .scan i → Passed s i rd y network → KernelOk setup.base y.trace →
      t = s.pass maxClients i y network → Served setup maxClients s t (.slot rd wr)

/-- `accept` with a connection that waits. -/
theorem accept_served {fd : Int} (h : serverStep setup maxClients s (.accept fd) = some t) :
    Served setup maxClients s t (.accept fd) := by
  obtain ⟨server, network, hstep, hkernel, hanswers, rfl⟩ := answered_some h
  obtain ⟨hpc, rfl⟩ := PollServer.step_accept hstep
  have hset : setNonblocking (Transcript.openKeys setup.base (.accept fd :: s.server.trace))
      fd = none := setNonblocking_of_mem (Finset.mem_insert_self fd _)
  simp only [PollServer.acceptStep, hset] at hkernel hanswers ⊢
  cases hfirst : firstFree (fun i => decide ((s.server.conns i).fd < 0)) 1 maxClients with
  | some i =>
      obtain ⟨hi, hilt, hfree⟩ := firstFree_some hfirst
      simp only [PollServer.addConnection, hfirst] at hkernel hanswers ⊢
      have haccept : s.network.answer s.clientSide.isOpen (.accept fd) = some network :=
        answersNow_calls [.accept fd] rfl hanswers
      simp only [Network.answer] at haccept
      split at haccept
      · cases haccept
      · next k rest hbacklog =>
          cases haccept
          exact .accept k rest i hpc hbacklog hkernel hi (by omega) (of_decide_eq_true hfree) rfl
  | none =>
      simp only [PollServer.addConnection, hfirst] at hkernel hanswers ⊢
      obtain ⟨net, haccept, hclose⟩ := Option.bind_eq_some_iff.mp
        (answersNow_calls [.close fd, .accept fd] rfl hanswers)
      have hanswer : s.network.answer s.clientSide.isOpen (.accept fd) = some net := haccept
      simp only [Network.answer] at hanswer
      split at hanswer
      · cases hanswer
      · next k rest hbacklog =>
          cases hanswer
          obtain ⟨k', hpeer, rfl⟩ := Option.map_eq_some_iff.mp hclose
          have hself : Function.update s.network.peer fd (some k) fd = some k' := hpeer
          rw [Function.update_self] at hself
          cases hself
          refine .refuse k rest hpc hbacklog (fun i hi him => ?_) rfl
          have hbusy := firstFree_eq_none.mp hfirst i hi (by omega)
          simpa using hbusy

theorem serverStep_served (hready : Ready maxClients s)
    (hinv : PollServer.Inv maxClients setup.base s.server) {e : ServerEvent}
    (h : serverStep setup maxClients s e = some t) : Served setup maxClients s t e := by
  cases e with
  | poll =>
      simp only [serverStep] at h
      split at h
      · next hany =>
          obtain ⟨server, network, hstep, _, hanswers, rfl⟩ := answered_some h
          obtain ⟨hpc, rfl⟩ := PollServer.step_poll hstep
          have hnone : some s.network = some network := answersNow_calls [] rfl hanswers
          cases hnone
          obtain ⟨j, hj, hflags⟩ := List.any_eq_true.mp hany
          exact .poll hpc ⟨j, Nat.le_of_lt_succ (List.mem_range.mp hj),
            of_decide_eq_true hflags⟩ rfl
      · cases h
  | accept fd => exact accept_served h
  | drained =>
      simp only [serverStep] at h
      split at h
      · next hbacklog =>
          obtain ⟨server, network, hstep, _, hanswers, rfl⟩ := answered_some h
          obtain ⟨hpc, rfl⟩ := PollServer.step_accept hstep
          have hnone : some s.network = some network := answersNow_calls [] rfl hanswers
          cases hnone
          exact .drained hpc hbacklog rfl
      · cases h
  | slot rd wr =>
      obtain ⟨server, network, hstep, hkernel, hanswers, rfl⟩ := answered_some h
      obtain ⟨i, hpc, rfl⟩ := PollServer.step_slot hstep
      exact .slot i _ network hpc (slot_passed hready hinv hpc hanswers) hkernel rfl

end Model

end SysLab.PartB.PollLoad
