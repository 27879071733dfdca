import SysLab.PartB.EpollServerBatch

/-!
# Half-closing clients of the `epoll` server

One client of the server is followed from its `accept` to its `close`: it
sends `input`, closes its sending side and goes on reading.  The rest of the
system, the other clients included, is the unrestricted `epoll` server.

Because the server asks for `EPOLLRDHUP` and closes on it before it looks at
`EPOLLIN` and `EPOLLOUT`, whatever is still in the socket or in the buffer
when that event is handled is lost.  The run is echoed in full exactly when
the event finds both empty.
-/

namespace SysLab.PartB.EpollServer

open SysLab.Foundation
open SysLab.Foundation.Transcript

/-! ## The client's side -/

/-- The server, the bytes of the client that have arrived, and whether its
`FIN` has. -/
structure Tracked where
  server : State
  arrived : List UInt8
  fin : Bool

/-- A segment arrives, the `FIN` arrives, or the server takes a step. -/
inductive TrackedEvent
  | arrive (bytes : List UInt8)
  | finish
  | server (e : Event)

/-- What has arrived on `fd` and was not read yet. -/
def Tracked.unread (fd : Int) (x : Tracked) : List UInt8 :=
  x.arrived.drop (received x.server.trace fd).length

/-- An event the kernel may report on the client's descriptor: no error and no
full hang-up, `EPOLLRDHUP` once the `FIN` is there, `EPOLLIN` and `EPOLLOUT`
as armed, the former only with something to read. -/
def EventOk (fd : Int) (x : Tracked) (ev : Ready) : Prop :=
  ev.events.epollerr = false ∧ ev.events.epollhup = false ∧
    ev.events.epollrdhup = x.fin ∧
    (ev.events.epollin = true →
      (x.server.interest fd).any (fun it => it.events.epollin) = true ∧
        (x.fin = true ∨ x.unread fd ≠ [])) ∧
    (ev.events.epollout = true →
      (x.server.interest fd).any (fun it => it.events.epollout) = true)

/-- What `read` may return on the client's descriptor: a prefix of what is
unread, nothing only at the end of the input, or `EAGAIN`. -/
def ReadOk (fd : Int) (x : Tracked) : Except Errno (List UInt8) → Prop
  | .ok bytes => bytes <+: x.unread fd ∧
      (bytes = [] → x.fin = true ∧ x.unread fd = [])
  | .error e => e.wouldBlock = true

/-- What `write` may return: a byte count or `EAGAIN`. -/
def WriteOk : Except Errno Nat → Prop
  | .ok n => 0 < n
  | .error e => e.wouldBlock = true

instance (fd : Int) (x : Tracked) (ev : Ready) : Decidable (EventOk fd x ev) :=
  inferInstanceAs (Decidable (_ ∧ _))

instance (fd : Int) (x : Tracked) :
    (rd : Except Errno (List UInt8)) → Decidable (ReadOk fd x rd)
  | .ok _ => inferInstanceAs (Decidable (_ ∧ _))
  | .error _ => inferInstanceAs (Decidable (_ = true))

instance : (wr : Except Errno Nat) → Decidable (WriteOk wr)
  | .ok n => inferInstanceAs (Decidable (0 < n))
  | .error _ => inferInstanceAs (Decidable (_ = true))

/-- The slot whose event the loop is about to handle. -/
def Pc.slot : Pc → Option Nat
  | .event i _ _ => some i
  | _ => none

/-- The kernel's answers as far as they are about slot `i` and its descriptor. -/
def AnswerOk (fd : Int) (i : Nat) (x : Tracked) : Event → Prop
  | .wait (.ok batch) => ∀ ev ∈ batch, ev.fd = fd → EventOk fd x ev
  | .conn rd wr => x.server.pc.slot = some i → ReadOk fd x rd ∧ WriteOk wr
  | _ => True

instance (fd : Int) (i : Nat) (x : Tracked) :
    (e : Event) → Decidable (AnswerOk fd i x e)
  | .wait (.ok batch) =>
      inferInstanceAs (Decidable (∀ ev ∈ batch, ev.fd = fd → EventOk fd x ev))
  | .wait (.error _) => isTrue trivial
  | .accept _ _ => isTrue trivial
  | .conn rd wr =>
      inferInstanceAs (Decidable (x.server.pc.slot = some i →
        ReadOk fd x rd ∧ WriteOk wr))

/-- The server has closed the client's connection. -/
def Closed (fd : Int) (i : Nat) (x : Tracked) : Prop :=
  (x.server.conns i).fd ≠ fd

instance (fd : Int) (i : Nat) (x : Tracked) : Decidable (Closed fd i x) :=
  inferInstanceAs (Decidable (_ ≠ _))

section Tracking

variable (maxClients : Nat) (inherited : Finset Int) (listenFd epfd : Int)
  (input : List UInt8) (fd : Int) (i : Nat)

/-- From the `accept` that gives the client descriptor `fd` and slot `i`, up
to the step that closes it. -/
def tracked : System Tracked TrackedEvent where
  init x := ∃ s refused,
    (system maxClients inherited listenFd epfd).Reachable s ∧
      (system maxClients inherited listenFd epfd).next s
        (.accept (.ok fd) refused) x.server ∧
      i < maxClients ∧ (x.server.conns i).fd = fd ∧ x.arrived = [] ∧
      x.fin = false
  next x e y := ¬ Closed fd i x ∧
    match e with
    | .arrive bytes => bytes ≠ [] ∧ x.arrived ++ bytes <+: input ∧
        y = { x with arrived := x.arrived ++ bytes }
    | .finish => x.arrived = input ∧ y = { x with fin := true }
    | .server e => ∃ s,
        (system maxClients inherited listenFd epfd).next x.server e s ∧
          AnswerOk fd i x e ∧ y = { x with server := s }

/-- When the step handles an `EPOLLRDHUP` of the client, its input has been
read to the end and its buffer is empty. -/
def Drained (x : Tracked) (e : TrackedEvent) : Prop :=
  ∀ rd wr ev rest, e = .server (.conn rd wr) →
    x.server.pc = .event i ev rest → ev.events.epollrdhup = true →
    x.unread fd = [] ∧ (x.server.conns i).sent = (x.server.conns i).used

end Tracking

/-! ## One event of the client -/

/-- The write branch reads nothing, and without an error it does not close. -/
theorem WriteOutcome.stays {x : Slot} {revents : EpollFlags}
    {wr : Except Errno Nat} {out : Flow × Slot}
    (h : WriteOutcome x revents wr out) (hwr : WriteOk wr) :
    out.2.conn.fd = x.conn.fd ∧
      ∀ k, received out.2.trace k = received x.trace k := by
  have hcall : ∀ k, received (x.withWrite wr).trace k = received x.trace k :=
    fun k => received_cons_idle rfl rfl
  cases h with
  | skipped _ => exact ⟨rfl, fun k => rfl⟩
  | blocked e _ _ _ _ => exact ⟨rfl, hcall⟩
  | closed _ _ hbad =>
      rcases hbad with rfl | ⟨e, rfl, he⟩
      · exact absurd hwr (Nat.lt_irrefl 0)
      · rw [WriteOk, he] at hwr
        cases hwr
  | drained n _ _ _ _ => exact ⟨rfl, hcall⟩
  | advanced n _ _ _ _ => exact ⟨rfl, hcall⟩

/-- The read branch does not close when it is entered with something to read;
what it reads is what `read` returned. -/
theorem ReadOutcome.stays {x : Slot} {revents : EpollFlags}
    {rd : Except Errno (List UInt8)} {out : Flow × Slot}
    (h : ReadOutcome x revents rd out)
    (hrd : revents.epollin = true → rd ≠ .ok [] ∧
      ∀ e, rd = .error e → e.wouldBlock = true) :
    out.2.conn.fd = x.conn.fd ∧
      (received out.2.trace x.conn.fd = received x.trace x.conn.fd ∨
        ∃ bytes, rd = .ok bytes ∧ received out.2.trace x.conn.fd =
          received x.trace x.conn.fd ++ bytes) := by
  cases h with
  | skipped _ => exact ⟨rfl, .inl rfl⟩
  | blocked e _ _ hrd' _ =>
      subst hrd'
      exact ⟨rfl, .inl (received_cons_idle rfl rfl)⟩
  | closed hin _ hbad =>
      obtain ⟨hnil, herror⟩ := hrd hin
      rcases hbad with heof | ⟨e, he, hnot⟩
      · exact absurd heof hnil
      · rw [herror e he] at hnot
        cases hnot
  | filled bytes _ _ hrd' _ =>
      subst hrd'
      refine ⟨rfl, .inr ⟨bytes, rfl, ?_⟩⟩
      simp [Slot.withRead, Slot.filled, received, Call.key, Call.opens,
        Call.delivered]

/-- Without an error flag, and with something to read where it reads, the
event body leaves the connection open. -/
theorem handleEvent_stays {x : Slot} {it : EpollEvent}
    (hreg : x.interest x.conn.fd = some it) {revents : EpollFlags}
    (hbroken : revents.broken = false) {rd : Except Errno (List UInt8)}
    {wr : Except Errno Nat}
    (hrd : revents.epollin = true → rd ≠ .ok [] ∧
      ∀ e, rd = .error e → e.wouldBlock = true) (hwr : WriteOk wr) :
    (handleEvent x revents rd wr).2.conn.fd = x.conn.fd ∧
      (received (handleEvent x revents rd wr).2.trace x.conn.fd =
          received x.trace x.conn.fd ∨
        ∃ bytes, rd = .ok bytes ∧
          received (handleEvent x revents rd wr).2.trace x.conn.fd =
            received x.trace x.conn.fd ++ bytes) := by
  have houtcome := readBranch_outcome hreg revents rd
  have hstays := houtcome.stays hrd
  unfold handleEvent
  rw [hbroken, if_neg Bool.false_ne_true]
  rcases hread : readBranch x revents rd with ⟨flow, y⟩
  rw [hread] at houtcome hstays
  cases flow with
  | continueBatch => exact hstays
  | exits why => exact hstays
  | fallThrough =>
      obtain ⟨it', hy⟩ := houtcome.registered hreg
      obtain ⟨hfd, hreceived⟩ :=
        (writeBranch_outcome hy revents wr).stays hwr
      rw [hfd, hreceived]
      exact hstays

/-! ## The invariant of a tracked connection -/

/-- A pending event of the client: no error; `EPOLLRDHUP` only after the `FIN`,
and without it `EPOLLIN` only with something to read. -/
def PendingEventOk (fd : Int) (x : Tracked) (ev : Ready) : Prop :=
  ev.events.epollerr = false ∧ ev.events.epollhup = false ∧
    (ev.events.epollrdhup = true → x.fin = true) ∧
    (ev.events.epollrdhup = false → ev.events.epollin = true →
      x.unread fd ≠ [])

/-- What holds of a client while it is connected. -/
structure TrackedInv (maxClients : Nat) (inherited : Finset Int)
    (listenFd epfd : Int) (input : List UInt8) (fd : Int) (i : Nat)
    (x : Tracked) : Prop where
  reachable : (system maxClients inherited listenFd epfd).Reachable x.server
  index : i < maxClients
  descriptor : 0 ≤ fd
  read : received x.server.trace fd <+: x.arrived
  sent : x.arrived <+: input
  finished : x.fin = true → x.arrived = input
  pending : ∀ ev ∈ x.server.pc.pending, ev.fd = fd → PendingEventOk fd x ev

section Steps

variable {maxClients : Nat} {inherited : Finset Int} {listenFd epfd : Int}
  {input : List UInt8} {fd : Int} {i : Nat} {x y : Tracked}

/-- A descriptor just accepted has no event pending. -/
theorem tracked_init_inv
    (h : (tracked maxClients inherited listenFd epfd input fd i).init x) :
    TrackedInv maxClients inherited listenFd epfd input fd i x := by
  obtain ⟨s, refused, hs, hnext, hi, hfd, harrived, hfin⟩ := h
  obtain ⟨hstep, hk, _⟩ := hnext
  have hinv := reachable_inv hs
  obtain ⟨hsub, _⟩ := step_pending hinv (e := .accept (.ok fd) refused)
    trivial hstep hk
  have hfresh : 0 ≤ fd ∧ fd ∉ openKeys (startFds inherited listenFd epfd)
      s.trace ∧ received x.server.trace fd = [] := by
    obtain ⟨_, _, hserver⟩ := step_accept hstep
    rw [hserver] at hk ⊢
    rcases acceptStep_cases hinv.core (.ok fd) refused hk with
      ⟨e, hres, _⟩ | ⟨hres, _⟩ | ⟨e, hres, _⟩ |
      ⟨fd', hres, hpos, hnew, heq⟩ | ⟨fd', j, hres, hpos, hnew, _, _, heq⟩
    · cases hres
    · cases hres
    · cases hres
    · cases hres
      refine ⟨hpos, hnew, ?_⟩
      rw [heq]
      simp [received, Call.key, Call.opens, Call.delivered]
    · cases hres
      refine ⟨hpos, hnew, ?_⟩
      rw [heq]
      simp [received, Call.key, Call.opens]
  obtain ⟨hpos, hnew, hreceived⟩ := hfresh
  refine ⟨hs.step ⟨hstep, hk, trivial⟩, hi, hpos, ?_, ?_, ?_, ?_⟩
  · rw [hreceived]
    exact List.nil_prefix
  · rw [harrived]
    exact List.nil_prefix
  · intro hx
    rw [hfin] at hx
    cases hx
  · intro ev hev hevfd
    have hopen := hinv.pending_open (Finset.mem_insert_self listenFd _)
      (hsub.subset hev)
    rw [hevfd] at hopen
    exact absurd hopen hnew

/-- While connected the client sits in its slot, registered and in order. -/
theorem TrackedInv.open_slot
    (h : TrackedInv maxClients inherited listenFd epfd input fd i x)
    (hopen : ¬ Closed fd i x) :
    (x.server.conns i).fd = fd ∧ 0 ≤ (x.server.conns i).fd ∧
      SlotOk (x.server.slot i) ∧
      fd ∈ openKeys (startFds inherited listenFd epfd) x.server.trace := by
  have hfd : (x.server.conns i).fd = fd := not_not.mp hopen
  have hlive : 0 ≤ (x.server.conns i).fd := by
    rw [hfd]
    exact h.descriptor
  have hinv := reachable_inv h.reachable
  have hclient := hinv.core.mem_clients h.index hlive
  rw [hfd] at hclient
  exact ⟨hfd, hlive, hinv.core.slots i h.index, (mem_clients.mp hclient).1⟩

/-- Everything the connected client has sent is echoed, buffered, or unread. -/
theorem TrackedInv.echoed_eq_iff
    (h : TrackedInv maxClients inherited listenFd epfd input fd i x)
    (hopen : ¬ Closed fd i x) (hfin : x.fin = true) :
    echoed x.server.trace fd = input ↔
      x.unread fd = [] ∧
        (x.server.conns i).sent = (x.server.conns i).used := by
  obtain ⟨hfd, hlive, hslot, _⟩ := h.open_slot hopen
  have hcons : echoed x.server.trace (x.server.conns i).fd ++
      (x.server.conns i).buffer.window (x.server.conns i).sent
        (x.server.conns i).used =
      received x.server.trace (x.server.conns i).fd := hslot.conserved hlive
  have hcursors : (x.server.conns i).sent ≤ (x.server.conns i).used ∧
      (x.server.conns i).used ≤ bufferSize := hslot.cursors hlive
  rw [hfd] at hcons
  have harrived := h.finished hfin
  have hread := h.read
  rw [harrived] at hread
  constructor
  · intro hall
    have hlength := congrArg List.length hcons
    rw [List.length_append, hall, Buffer.length_window _ hcursors.2] at hlength
    have hle := hread.length_le
    constructor
    · rw [Tracked.unread, harrived, List.drop_eq_nil_iff]
      omega
    · omega
  · rintro ⟨hunread, hempty⟩
    rw [hempty, Buffer.window_self, List.append_nil] at hcons
    rw [Tracked.unread, harrived, List.drop_eq_nil_iff] at hunread
    rw [hcons]
    exact hread.eq_of_length_le hunread

/-- A prefix of what is left extends what was taken to a prefix of the whole. -/
theorem append_prefix_of_drop {α : Type*} {taken whole next : List α}
    (htaken : taken <+: whole) (hnext : next <+: whole.drop taken.length) :
    taken ++ next <+: whole := by
  obtain ⟨rest, rfl⟩ := htaken
  rw [List.drop_left] at hnext
  exact (List.prefix_append_right_inj taken).mpr hnext

/-- A step of the network. -/
theorem TrackedInv.arrive
    (h : TrackedInv maxClients inherited listenFd epfd input fd i x)
    {bytes : List UInt8} (hbytes : x.arrived ++ bytes <+: input) (hnew : bytes ≠ []) :
    TrackedInv maxClients inherited listenFd epfd input fd i
      { x with arrived := x.arrived ++ bytes } := by
  refine ⟨h.reachable, h.index, h.descriptor,
    h.read.trans (List.prefix_append _ _), hbytes, ?_, ?_⟩
  · intro hfin
    have hlength := hbytes.length_le
    rw [h.finished hfin, List.length_append] at hlength
    have hpos := List.length_pos_of_ne_nil hnew
    omega
  · intro ev hev hfd
    obtain ⟨herr, hhup, hrdhup, hin⟩ := h.pending ev hev hfd
    refine ⟨herr, hhup, hrdhup, ?_⟩
    intro hno hyes hnil
    apply hin hno hyes
    have hle := h.read.length_le
    rw [Tracked.unread] at hnil ⊢
    rw [List.drop_append_of_le_length hle] at hnil
    exact (List.append_eq_nil_iff.mp hnil).1

/-- A step of the server that neither reads from the client nor hands out an
event for it. -/
theorem TrackedInv.unread_frame
    (h : TrackedInv maxClients inherited listenFd epfd input fd i x)
    (hreach : (system maxClients inherited listenFd epfd).Reachable y.server)
    (harrived : y.arrived = x.arrived) (hfin : y.fin = x.fin)
    (hreceived : received y.server.trace fd = received x.server.trace fd)
    (hpending : ∀ ev ∈ y.server.pc.pending, ev.fd = fd →
      PendingEventOk fd x ev) :
    TrackedInv maxClients inherited listenFd epfd input fd i y := by
  refine ⟨hreach, h.index, h.descriptor, ?_, ?_, ?_, ?_⟩
  · rw [hreceived, harrived]
    exact h.read
  · rw [harrived]
    exact h.sent
  · rw [hfin, harrived]
    exact h.finished
  · intro ev hev hevfd
    have hev' := hpending ev hev hevfd
    unfold PendingEventOk Tracked.unread at hev' ⊢
    rw [hreceived, harrived, hfin]
    exact hev'

/-- What is pending for the client after a step that does not handle one of its
events: `epoll_wait` hands out what the network allows, and any other call
hands out nothing. -/
theorem TrackedInv.pending_step
    (h : TrackedInv maxClients inherited listenFd epfd input fd i x) {e : Event}
    (hnext : (system maxClients inherited listenFd epfd).next x.server e
      y.server) (hans : AnswerOk fd i x e) :
    ∀ ev ∈ y.server.pc.pending, ev.fd = fd → PendingEventOk fd x ev := by
  intro ev hev hevfd
  have hinv := reachable_inv h.reachable
  cases e with
  | accept res refused =>
      obtain ⟨hsub, _⟩ := step_pending hinv (e := .accept res refused)
        trivial hnext.1 hnext.2.1
      exact h.pending ev (hsub.subset hev) hevfd
  | conn rd wr =>
      obtain ⟨hsub, _⟩ := step_pending hinv (e := .conn rd wr) trivial
        hnext.1 hnext.2.1
      exact h.pending ev (hsub.subset hev) hevfd
  | wait res =>
      obtain ⟨_, hserver⟩ := step_wait hnext.1
      rw [hserver] at hev
      rcases res with e | batch
      · simp only [waitStep] at hev
        split at hev
        · exact h.pending ev hev hevfd
        · exact absurd hev List.not_mem_nil
      · obtain ⟨herr, hhup, hrdhup, hin, _⟩ :=
          hans ev ((dispatch_pending batch).subset hev) hevfd
        refine ⟨herr, hhup, fun hyes => hrdhup ▸ hyes, ?_⟩
        intro hno hyes
        rcases (hin hyes).2 with hx | hunread
        · rw [hrdhup, hx] at hno
          cases hno
        · exact hunread

/-- A step of the server that does not handle an event of the client. -/
theorem TrackedInv.other
    (h : TrackedInv maxClients inherited listenFd epfd input fd i x)
    (hopen : ¬ Closed fd i x) {e : Event}
    (hnext : (system maxClients inherited listenFd epfd).next x.server e
      y.server)
    (hans : AnswerOk fd i x e) (harrived : y.arrived = x.arrived)
    (hfin : y.fin = x.fin)
    (hidle : ∀ ev rest, x.server.pc ≠ .event i ev rest) :
    TrackedInv maxClients inherited listenFd epfd input fd i y ∧
      ¬ Closed fd i y := by
  obtain ⟨hfd, hlive, _, hkey⟩ := h.open_slot hopen
  have hinv := reachable_inv h.reachable
  have hmoves := step_moves hinv hnext.1 hnext.2.1
  have hother : ∀ j ev rest, x.server.pc = .event j ev rest → ev.fd ≠ fd := by
    intro j ev rest hpc hev
    obtain ⟨hj, hjfd, hpos⟩ := hinv.event_pointsRight hpc
    have hji : j ≠ i := by
      rintro rfl
      exact hidle ev rest hpc
    apply hinv.core.fd_ne h.index hlive hj (by omega) hji
    rw [hjfd, hev, hfd]
  obtain ⟨hreceived, _⟩ := hmoves.streams_eq hkey hother
  obtain ⟨hconn, _⟩ := hmoves.frame hinv.core h.index hlive hidle
  have hreach : (system maxClients inherited listenFd epfd).Reachable
      y.server := h.reachable.step hnext
  refine ⟨h.unread_frame hreach harrived hfin hreceived
    (h.pending_step hnext hans), ?_⟩
  intro hclosed
  apply hclosed
  rw [hconn]
  exact hfd

/-- Handling an event of the client is `handleEvent` on its slot. -/
theorem TrackedInv.own_step
    (h : TrackedInv maxClients inherited listenFd epfd input fd i x)
    {rd : Except Errno (List UInt8)} {wr : Except Errno Nat}
    (hnext : (system maxClients inherited listenFd epfd).next x.server
      (.conn rd wr) y.server)
    {ev : Ready} {rest : List Ready} (hpc : x.server.pc = .event i ev rest) :
    y.server.conns i = (handleEvent (x.server.slot i) ev.events rd wr).2.conn ∧
      y.server.trace = (handleEvent (x.server.slot i) ev.events rd wr).2.trace ∧
      y.server.pc = dispatch rest := by
  have hserver : eventStep x.server i ev rest rd wr = y.server := by
    obtain ⟨j, ev', rest', hpc', hstep⟩ := step_conn hnext.1
    rw [hpc] at hpc'
    cases hpc'
    exact hstep.symm
  have hk := hnext.2.1
  rw [← hserver] at hk
  obtain ⟨_, hserved, heq⟩ := eventStep_cases (reachable_inv h.reachable) hpc rd
    wr hk
  rw [heq] at hserver
  have hindex := hserved.index_eq
  rw [← hserver]
  refine ⟨?_, rfl, rfl⟩
  show Function.update x.server.conns _ _ i = _
  rw [hindex]
  exact Function.update_self i _ _

/-- An event of the client that is at hand is pending. -/
theorem TrackedInv.own_event
    (h : TrackedInv maxClients inherited listenFd epfd input fd i x)
    (hopen : ¬ Closed fd i x) {ev : Ready} {rest : List Ready}
    (hpc : x.server.pc = .event i ev rest) :
    ev.fd = fd ∧ PendingEventOk fd x ev := by
  obtain ⟨hfd, _, _, _⟩ := h.open_slot hopen
  obtain ⟨_, hevfd, _⟩ := (reachable_inv h.reachable).event_pointsRight hpc
  have hev : ev ∈ x.server.pc.pending := by
    rw [hpc]
    exact List.mem_cons_self
  have hclient : ev.fd = fd := hevfd.symm.trans hfd
  exact ⟨hclient, h.pending ev hev hclient⟩

/-- An event of the client without `EPOLLRDHUP` leaves it connected. -/
theorem TrackedInv.own_stays
    (h : TrackedInv maxClients inherited listenFd epfd input fd i x)
    (hopen : ¬ Closed fd i x) {rd : Except Errno (List UInt8)}
    {wr : Except Errno Nat}
    (hnext : (system maxClients inherited listenFd epfd).next x.server
      (.conn rd wr) y.server)
    (hans : AnswerOk fd i x (.conn rd wr)) (harrived : y.arrived = x.arrived)
    (hfin : y.fin = x.fin) {ev : Ready} {rest : List Ready}
    (hpc : x.server.pc = .event i ev rest) (hno : ev.events.epollrdhup = false) :
    TrackedInv maxClients inherited listenFd epfd input fd i y ∧
      ¬ Closed fd i y := by
  obtain ⟨hfd, hlive, hslot, _⟩ := h.open_slot hopen
  obtain ⟨hevfd, herr, hhup, _, hin⟩ := h.own_event hopen hpc
  obtain ⟨hconn, htrace, hdispatch⟩ := h.own_step hnext hpc
  obtain ⟨hrd, hwr⟩ := hans (by rw [hpc, Pc.slot])
  have hbroken : ev.events.broken = false := by
    simp [EpollFlags.broken, herr, hhup, hno]
  have hread : ev.events.epollin = true → rd ≠ .ok [] ∧
      ∀ e, rd = .error e → e.wouldBlock = true := by
    intro hyes
    constructor
    · rintro rfl
      exact hin hno hyes (hrd.2 rfl).2
    · rintro e rfl
      exact hrd
  obtain ⟨events, hreg⟩ := hslot.registered hlive
  obtain ⟨hstay, hreceived⟩ := handleEvent_stays hreg hbroken hread hwr
  rw [← hconn] at hstay
  rw [← htrace] at hreceived
  have hclient : (x.server.slot i).conn.fd = fd := hfd
  rw [hclient] at hstay hreceived
  refine ⟨⟨h.reachable.step hnext, h.index, h.descriptor, ?_, ?_, ?_, ?_⟩,
    not_not.mpr hstay⟩
  · rw [harrived]
    rcases hreceived with hsame | ⟨bytes, rfl, hmore⟩
    · rw [hsame]
      exact h.read
    · rw [hmore]
      exact append_prefix_of_drop h.read hrd.1
  · rw [harrived]
    exact h.sent
  · rw [hfin, harrived]
    exact h.finished
  · -- no second event of the client is in the batch
    intro ev' hev' hfd'
    rw [hdispatch] at hev'
    have hpending := (reachable_inv h.reachable).pending
    rw [hpc] at hpending
    have hmem := (dispatch_pending rest).subset hev'
    have hnodup := (List.nodup_cons.mp hpending.distinct).1
    exact absurd (List.mem_map.mpr ⟨ev', hmem, hfd'.trans hevfd.symm⟩) hnodup

/-- An event of the client with `EPOLLRDHUP` closes the connection as it is. -/
theorem TrackedInv.own_closes
    (h : TrackedInv maxClients inherited listenFd epfd input fd i x)
    (hopen : ¬ Closed fd i x) {rd : Except Errno (List UInt8)}
    {wr : Except Errno Nat}
    (hnext : (system maxClients inherited listenFd epfd).next x.server
      (.conn rd wr) y.server) {ev : Ready} {rest : List Ready}
    (hpc : x.server.pc = .event i ev rest) (hyes : ev.events.epollrdhup = true) :
    x.fin = true ∧ Closed fd i y ∧
      echoed y.server.trace fd = echoed x.server.trace fd := by
  obtain ⟨_, hlive, _, _⟩ := h.open_slot hopen
  obtain ⟨_, _, _, hrdhup, _⟩ := h.own_event hopen hpc
  obtain ⟨hconn, htrace, _⟩ := h.own_step hnext hpc
  have hbroken : ev.events.broken = true := by
    simp [EpollFlags.broken, hyes]
  have hclose : handleEvent (x.server.slot i) ev.events rd wr =
      (.continueBatch, closeConnection (x.server.slot i)) := by
    simp [handleEvent, hbroken]
  rw [hclose] at hconn htrace
  have hlive' : 0 ≤ (x.server.slot i).conn.fd := hlive
  refine ⟨hrdhup hyes, ?_, ?_⟩
  · show (y.server.conns i).fd ≠ fd
    rw [hconn]
    show (-1 : Int) ≠ fd
    have := h.descriptor
    omega
  · have hcall : y.server.trace =
        .close (x.server.conns i).fd :: x.server.trace := by
      rw [htrace]
      exact if_pos hlive'
    rw [hcall]
    simp [echoed, Call.opens, Call.taken]

/-- One step, summed up: it meets `Drained` unless it closes the connection
with something not echoed; and it keeps the invariant unless it closes. -/
theorem TrackedInv.step {e : TrackedEvent}
    (h : TrackedInv maxClients inherited listenFd epfd input fd i x)
    (hnext : (tracked maxClients inherited listenFd epfd input fd i).next
      x e y) :
    (¬ Closed fd i y →
      TrackedInv maxClients inherited listenFd epfd input fd i y ∧
        Drained fd i x e) ∧
    (Closed fd i y →
      (echoed y.server.trace fd = input ↔ Drained fd i x e)) := by
  obtain ⟨hopen, hnext⟩ := hnext
  cases e with
  | arrive bytes =>
      obtain ⟨hnew, hbytes, rfl⟩ := hnext
      refine ⟨fun _ => ⟨h.arrive hbytes hnew, ?_⟩, fun hy => absurd hy hopen⟩
      intro rd wr ev rest he
      cases he
  | finish =>
      obtain ⟨hall, rfl⟩ := hnext
      refine ⟨fun _ => ⟨⟨h.reachable, h.index, h.descriptor, h.read, h.sent,
        fun _ => hall, ?_⟩, ?_⟩, fun hy => absurd hy hopen⟩
      · intro ev hev hfd
        obtain ⟨herr, hhup, _, hin⟩ := h.pending ev hev hfd
        exact ⟨herr, hhup, fun _ => rfl, hin⟩
      · intro rd wr ev rest he
        cases he
  | server e =>
      obtain ⟨s, hserver, hans, rfl⟩ := hnext
      by_cases hown : ∃ ev rest, x.server.pc = .event i ev rest
      · obtain ⟨ev, rest, hpc⟩ := hown
        cases e with
        | wait res =>
            obtain ⟨hwait, _⟩ := step_wait hserver.1
            rw [hpc] at hwait
            cases hwait
        | accept res refused =>
            obtain ⟨_, haccept, _⟩ := step_accept hserver.1
            rw [hpc] at haccept
            cases haccept
        | conn rd wr =>
            by_cases hrdhup : ev.events.epollrdhup = true
            · obtain ⟨hend, hclosed, hechoed⟩ := h.own_closes
                (y := { x with server := s }) hopen hserver hpc hrdhup
              refine ⟨fun hy => absurd hclosed hy, fun _ => ?_⟩
              rw [hechoed, h.echoed_eq_iff hopen hend]
              constructor
              · intro hboth rd' wr' ev' rest' _ _ _
                exact hboth
              · intro hdrained
                exact hdrained rd wr ev rest rfl hpc hrdhup
            · have hno : ev.events.epollrdhup = false := by simpa using hrdhup
              obtain ⟨hy, hstill⟩ := h.own_stays (y := { x with server := s })
                hopen hserver hans rfl rfl hpc hno
              refine ⟨fun _ => ⟨hy, ?_⟩, fun hclosed => absurd hclosed hstill⟩
              intro rd' wr' ev' rest' _ hpc' hyes
              rw [hpc] at hpc'
              cases hpc'
              exact absurd hyes hrdhup
      · have hidle : ∀ ev rest, x.server.pc ≠ .event i ev rest :=
          fun ev rest hpc => hown ⟨ev, rest, hpc⟩
        obtain ⟨hy, hstill⟩ := h.other (y := { x with server := s })
          hopen hserver hans rfl rfl hidle
        refine ⟨fun _ => ⟨hy, ?_⟩, fun hclosed => absurd hclosed hstill⟩
        intro rd wr ev rest _ hpc
        exact absurd hpc (hidle ev rest)

end Steps

/-! ## Whole runs -/

section Runs

variable {maxClients : Nat} {inherited : Finset Int} {listenFd epfd : Int}
  {input : List UInt8} {fd : Int} {i : Nat} {x y : Tracked}

/-- The run ends with the step that closes. -/
theorem closed_run {es : List TrackedEvent} (hclosed : Closed fd i x)
    (hrun : (tracked maxClients inherited listenFd epfd input fd i).Run x es y) :
    x = y ∧ es = [] := by
  cases hrun with
  | nil => exact ⟨rfl, rfl⟩
  | cons hnext _ => exact absurd hclosed hnext.1

/-- A run whose `EPOLLRDHUP` finds nothing left echoes everything. -/
theorem TrackedInv.run_drained {es : List TrackedEvent}
    (hrun : ((tracked maxClients inherited listenFd epfd input fd i).restrict
      (Drained fd i)).Run x es y)
    (h : TrackedInv maxClients inherited listenFd epfd input fd i x)
    (hopen : ¬ Closed fd i x) (hclosed : Closed fd i y) :
    echoed y.server.trace fd = input := by
  induction hrun with
  | nil x => exact absurd hclosed hopen
  | @cons x u y e es hnext hrest ih =>
      obtain ⟨hstays, hcloses⟩ := h.step hnext.1
      by_cases hu : Closed fd i u
      · have hend : u = y := by
          cases hrest with
          | nil => rfl
          | cons hnext' _ => exact absurd hu hnext'.1.1
        rw [← hend]
        exact (hcloses hu).mpr hnext.2
      · exact ih (hstays hu).1 hu hclosed

/-- A run that echoes everything has an `EPOLLRDHUP` that finds nothing left. -/
theorem TrackedInv.drained_run {es : List TrackedEvent}
    (hrun : (tracked maxClients inherited listenFd epfd input fd i).Run x es y)
    (h : TrackedInv maxClients inherited listenFd epfd input fd i x)
    (hall : Closed fd i y → echoed y.server.trace fd = input) :
    ((tracked maxClients inherited listenFd epfd input fd i).restrict
      (Drained fd i)).Run x es y := by
  induction hrun with
  | nil x => exact .nil x
  | @cons x u y e es hnext hrest ih =>
      obtain ⟨hstays, hcloses⟩ := h.step hnext
      by_cases hu : Closed fd i u
      · obtain ⟨rfl, rfl⟩ := closed_run hu hrest
        exact .cons ⟨hnext, (hcloses hu).mp (hall hu)⟩ (.nil u)
      · obtain ⟨hinv, hdrained⟩ := hstays hu
        exact .cons ⟨hnext, hdrained⟩ (ih hinv hall)

/-- For every client that half-closes, every segmentation of its input, every
schedule of events and partial writes: a connection is closed with all of its
input echoed exactly when the `EPOLLRDHUP` that closed it was handled with
nothing left to read and nothing left to write. -/
theorem echoes_all_iff {es : List TrackedEvent}
    (hinit : (tracked maxClients inherited listenFd epfd input fd i).init x)
    (hrun : (tracked maxClients inherited listenFd epfd input fd i).Run x es y) :
    (Closed fd i y → echoed y.server.trace fd = input) ↔
      ((tracked maxClients inherited listenFd epfd input fd i).restrict
        (Drained fd i)).Run x es y := by
  have hinv := tracked_init_inv hinit
  have hopen : ¬ Closed fd i x := by
    obtain ⟨_, _, _, _, _, hfd, _⟩ := hinit
    exact not_not.mpr hfd
  constructor
  · exact hinv.drained_run hrun
  · intro hdrained hclosed
    exact hinv.run_drained hdrained hopen hclosed

end Runs

/-! ## Two clients of one byte -/

/-- The server has just accepted its only client. -/
def accepted : Tracked where
  server := acceptStep 1 (startFds {0, 1, 2} 3 4)
    (waitStep (initial 3) (.ok [⟨3, EPOLLIN, none⟩])) [] (.ok 5) none
  arrived := []
  fin := false

theorem accepted_init :
    (tracked 1 {0, 1, 2} 3 4 [65] 5 0).init accepted := by
  have h₀ : (system 1 {0, 1, 2} 3 4).Reachable (initial 3) := .start rfl
  have h₁ := h₀.step (e := .wait (.ok [⟨3, EPOLLIN, none⟩]))
    ⟨rfl, by decide, by decide⟩
  exact ⟨_, none, h₁, ⟨rfl, by decide, trivial⟩, by decide, rfl, rfl, rfl⟩

/-- The byte and the `FIN` arrive before the server looks. -/
def hastyEvents : List TrackedEvent :=
  [.arrive [65], .finish, .server (.accept (.error .EAGAIN) none),
    .server (.wait (.ok [⟨5, { epollin := true, epollrdhup := true }, some 0⟩])),
    .server (.conn (.ok [65]) (.ok 1))]

/-- The client waits for its echo before it half-closes. -/
def patientEvents : List TrackedEvent :=
  [.arrive [65], .server (.accept (.error .EAGAIN) none),
    .server (.wait (.ok [⟨5, { epollin := true }, some 0⟩])),
    .server (.conn (.ok [65]) (.ok 1)),
    .server (.wait (.ok [⟨5, { epollout := true }, some 0⟩])),
    .server (.conn (.error .EAGAIN) (.ok 1)), .finish,
    .server (.wait (.ok [⟨5, { epollrdhup := true }, some 0⟩])),
    .server (.conn (.error .EAGAIN) (.ok 1))]

/-- `echoes_all_iff` on the patient client: the byte comes back. -/
theorem echoes_all_patient : ∃ y,
    (tracked 1 {0, 1, 2} 3 4 [65] 5 0).Run accepted patientEvents y ∧
      Closed 5 0 y ∧ ((tracked 1 {0, 1, 2} 3 4 [65] 5 0).restrict
        (Drained 5 0)).Run accepted patientEvents y := by
  have hrun : (tracked 1 {0, 1, 2} 3 4 [65] 5 0).Run accepted patientEvents _ :=
    .cons ⟨by decide, by decide, by decide, rfl⟩
      (.cons ⟨by decide, _, ⟨rfl, by decide, trivial⟩, by decide, rfl⟩
      (.cons ⟨by decide, _, ⟨rfl, by decide, by decide⟩, by decide, rfl⟩
      (.cons ⟨by decide, _, ⟨rfl, by decide, trivial⟩, by decide, rfl⟩
      (.cons ⟨by decide, _, ⟨rfl, by decide, by decide⟩, by decide, rfl⟩
      (.cons ⟨by decide, _, ⟨rfl, by decide, trivial⟩, by decide, rfl⟩
      (.cons ⟨by decide, rfl, rfl⟩
      (.cons ⟨by decide, _, ⟨rfl, by decide, by decide⟩, by decide, rfl⟩
      (.cons ⟨by decide, _, ⟨rfl, by decide, trivial⟩, by decide, rfl⟩
        (.nil _)))))))))
  exact ⟨_, hrun, by decide,
    (echoes_all_iff accepted_init hrun).mp (fun _ => by decide)⟩

/-- The hasty client: its connection is closed and its byte is lost. -/
theorem half_close_loses_input : ∃ y,
    (tracked 1 {0, 1, 2} 3 4 [65] 5 0).init accepted ∧
      (tracked 1 {0, 1, 2} 3 4 [65] 5 0).Run accepted hastyEvents y ∧
      Closed 5 0 y ∧ echoed y.server.trace 5 = [] := by
  have hrun : (tracked 1 {0, 1, 2} 3 4 [65] 5 0).Run accepted hastyEvents _ :=
    .cons ⟨by decide, by decide, by decide, rfl⟩
      (.cons ⟨by decide, rfl, rfl⟩
      (.cons ⟨by decide, _, ⟨rfl, by decide, trivial⟩, by decide, rfl⟩
      (.cons ⟨by decide, _, ⟨rfl, by decide, by decide⟩, by decide, rfl⟩
      (.cons ⟨by decide, _, ⟨rfl, by decide, trivial⟩, by decide, rfl⟩
        (.nil _)))))
  exact ⟨_, accepted_init, hrun, by decide, rfl⟩

end SysLab.PartB.EpollServer
