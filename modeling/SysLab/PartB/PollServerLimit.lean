import SysLab.PartB.PollServerTable
import Mathlib.Order.Interval.Finset.Nat

/-!
# The descriptor limit of the `poll` server

Before it listens, `poll_server` compares `--max-clients` with the soft
`RLIMIT_NOFILE` and may cut it down.  This module transcribes that arithmetic
with its casts, lets the kernel enforce the limit on `accept`, and settles when
the adjustment keeps a full house away from `EMFILE`: exactly when no
adjustment was needed and five descriptors are left over for `0`, `1`, `2`,
the listener and the client about to be refused.
-/

namespace SysLab.PartB.PollServer

open SysLab.Foundation
open SysLab.Foundation.Transcript

/-! ## Start-up -/

/-- Why the program does not reach its event loop: it exits with a message, or
`(int) rlim.rlim_cur - 2` overflows. -/
inductive StartError
  | die (message : String)
  | intOverflow
  deriving DecidableEq, Repr

/-- `INT_MIN`. -/
def intMin : Int := -2 ^ 31

/-- `INT_MAX`. -/
def intMax : Int := 2 ^ 31 - 1

/-- `(int) value` for an `rlim_t`: the low 32 bits read as a signed number. -/
def toInt (value : Nat) : Int :=
  if value % 2 ^ 32 < 2 ^ 31 then (value % 2 ^ 32 : Nat)
  else (value % 2 ^ 32 : Nat) - 2 ^ 32

/-- `(rlim_t) value` for an `int`. -/
def toRlim (value : Int) : Nat := (value % 2 ^ 64).toNat

/-- The adjustment of `max_clients`. -/
def adjustMaxClients (maxClients : Int) (rlimCur : Nat) :
    Except StartError Int :=
  if rlimCur ≤ (toRlim maxClients + 1) % 2 ^ 64 then
    if rlimCur ≤ 2 then
      .error (.die "RLIMIT_NOFILE is too small for poll_server")
    else if toInt rlimCur - 2 < intMin then .error .intOverflow
    else .ok (toInt rlimCur - 2)
  else .ok maxClients

/-- Start-up with descriptors `0`, `1` and `2` open: the listening socket needs
a fourth one.  The result is the `max_clients` of the event loop. -/
def startUp (maxClients : Int) (rlimCur : Nat) : Except StartError Int :=
  match adjustMaxClients maxClients rlimCur with
  | .error e => .error e
  | .ok adjusted =>
      if rlimCur ≤ 3 then .error (.die "socket") else .ok adjusted

/-- The descriptors open when the event loop starts; `3` is `listen_fd`. -/
def startFds : Finset Int := {0, 1, 2, 3}

/-! ## The kernel's side of the limit -/

/-- The descriptors open in a state. -/
def openCount (s : State) : Nat := (openKeys startFds s.trace).card

/-- `accept` hands out a descriptor only below the limit and fails with
`EMFILE` only at it. -/
def WithinLimit (rlimCur : Nat) (s : State) : Event → Prop
  | .accept (.ok _) => openCount s < rlimCur
  | .accept (.error e) => e = .EMFILE → rlimCur ≤ openCount s
  | _ => True

/-- The server under a kernel that enforces `RLIMIT_NOFILE`. -/
def limited (maxClients rlimCur : Nat) : System State Event :=
  (system maxClients startFds 3).restrict (WithinLimit rlimCur)

theorem openCount_eq {maxClients : Nat} {s : State}
    (h : Inv maxClients startFds s) :
    openCount s = 4 + (clients startFds s.trace).card := by
  rw [openCount, h.lawful.card_openKeys]
  rfl

/-- There are never more clients than slots. -/
theorem card_clients_le {maxClients : Nat} {s : State}
    (h : Inv maxClients startFds s) :
    (clients startFds s.trace).card ≤ maxClients := by
  have htable := h.table
  rw [Tabled, ← Finset.coe_Icc] at htable
  exact htable.card_le (by simp)

/-- With room in the table `add_connection` finds a slot. -/
theorem addConnection_isSome {maxClients : Nat} {s : State}
    (h : Inv maxClients startFds s)
    (hroom : (clients startFds s.trace).card < maxClients) (fd : Int) :
    ∃ r, addConnection s.pfds s.conns maxClients fd = some r := by
  unfold addConnection
  split
  · exact ⟨_, rfl⟩
  · rename_i hnone
    have htable := h.table
    rw [Tabled, ← Finset.coe_Icc] at htable
    have hfull : ∀ i ∈ Finset.Icc 1 maxClients, (s.conns i).Live := by
      intro i hi
      obtain ⟨hi, him⟩ := Finset.mem_Icc.mp hi
      have hbusy := firstFree_eq_none.mp hnone i hi (by omega)
      simp only [decide_eq_false_iff_not, not_lt] at hbusy
      exact hbusy
    have hcard := htable.card_of_full hfull
    simp only [Nat.card_Icc, Nat.add_sub_cancel] at hcard
    omega

/-! ## A house filled up to the limit -/

/-- While there is room below the limit and in the table, `k` clients can have
been accepted by one pass of the accept loop. -/
theorem fill_reachable (maxClients rlimCur k : Nat) (hk : k ≤ maxClients)
    (hlim : 4 + k ≤ rlimCur) :
    ∃ s, (limited maxClients rlimCur).Reachable s ∧ s.pc = .accept ∧
      openCount s = 4 + k := by
  induction k with
  | zero =>
      have h₀ : (limited maxClients rlimCur).Reachable (initial 3) := .start rfl
      have hnext : (limited maxClients rlimCur).next (initial 3)
          (.poll (.ok fun _ => POLLIN))
          (pollStep maxClients (initial 3) (.ok fun _ => POLLIN)) :=
        ⟨⟨rfl, trivial⟩, trivial⟩
      exact ⟨_, h₀.step hnext, rfl, rfl⟩
  | succ k ih =>
      obtain ⟨s, hs, hpc, hcount⟩ := ih (by omega) (by omega)
      have hinv := reachable_inv hs.of_restrict
      have hclients := openCount_eq hinv
      obtain ⟨fd, hnew⟩ := exists_fd (openKeys startFds s.trace)
      obtain ⟨⟨pfds, conns⟩, hadd⟩ := addConnection_isSome hinv (by omega) fd
      have hset : setNonblocking
          (openKeys startFds (.accept fd :: s.trace)) fd = none :=
        setNonblocking_of_mem (Finset.mem_insert_self (fd : Int) _)
      have hstep : step maxClients startFds s (.accept (.ok fd)) = some
          { s with
            pfds := pfds, conns := conns, trace := .accept fd :: s.trace } := by
        simp [step, hpc, acceptStep, hset, hadd]
      have hkernel : KernelOk startFds (.accept fd :: s.trace) :=
        ⟨⟨Int.natCast_nonneg fd, hnew⟩, reachable_kernelOk hs.of_restrict⟩
      have hroom : openCount s < rlimCur := by omega
      refine ⟨_, hs.step ⟨⟨hstep, hkernel⟩, hroom⟩, hpc, ?_⟩
      show (insert (fd : Int) (openKeys startFds s.trace)).card = 4 + (k + 1)
      rw [Finset.card_insert_of_notMem hnew]
      rw [openCount] at hcount
      omega

/-- With fewer descriptors than a full house needs, some arrivals end the
server in `die_errno("accept")`. -/
theorem emfile_reachable (maxClients rlimCur : Nat) (hstart : 4 ≤ rlimCur)
    (hshort : rlimCur ≤ maxClients + 4) :
    ∃ s, (limited maxClients rlimCur).Reachable s ∧
      s.pc = .exited ⟨"accept", .EMFILE⟩ := by
  obtain ⟨s, hs, hpc, hcount⟩ := fill_reachable maxClients rlimCur
    (rlimCur - 4) (by omega) (by omega)
  have hstep : step maxClients startFds s (.accept (.error .EMFILE)) =
      some { s with pc := .exited ⟨"accept", .EMFILE⟩ } := by
    simp [step, hpc, acceptStep, Errno.wouldBlock]
  have hkernel : KernelOk startFds s.trace :=
    reachable_kernelOk hs.of_restrict
  have hfull : rlimCur ≤ openCount s := by omega
  exact ⟨_, hs.step ⟨⟨hstep, hkernel⟩, fun _ => hfull⟩, rfl⟩

/-- With room for a full house and one more, `accept` never meets the limit. -/
theorem no_emfile {maxClients rlimCur : Nat} (hroom : maxClients + 5 ≤ rlimCur)
    {s : State} (hs : (limited maxClients rlimCur).Reachable s) :
    s.pc ≠ .exited ⟨"accept", .EMFILE⟩ := by
  refine System.Reachable.induct
    (I := fun s => s.pc ≠ .exited ⟨"accept", .EMFILE⟩) ?_ ?_ hs
  · rintro s rfl hpc
    cases hpc
  · rintro s e t hs hpc ⟨⟨hstep, _⟩, hlimit⟩ hdead
    have hinv := reachable_inv hs.of_restrict
    have hcount := openCount_eq hinv
    have hcard := card_clients_le hinv
    rcases exited_cases hstep hpc hdead with
      ⟨errno, rfl, _, hwhy⟩ | ⟨errno, rfl, _, _, hwhy⟩
    · simp at hwhy
    · have herrno : errno = .EMFILE := by simpa using hwhy.symm
      have hfull : rlimCur ≤ openCount s := hlimit herrno
      omega

/-! ## When the adjustment suffices -/

/-- What the adjustment is for: the loop runs with at least one slot, no `int`
overflows on the way, and no arrival order brings the open descriptors, the
one about to be refused included, above the limit or `accept` to `EMFILE`. -/
def LimitSuffices (maxClients : Int) (rlimCur : Nat) : Prop :=
  ∃ adjusted, startUp maxClients rlimCur = .ok adjusted ∧ 1 ≤ adjusted ∧
    ∀ s, (limited adjusted.toNat rlimCur).Reachable s →
      openCount s ≤ rlimCur ∧
      (s.pc = .accept → openCount s + 1 ≤ rlimCur) ∧
      s.pc ≠ .exited ⟨"accept", .EMFILE⟩

theorem toRlim_of_nonneg {value : Int} (h : 0 ≤ value)
    (hmax : value ≤ intMax) : (toRlim value + 1) % 2 ^ 64 = value.toNat + 1 := by
  unfold intMax at hmax
  have hmod : value % 2 ^ 64 = value := Int.emod_eq_of_lt h (by omega)
  rw [toRlim, hmod]
  omega

/-- When start-up succeeds the loop's `max_clients` reaches to within four
descriptors of the limit, or is the requested one. -/
theorem startUp_ok {maxClients adjusted : Int} {rlimCur : Nat}
    (hmin : 1 ≤ maxClients) (hmax : maxClients ≤ intMax)
    (h : startUp maxClients rlimCur = .ok adjusted) :
    4 ≤ rlimCur ∧ 1 ≤ adjusted ∧
      ((maxClients + 1 < rlimCur ∧ adjusted = maxClients) ∨
        (rlimCur ≤ maxClients + 1 ∧ adjusted = rlimCur - 2)) := by
  have hcast := toRlim_of_nonneg (by omega : 0 ≤ maxClients) hmax
  unfold intMax at hmax
  unfold startUp adjustMaxClients at h
  rw [hcast] at h
  by_cases hcut : rlimCur ≤ maxClients.toNat + 1
  · rw [if_pos hcut] at h
    by_cases htwo : rlimCur ≤ 2
    · rw [if_pos htwo] at h
      cases h
    rw [if_neg htwo] at h
    by_cases hover : toInt rlimCur - 2 < intMin
    · rw [if_pos hover] at h
      cases h
    rw [if_neg hover] at h
    by_cases hthree : rlimCur ≤ 3
    · simp only [hthree, if_true] at h
      cases h
    simp only [hthree, if_false, Except.ok.injEq] at h
    unfold toInt intMin at hover
    unfold toInt at h
    split at h
    · omega
    · omega
  · rw [if_neg hcut] at h
    by_cases hthree : rlimCur ≤ 3
    · simp only [hthree, if_true] at h
      cases h
    simp only [hthree, if_false, Except.ok.injEq] at h
    omega

theorem startUp_of_room {maxClients : Int} {rlimCur : Nat}
    (hmin : 1 ≤ maxClients) (hmax : maxClients ≤ intMax)
    (hroom : maxClients + 5 ≤ rlimCur) :
    startUp maxClients rlimCur = .ok maxClients := by
  have hcast := toRlim_of_nonneg (by omega : 0 ≤ maxClients) hmax
  have hcut : ¬ rlimCur ≤ maxClients.toNat + 1 := by omega
  have hthree : ¬ rlimCur ≤ 3 := by omega
  unfold startUp adjustMaxClients
  rw [hcast, if_neg hcut]
  exact if_neg hthree

/-- For every requested `max_clients` and every soft limit, the limit suffices
exactly when five descriptors are left over; the adjustment, where it is made,
never leaves that many.  (A limit with which start-up fails suffices for
nothing, and is below the bound.) -/
theorem limitSuffices_iff (maxClients : Int) (rlimCur : Nat)
    (hmin : 1 ≤ maxClients) (hmax : maxClients ≤ intMax) :
    LimitSuffices maxClients rlimCur ↔ maxClients + 5 ≤ rlimCur := by
  constructor
  · rintro ⟨adjusted, hok, _, hsafe⟩
    obtain ⟨hfour, hone, hshape⟩ := startUp_ok hmin hmax hok
    by_contra hshort
    have hfill : rlimCur ≤ adjusted.toNat + 4 := by omega
    obtain ⟨s, hs, hdead⟩ := emfile_reachable _ _ hfour hfill
    exact (hsafe s hs).2.2 hdead
  · intro hroom
    refine ⟨maxClients, startUp_of_room hmin hmax hroom, hmin, ?_⟩
    intro s hs
    have hinv := reachable_inv hs.of_restrict
    have hcount := openCount_eq hinv
    have hcard := card_clients_le hinv
    have hbound : openCount s + 1 ≤ rlimCur := by omega
    exact ⟨by omega, fun _ => hbound, no_emfile (by omega) hs⟩

/-- The default `max_clients` under a limit of 65536. -/
theorem limitSuffices_65536 : LimitSuffices 1024 65536 :=
  (limitSuffices_iff 1024 65536 (by decide) (by decide)).mpr (by decide)

/-- The default `max_clients` under the usual soft limit of 1024 is adjusted to
1022, and 1020 clients are enough to end the server. -/
theorem limit_1024_insufficient :
    startUp 1024 1024 = .ok 1022 ∧ ¬ LimitSuffices 1024 1024 := by
  have hstart : startUp 1024 1024 = .ok 1022 := by rfl
  refine ⟨hstart, ?_⟩
  rintro ⟨adjusted, hok, _, hsafe⟩
  have hadjusted : adjusted = 1022 := by
    rw [hstart] at hok
    exact (Except.ok.inj hok).symm
  subst hadjusted
  obtain ⟨s, hs, hdead⟩ := emfile_reachable 1022 1024 (by decide) (by decide)
  exact (hsafe s hs).2.2 hdead

end SysLab.PartB.PollServer
