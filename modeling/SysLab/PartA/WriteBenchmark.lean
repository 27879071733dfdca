import Mathlib.Data.List.Basic
import SysLab.Foundation.Loop
import SysLab.PartB.Syscall

/-!
# The write benchmark of `parta_bench`

`benchmark_write_syscall` of `main.c`: the temporary file is opened, filled to
`total_bytes` chunk by chunk, closed and unlinked, each way out of the function doing
its own cleaning up, but for the timer's.  The numbers of the timer are left out.

`size_t` and `uint64_t` are both `UInt64`.  The sizes that `main` passes are
positive; nothing below depends on it.
-/

namespace SysLab.PartA

open SysLab.Foundation
open SysLab.PartB (Errno Exit)

/-- What the two calls of `timer_start`, or of `timer_end`, return. -/
structure TimerEnv where
  clockGettime : Option Errno
  getrusage : Option Errno

/-- How `timer_start` and `timer_end` end the process, if they do. -/
def TimerEnv.exit (env : TimerEnv) : Option Exit :=
  match env.clockGettime with
  | some e => some ⟨"clock_gettime", e⟩
  | none => env.getrusage.map (Exit.mk "getrusage")

/-- A call on the temporary file, with what it returned. -/
inductive FileCall
  | open (path : String) (useOsync : Bool)
  | write (asked : UInt64) (res : Except Errno Nat)
  | close (res : Option Errno)
  | unlink (path : String) (res : Option Errno)

/-- The function returns, or ends the process. -/
inductive Outcome
  | returned (writtenTotal : UInt64)
  | dieErrno (why : Exit)
  | dieUsage (message : String)

/-- What allocator and kernel answer; the `k`-th `write` fails, or takes as much
as it is told to and is there. -/
structure WriteEnv where
  malloc : Bool
  openRes : Option Errno
  timerStart : TimerEnv
  write : Nat → Except Errno Nat
  close : Option Errno
  timerEnd : TimerEnv
  unlink : Option Errno

/-- `errno` after the cleaning up. -/
def WriteEnv.errno (env : WriteEnv) (e : Errno) : Errno :=
  (env.unlink.or env.close).getD e

/-- `template_path`. -/
def templatePath (dirPath : String) (chunkSize : UInt64) (useOsync : Bool) : String :=
  dirPath ++ "/parta_write_" ++ (if useOsync then "osync" else "nosync") ++ "_" ++
    toString chunkSize ++ ".tmp"

/-- `buffer`, filled in. -/
def writeBuffer (chunkSize : UInt64) : List UInt8 :=
  (List.range chunkSize.toNat).map fun i => UInt8.ofNat (i &&& 0xff)

/-- How the function ended: the bytes the file received and the calls made,
newest first. -/
structure Ended where
  file : List UInt8
  calls : List FileCall
  outcome : Outcome

/-- The variables of the loop, the bytes the file received, the calls made,
newest first, and how many of them were `write`. -/
structure WriteSyscall where
  writtenTotal : UInt64
  file : List UInt8
  calls : List FileCall
  writes : Nat

namespace WriteSyscall

/-- `remaining`. -/
def remaining (totalBytes : UInt64) (s : WriteSyscall) : UInt64 :=
  totalBytes - s.writtenTotal

/-- `this_chunk`. -/
def thisChunk (chunkSize totalBytes : UInt64) (s : WriteSyscall) : UInt64 :=
  if s.remaining totalBytes < chunkSize then s.remaining totalBytes else chunkSize

/-- A `write` of `asked` bytes has returned `rv`. -/
def wrote (chunkSize asked : UInt64) (rv : Nat) (s : WriteSyscall) : WriteSyscall where
  writtenTotal := s.writtenTotal + UInt64.ofNat rv
  file := s.file ++ (writeBuffer chunkSize).take rv
  calls := .write asked (.ok rv) :: s.calls
  writes := s.writes + 1

/-- A `write` of `asked` bytes has failed. -/
def refused (asked : UInt64) (e : Errno) (s : WriteSyscall) : WriteSyscall :=
  { s with calls := .write asked (.error e) :: s.calls, writes := s.writes + 1 }

/-- `close(fd)` and `unlink(template_path)`. -/
def cleanUp (env : WriteEnv) (path : String) (outcome : Outcome) (s : WriteSyscall) :
    Ended where
  file := s.file
  calls := .unlink path env.unlink :: .close env.close :: s.calls
  outcome := outcome

/-- Past the loop.  If `timer_end` fails, the file is closed and still there. -/
def finish (env : WriteEnv) (path : String) (s : WriteSyscall) : Ended :=
  match env.close with
  | some e => s.cleanUp env path (.dieErrno ⟨"close", env.unlink.getD e⟩)
  | none =>
      match env.timerEnd.exit with
      | some why => ⟨s.file, .close none :: s.calls, .dieErrno why⟩
      | none =>
          match env.unlink with
          | some e => s.cleanUp env path (.dieErrno ⟨"unlink", e⟩)
          | none => s.cleanUp env path (.returned s.writtenTotal)

/-- One pass of the `while` loop. -/
def pass (env : WriteEnv) (path : String) (chunkSize totalBytes : UInt64)
    (s : WriteSyscall) : Progress WriteSyscall Ended :=
  if s.writtenTotal < totalBytes then
    let asked := s.thisChunk chunkSize totalBytes
    match env.write s.writes with
    | .error e =>
        if e = .EINTR then .again (s.refused asked e)
        else .done ((s.refused asked e).cleanUp env path (.dieErrno ⟨"write", env.errno e⟩))
    | .ok n =>
        let rv := min n asked.toNat
        if rv = 0 then
          .done ((s.wrote chunkSize asked rv).cleanUp env path
            (.dieUsage "write() returned 0 unexpectedly"))
        else .again (s.wrote chunkSize asked rv)
  else .done (s.finish env path)

end WriteSyscall

/-- The file has been opened. -/
def openedFile (path : String) (useOsync : Bool) : WriteSyscall where
  writtenTotal := 0
  file := []
  calls := [.open path useOsync]
  writes := 0

/-- `benchmark_write_syscall`, at most `n` passes of its loop. -/
def benchmarkWriteSyscall (env : WriteEnv) (dirPath : String) (chunkSize totalBytes : UInt64)
    (useOsync : Bool) (n : Nat) : Progress WriteSyscall Ended :=
  let path := templatePath dirPath chunkSize useOsync
  if env.malloc = false then .done ⟨[], [], .dieErrno ⟨"malloc", .ENOMEM⟩⟩
  else if 4096 ≤ path.utf8ByteSize then .done ⟨[], [], .dieUsage "write path is too long"⟩
  else
    match env.openRes with
    | some e => .done ⟨[], [], .dieErrno ⟨"open", e⟩⟩
    | none =>
        match env.timerStart.exit with
        | some why => .done ⟨[], [.open path useOsync], .dieErrno why⟩
        | none =>
            Loop.run (WriteSyscall.pass env path chunkSize totalBytes) n
              (openedFile path useOsync)

/-! ## What holds of the calls -/

/-- Bytes a call hands to the file. -/
def FileCall.written : FileCall → Nat
  | .write _ (.ok n) => n
  | _ => 0

/-- Bytes that all of them hand over. -/
def bytesWritten : List FileCall → Nat
  | [] => 0
  | call :: calls => call.written + bytesWritten calls

/-- A `write` asks for no more than a chunk and than what is missing. -/
def FileCall.Bounded (chunkSize totalBytes : UInt64) (earlier : List FileCall) :
    FileCall → Prop
  | .write asked _ =>
      asked.toNat ≤ min chunkSize.toNat (totalBytes.toNat - bytesWritten earlier)
  | _ => True

/-- The file has been opened, and nothing has been done since but write to it. -/
inductive Writes (chunkSize totalBytes : UInt64) (path : String) (useOsync : Bool) :
    List FileCall → Prop
  | opened : Writes chunkSize totalBytes path useOsync [.open path useOsync]
  | write {asked : UInt64} {res : Except Errno Nat} {calls : List FileCall} :
      Writes chunkSize totalBytes path useOsync calls →
      (FileCall.write asked res).Bounded chunkSize totalBytes calls →
      Writes chunkSize totalBytes path useOsync (.write asked res :: calls)

namespace WriteSyscall

variable {env : WriteEnv} {path : String} {useOsync : Bool} {chunkSize totalBytes : UInt64}
  {s t : WriteSyscall}

/-- `written_total` counts what the file has received, and is not past
`total_bytes`. -/
structure Inv (chunkSize totalBytes : UInt64) (path : String) (useOsync : Bool)
    (s : WriteSyscall) : Prop where
  total : s.writtenTotal.toNat = s.file.length
  counted : bytesWritten s.calls = s.file.length
  total_le : s.writtenTotal ≤ totalBytes
  calls : Writes chunkSize totalBytes path useOsync s.calls

/-- `remaining` does not underflow. -/
theorem Inv.remaining (h : Inv chunkSize totalBytes path useOsync s) :
    (s.remaining totalBytes).toNat = totalBytes.toNat - s.file.length := by
  rw [WriteSyscall.remaining, UInt64.toNat_sub_of_le _ _ h.total_le, h.total]

theorem toNat_thisChunk (s : WriteSyscall) :
    (s.thisChunk chunkSize totalBytes).toNat =
      min chunkSize.toNat (s.remaining totalBytes).toNat := by
  rw [thisChunk]
  split
  · next hlt =>
      rw [UInt64.lt_iff_toNat_lt] at hlt
      omega
  · next hge =>
      rw [UInt64.lt_iff_toNat_lt] at hge
      omega

theorem Inv.bounded (h : Inv chunkSize totalBytes path useOsync s)
    (res : Except Errno Nat) :
    (FileCall.write (s.thisChunk chunkSize totalBytes) res).Bounded chunkSize totalBytes
      s.calls := by
  show (s.thisChunk chunkSize totalBytes).toNat ≤ _
  rw [toNat_thisChunk, h.remaining, h.counted]

theorem Inv.refused (h : Inv chunkSize totalBytes path useOsync s) (e : Errno) :
    Inv chunkSize totalBytes path useOsync
      (s.refused (s.thisChunk chunkSize totalBytes) e) :=
  ⟨h.total, (Nat.zero_add _).trans h.counted, h.total_le, h.calls.write (h.bounded _)⟩

theorem Inv.wrote (h : Inv chunkSize totalBytes path useOsync s) {rv : Nat}
    (hrv : rv ≤ (s.thisChunk chunkSize totalBytes).toNat) :
    Inv chunkSize totalBytes path useOsync
      (s.wrote chunkSize (s.thisChunk chunkSize totalBytes) rv) := by
  have hremaining := h.remaining
  have htotal_le := UInt64.le_iff_toNat_le.mp h.total_le
  have htotal := h.total
  have hlt := totalBytes.toNat_lt
  rw [toNat_thisChunk] at hrv
  have hlength : (s.file ++ (writeBuffer chunkSize).take rv).length =
      s.file.length + rv := by
    rw [List.length_append, List.length_take, writeBuffer, List.length_map,
      List.length_range]
    omega
  have hsum : (s.writtenTotal + UInt64.ofNat rv).toNat = s.file.length + rv := by
    rw [UInt64.toNat_add, UInt64.toNat_ofNat', Nat.mod_eq_of_lt (a := rv) (by omega), htotal,
      Nat.mod_eq_of_lt (by omega)]
  refine ⟨hsum.trans hlength.symm, ?_, ?_, h.calls.write (h.bounded _)⟩
  · show rv + bytesWritten s.calls = (s.file ++ (writeBuffer chunkSize).take rv).length
    rw [hlength, h.counted, Nat.add_comm]
  · show s.writtenTotal + UInt64.ofNat rv ≤ totalBytes
    rw [UInt64.le_iff_toNat_le, hsum]
    omega

/-- A pass that goes round again keeps the invariant. -/
theorem Inv.again (h : Inv chunkSize totalBytes path useOsync s)
    (hpass : s.pass env path chunkSize totalBytes = .again t) :
    Inv chunkSize totalBytes path useOsync t := by
  unfold pass at hpass
  split at hpass
  · dsimp only at hpass
    split at hpass
    · split at hpass
      · cases hpass
        exact h.refused _
      · cases hpass
    · split at hpass
      · cases hpass
      · cases hpass
        exact h.wrote (Nat.min_le_right _ _)
  · cases hpass

variable (env) in
/-- The file is closed after all writing and then unlinked, unless the timer has failed;
and if the function returns, the file has received all it should. -/
structure Cleaned (chunkSize totalBytes : UInt64) (path : String) (useOsync : Bool)
    (f : Ended) : Prop where
  calls : ∃ calls, Writes chunkSize totalBytes path useOsync calls ∧
    (f.calls = .unlink path env.unlink :: .close env.close :: calls ∨
      env.timerEnd.exit ≠ none ∧ f.calls = .close none :: calls)
  counted : bytesWritten f.calls = f.file.length
  returned : ∀ total, f.outcome = .returned total →
    f.file.length = totalBytes.toNat ∧ total = totalBytes ∧ env.unlink = none ∧
      f.calls.head? = some (.unlink path none)

theorem bytesWritten_cleanUp (env : WriteEnv) (path : String) (outcome : Outcome)
    (s : WriteSyscall) :
    bytesWritten (s.cleanUp env path outcome).calls = bytesWritten s.calls := by
  show 0 + (0 + bytesWritten s.calls) = _
  omega

/-- On every way out but the return. -/
theorem Inv.died (h : Inv chunkSize totalBytes path useOsync s) {outcome : Outcome}
    (houtcome : ∀ total, outcome ≠ .returned total) :
    Cleaned env chunkSize totalBytes path useOsync (s.cleanUp env path outcome) where
  calls := ⟨s.calls, h.calls, .inl rfl⟩
  counted := (bytesWritten_cleanUp env path outcome s).trans h.counted
  returned total heq := absurd heq (houtcome total)

theorem Inv.finish (h : Inv chunkSize totalBytes path useOsync s)
    (hdone : ¬ s.writtenTotal < totalBytes) :
    Cleaned env chunkSize totalBytes path useOsync (s.finish env path) := by
  have hall : s.writtenTotal = totalBytes :=
    UInt64.le_antisymm h.total_le (UInt64.not_lt.mp hdone)
  unfold WriteSyscall.finish
  split
  · exact h.died fun _ heq => by cases heq
  · split
    · next why hwhy =>
        have hfails : env.timerEnd.exit ≠ none := by
          rw [hwhy]
          exact Option.some_ne_none why
        exact ⟨⟨s.calls, h.calls, .inr ⟨hfails, rfl⟩⟩, (Nat.zero_add _).trans h.counted,
          fun _ heq => by cases heq⟩
    · split
      · exact h.died fun _ heq => by cases heq
      · next hunlink =>
          refine ⟨⟨s.calls, h.calls, .inl rfl⟩,
            (bytesWritten_cleanUp env path _ s).trans h.counted, ?_⟩
          intro total heq
          cases heq
          refine ⟨hall ▸ h.total.symm, hall, hunlink, ?_⟩
          show some (FileCall.unlink path env.unlink) = _
          rw [hunlink]

/-- The last pass leaves nothing behind that it can help. -/
theorem Inv.done (h : Inv chunkSize totalBytes path useOsync s) {f : Ended}
    (hpass : s.pass env path chunkSize totalBytes = .done f) :
    Cleaned env chunkSize totalBytes path useOsync f := by
  unfold pass at hpass
  split at hpass
  · dsimp only at hpass
    split at hpass
    · split at hpass
      · cases hpass
      · cases hpass
        exact (h.refused _).died fun _ heq => by cases heq
    · split at hpass
      · cases hpass
        exact (h.wrote (Nat.min_le_right _ _)).died fun _ heq => by cases heq
      · cases hpass
  · next hdone =>
      cases hpass
      exact h.finish hdone

theorem openedFile_inv (chunkSize totalBytes : UInt64) (path : String) (useOsync : Bool) :
    Inv chunkSize totalBytes path useOsync (openedFile path useOsync) :=
  ⟨rfl, rfl, UInt64.zero_le, .opened⟩

end WriteSyscall

/-- The function comes to open the file at `path`, and it is opened. -/
def WriteEnv.Opens (env : WriteEnv) (path : String) : Prop :=
  env.malloc = true ∧ path.utf8ByteSize < 4096 ∧ env.openRes = none

/-- The timer does not fail. -/
def WriteEnv.Timed (env : WriteEnv) : Prop :=
  env.timerStart.exit = none ∧ env.timerEnd.exit = none

/-- `benchmark_write_syscall` is exact and cleans up.  At every moment
`written_total` is the length of the file and not past `total_bytes`, so that
`remaining` does not underflow, and each `write` so far asked for no more than a
chunk and what was missing.  However the function ends, the file has received what the
`write`s took; if it returns, that is `total_bytes`, the number returned.  It makes no
call on a file it could not open, and then does not return; a file that it has opened it
closes once and unlinks, after all writing, if the timer does not fail. -/
theorem writeSyscall_exact (env : WriteEnv) (dirPath : String)
    (chunkSize totalBytes : UInt64) (useOsync : Bool) (n : Nat) :
    let path := templatePath dirPath chunkSize useOsync
    (∀ s, benchmarkWriteSyscall env dirPath chunkSize totalBytes useOsync n = .again s →
      s.writtenTotal ≤ totalBytes ∧ s.writtenTotal.toNat = s.file.length ∧
      (s.remaining totalBytes).toNat = totalBytes.toNat - s.file.length ∧
      Writes chunkSize totalBytes path useOsync s.calls) ∧
    ∀ f, benchmarkWriteSyscall env dirPath chunkSize totalBytes useOsync n = .done f →
      bytesWritten f.calls = f.file.length ∧
      (∀ total, f.outcome = .returned total →
        f.file.length = totalBytes.toNat ∧ total = totalBytes) ∧
      (¬ env.Opens path → f.calls = [] ∧ ∀ total, f.outcome ≠ .returned total) ∧
      (env.Opens path → env.Timed → ∃ calls, Writes chunkSize totalBytes path useOsync calls ∧
        f.calls = .unlink path env.unlink :: .close env.close :: calls) := by
  intro path
  have hinv := WriteSyscall.openedFile_inv chunkSize totalBytes path useOsync
  have hagain : ∀ s t, WriteSyscall.Inv chunkSize totalBytes path useOsync s →
      s.pass env path chunkSize totalBytes = .again t →
        WriteSyscall.Inv chunkSize totalBytes path useOsync t :=
    fun _ _ h hpass => h.again hpass
  obtain ⟨hmoment, hend⟩ :=
    Loop.run_inv hagain (fun _ _ h hpass => h.done hpass) n hinv
  unfold benchmarkWriteSyscall
  dsimp only
  split
  · next hmalloc =>
      refine Progress.of_done ⟨rfl, fun _ heq => (by cases heq), fun _ =>
        ⟨rfl, fun _ heq => by cases heq⟩, fun hopens => ?_⟩
      rw [hopens.1] at hmalloc
      cases hmalloc
  · split
    · next hlong =>
        exact Progress.of_done ⟨rfl, fun _ heq => (by cases heq), fun _ =>
          ⟨rfl, fun _ heq => by cases heq⟩,
          fun hopens => absurd hopens.2.1 (Nat.not_lt.mpr hlong)⟩
    · split
      · next e hopen =>
          refine Progress.of_done ⟨rfl, fun _ heq => (by cases heq), fun _ =>
            ⟨rfl, fun _ heq => by cases heq⟩, fun hopens => ?_⟩
          rw [hopens.2.2] at hopen
          cases hopen
      · next hmalloc hshort _ hopen =>
          have hopens : env.Opens path :=
            ⟨Bool.eq_true_of_not_eq_false hmalloc, Nat.not_le.mp hshort, hopen⟩
          split
          · next why hwhy =>
              refine Progress.of_done ⟨rfl, fun _ heq => (by cases heq),
                fun hnot => absurd hopens hnot, fun _ htimed => ?_⟩
              rw [htimed.1] at hwhy
              cases hwhy
          · constructor
            · intro s hagain
              have h := hmoment s hagain
              exact ⟨h.total_le, h.total, h.remaining, h.calls⟩
            · intro f hdone
              have h := hend f hdone
              refine ⟨h.counted, fun total heq => ?_, fun hnot => absurd hopens hnot,
                fun _ htimed => ?_⟩
              · obtain ⟨hlength, htotal, _⟩ := h.returned total heq
                exact ⟨hlength, htotal⟩
              · obtain ⟨calls, hwrites, hcalls | ⟨hfails, _⟩⟩ := h.calls
                · exact ⟨calls, hwrites, hcalls⟩
                · exact absurd htimed.2 hfails

end SysLab.PartA
