import SysLab.PartA.Options
import SysLab.PartA.ReadBenchmarks
import SysLab.PartA.WriteBenchmark

/-!
# The benchmark functions of `parta_bench`, from call to return

Each of the functions that `main` measures, on the files that are there: what it opens
and allocates first, its loop pass by pass, and the total it returns or the end of the
process.  The numbers of the timer are the environment's; what `perror` adds to its
message is left out.

`Doing` is what is known of a call under way, `Call.Done` what is known when it has
come to an end.
-/

namespace SysLab.PartA

open SysLab.Foundation
open SysLab.PartB (Errno Exit)

/-- The content of each file, by path; no two paths name one file. -/
abbrev Files := String → Option (List UInt8)

/-- The streams of `Stdio`, read by characters: `getc` and `fgetc` return the next one,
or `EOF`. -/
structure CharStdio (φ : Type*) extends Stdio φ where
  getc : φ → Option UInt8 × φ
  fgetc : φ → Option UInt8 × φ

/-- `next` delivers the file in order, and `EOF` only at its end or on error. -/
structure Stdio.Characters {φ : Type*} (lib : Stdio φ) (next : φ → Option UInt8 × φ) :
    Prop where
  delivers : ∀ {fp c fp'}, next fp = (some c, fp') → lib.left fp = c :: lib.left fp'
  ends : ∀ {fp fp'}, next fp = (none, fp') →
    lib.left fp' = lib.left fp ∧ (lib.left fp = [] ∨ lib.ferror fp' = true)

structure CharStdio.Lawful {φ : Type*} (lib : CharStdio φ) : Prop where
  fread : lib.toStdio.Lawful
  getc : lib.toStdio.Characters lib.getc
  fgetc : lib.toStdio.Characters lib.fgetc

/-- The next character of a file in memory. -/
def nextInMemory : List UInt8 → Option UInt8 × List UInt8
  | [] => (none, [])
  | c :: rest => (some c, rest)

/-- Streams that hold the whole file in memory. -/
def CharStdio.memory : CharStdio (List UInt8) where
  toStdio := Stdio.memory
  getc := nextInMemory
  fgetc := nextInMemory

theorem CharStdio.memory_lawful : CharStdio.memory.Lawful := by
  have hnext : Stdio.memory.Characters nextInMemory := by
    constructor
    · intro fp c fp' h
      cases fp with
      | nil => cases h
      | cons d rest =>
          cases h
          rfl
    · intro fp fp' h
      cases fp with
      | nil =>
          cases h
          exact ⟨rfl, .inl rfl⟩
      | cons d rest => cases h
  exact ⟨Stdio.memory_lawful, hnext, hnext⟩

/-- The numbers of a `timing_t` and the throughput, as they are printed. -/
structure Timing where
  realSec : List Char
  userSec : List Char
  sysSec : List Char
  mibPerSec : List Char
  deriving DecidableEq, Repr

/-- What kernel, allocator and C library answer during one call: `malloc k` says whether
the `k`-th request for memory is met, `memory` what is in it, and `stream` how `fopen`
begins with a file. -/
structure CallEnv (φ : Type*) where
  openRes : Option Errno
  malloc : Nat → Bool
  timerStart : TimerEnv
  timerEnd : TimerEnv
  memory : (capacity : Nat) → Buffer UInt8 capacity
  schedule : Nat → Answer Errno
  stream : List UInt8 → φ
  write : WriteEnv
  timing : Timing

/-- `die_perror(message)`, or `die_usage(message)`. -/
inductive Die
  | perror (message : String)
  | usage (message : String)
  deriving DecidableEq, Repr

/-- A call of a benchmark function. -/
inductive Call
  | readSyscall (path : String) (chunkSize : Nat)
  | getcLike (path : String) (useFunction : Bool)
  | freadStdio (path : String) (chunkSize : Nat)
  | myFread (path : String) (chunkSize internalBufferSize : Nat)
  | writeSyscall (dirPath : String) (chunkSize totalBytes : Nat) (useOsync : Bool)
  deriving DecidableEq, Repr

/-- The variables of the function whose loop runs. -/
inductive Running (φ : Type*)
  | readSyscall (chunkSize : Nat) (s : ReadSyscall)
  | getcLike (useFunction : Bool) (x : φ × Nat)
  | freadStdio (chunkSize : Nat) (x : φ × Nat)
  | myFread (chunkSize : Nat) {capacity : Nat} (x : Nat × Fread capacity)
  | writeSyscall (path : String) (chunkSize totalBytes : UInt64) (s : WriteSyscall)

/-- The total that is returned, or how the process ends; and the files then. -/
structure Left where
  result : Except Die Nat
  files : Files

section Functions

variable {φ : Type*}

/-! ## The functions -/

/-- The file that `open` or `fopen` opens for reading. -/
def CallEnv.openFile (env : CallEnv φ) (files : Files) (path : String) :
    Option (List UInt8) :=
  if env.openRes = none then files path else none

/-- One pass of the loop of `benchmark_getc_like`, and what follows it. -/
def GetcLike.pass (lib : CharStdio φ) (useFunction : Bool) (x : φ × Nat) :
    Progress (φ × Nat) (Except Exit Nat) :=
  match if useFunction then lib.fgetc x.1 else lib.getc x.1 with
  | (some _, fp) => .again (fp, x.2 + 1)
  | (none, fp) =>
      if lib.ferror fp then .done (.error ⟨"getc/fgetc", lib.errno fp⟩) else .done (.ok x.2)

/-- `timer_start` ends the process, or the loop begins. -/
def CallEnv.timed (env : CallEnv φ) (files : Files) (r : Running φ) : Progress (Running φ) Left :=
  match env.timerStart.exit with
  | some why => .done ⟨.error (.perror why.message), files⟩
  | none => .again r

/-- The end of a function that only reads: past its loop there is `timer_end`. -/
def Left.ofRead (env : CallEnv φ) (files : Files) : Except Exit Nat → Left
  | .error why => ⟨.error (.perror why.message), files⟩
  | .ok total =>
      match env.timerEnd.exit with
      | some why => ⟨.error (.perror why.message), files⟩
      | none => ⟨.ok total, files⟩

/-- How `benchmark_write_syscall` ends the process or returns. -/
def Outcome.result : Outcome → Except Die Nat
  | .returned writtenTotal => .ok writtenTotal.toNat
  | .dieErrno why => .error (.perror why.message)
  | .dieUsage message => .error (.usage message)

/-- What has become of the temporary file: it has never been opened, or it has been
unlinked, or it is there. -/
def Ended.leaves (before : Option (List UInt8)) (f : Ended) : Option (List UInt8) :=
  match f.calls with
  | [] => before
  | .unlink _ none :: _ => none
  | _ => some f.file

def Left.ofWrite (path : String) (files : Files) (f : Ended) : Left where
  result := f.outcome.result
  files := Function.update files path (f.leaves (files path))

/-- A function up to its loop. -/
def Call.start (env : CallEnv φ) (files : Files) : Call → Progress (Running φ) Left
  | .readSyscall path chunkSize =>
      match env.openFile files path with
      | none => .done ⟨.error (.perror "open"), files⟩
      | some content =>
          if env.malloc 0 then env.timed files (.readSyscall chunkSize ⟨.opened content, 0⟩)
          else .done ⟨.error (.perror "malloc"), files⟩
  | .getcLike path useFunction =>
      match env.openFile files path with
      | none => .done ⟨.error (.perror "fopen"), files⟩
      | some content => env.timed files (.getcLike useFunction (env.stream content, 0))
  | .freadStdio path chunkSize =>
      match env.openFile files path with
      | none => .done ⟨.error (.perror "fopen"), files⟩
      | some content =>
          if env.malloc 0 then env.timed files (.freadStdio chunkSize (env.stream content, 0))
          else .done ⟨.error (.perror "malloc"), files⟩
  | .myFread path chunkSize internalBufferSize =>
      match env.openFile files path with
      | none => .done ⟨.error (.perror "open"), files⟩
      | some content =>
          -- the caller's buffer, and in `my_fopen_fd` the structure and its buffer
          if env.malloc 0 ∧ env.malloc 1 ∧ env.malloc 2 then
            env.timed files (.myFread chunkSize
              (0, .call (myFopenFd (.opened content) (env.memory internalBufferSize)) chunkSize))
          else .done ⟨.error (.perror "malloc"), files⟩
  | .writeSyscall dirPath chunkSize totalBytes useOsync =>
      let path := templatePath dirPath (.ofNat chunkSize) useOsync
      Loop.rename (Running.writeSyscall path (.ofNat chunkSize) (.ofNat totalBytes))
        (.ofWrite path files)
        (benchmarkWriteSyscall env.write dirPath (.ofNat chunkSize) (.ofNat totalBytes)
          useOsync 0)

/-- One pass of its loop; the last one includes what follows. -/
def Running.pass (lib : CharStdio φ) (env : CallEnv φ) (files : Files) :
    Running φ → Progress (Running φ) Left
  | .readSyscall chunkSize s =>
      Loop.rename (.readSyscall chunkSize) (.ofRead env files) (s.pass env.schedule chunkSize)
  | .getcLike useFunction x =>
      Loop.rename (.getcLike useFunction) (.ofRead env files)
        (GetcLike.pass lib useFunction x)
  | .freadStdio chunkSize x =>
      Loop.rename (.freadStdio chunkSize) (.ofRead env files)
        (FreadStdio.pass lib.toStdio chunkSize x)
  | .myFread chunkSize x =>
      Loop.rename (.myFread chunkSize) (.ofRead env files)
        (Loop.nest (Fread.pass env.schedule) (MyFread.next chunkSize) x)
  | .writeSyscall path chunkSize totalBytes s =>
      Loop.rename (.writeSyscall path chunkSize totalBytes) (.ofWrite path files)
        (s.pass env.write path chunkSize totalBytes)

/-- The files while it runs. -/
def Running.files (files : Files) : Running φ → Files
  | .writeSyscall path _ _ s => Function.update files path (some s.file)
  | _ => files

/-! ## What a call should do -/

/-- The total it should return. -/
def Call.total (files : Files) : Call → Nat
  | .readSyscall path _ | .getcLike path _ | .freadStdio path _ | .myFread path _ _ =>
      ((files path).getD []).length
  | .writeSyscall _ _ totalBytes _ => totalBytes

/-- Its temporary file. -/
def Call.temp : Call → Option String
  | .writeSyscall dirPath chunkSize _ useOsync =>
      some (templatePath dirPath (.ofNat chunkSize) useOsync)
  | _ => none

/-- The file it reads. -/
def Call.input : Call → Option String
  | .readSyscall path _ | .getcLike path _ | .freadStdio path _ | .myFread path _ _ => some path
  | .writeSyscall _ _ _ _ => none

theorem Call.total_congr {files files' : Files} {call : Call}
    (h : ∀ path, call.input = some path → files' path = files path) :
    call.total files' = call.total files := by
  cases call with
  | readSyscall path _ => rw [total, total, h path rfl]
  | getcLike path _ => rw [total, total, h path rfl]
  | freadStdio path _ => rw [total, total, h path rfl]
  | myFread path _ _ => rw [total, total, h path rfl]
  | writeSyscall _ _ _ _ => rfl

/-- A `size_t` that is not 0. -/
def IsSize (n : Nat) : Prop := 1 ≤ n ∧ n ≤ sizeMax

/-- The sizes are such as `parse_size` returns. -/
def Call.Sized : Call → Prop
  | .readSyscall _ chunkSize | .freadStdio _ chunkSize => IsSize chunkSize
  | .getcLike _ _ => True
  | .myFread _ chunkSize internalBufferSize => IsSize chunkSize ∧ IsSize internalBufferSize
  | .writeSyscall _ chunkSize totalBytes _ => IsSize chunkSize ∧ IsSize totalBytes

/-- `unlink` does not fail, nor does the timer before it. -/
structure WriteEnv.CleansUp (env : WriteEnv) : Prop where
  timed : env.Timed
  unlink : env.unlink = none

/-- If it returns then the right total; and it has changed no file but its temporary
file, which is gone unless `unlink` or the timer failed. -/
structure Call.Done (env : CallEnv φ) (files : Files) (call : Call) (left : Left) : Prop where
  total : ∀ total, left.result = .ok total → total = call.total files
  files : ∀ path, left.files path = files path ∨ call.temp = some path ∧
    (left.files path = none ∨ ¬ env.write.CleansUp)
  removed : ∀ total path, left.result = .ok total → call.temp = some path →
    left.files path = none

/-! ## The loops, whatever the kernel answers -/

section Safe

variable {schedule : Nat → Answer Errno} {chunkSize : Nat} {content : List UInt8}

theorem ReadSyscall.Counted.keeps {s t : ReadSyscall} (h : Counted content s)
    (hpass : s.pass schedule chunkSize = .again t) : Counted content t := by
  have hcontent : (s.fd.read schedule chunkSize).2.content = s.fd.content :=
    Descriptor.content_read
  unfold pass at hpass
  rcases hread : s.fd.read schedule chunkSize with ⟨e | _ | ⟨byte, bytes⟩, fd⟩
  all_goals
    rw [hread] at hpass hcontent
    dsimp only at hpass hcontent
  · split at hpass
    · cases hpass
      refine ⟨?_, hcontent.trans h.content⟩
      rw [(Descriptor.read_error hread).2]
      exact h.total
    · cases hpass
  · cases hpass
  · cases hpass
    refine ⟨?_, hcontent.trans h.content⟩
    show s.total + _ = fd.consumed.length
    rw [(Descriptor.read_ok hread).2.1, List.length_append, h.total]

theorem ReadSyscall.Counted.returns (hchunk : 0 < chunkSize) {s : ReadSyscall}
    (h : Counted content s) {total : Nat}
    (hpass : s.pass schedule chunkSize = .done (.ok total)) : total = content.length := by
  unfold pass at hpass
  rcases hread : s.fd.read schedule chunkSize with ⟨e | _ | ⟨byte, bytes⟩, fd⟩
  all_goals
    rw [hread] at hpass
    dsimp only at hpass
  · split at hpass
    · cases hpass
    · cases hpass
  · cases hpass
    have hend := (Descriptor.read_ok hread).2.2.2.2 rfl hchunk
    rw [h.total, ← h.content, Descriptor.content, hend, List.append_nil]
  · cases hpass

variable {capacity : Nat}

theorem MyFread.Counted.keeps (hcap : 0 < capacity) {x y : Nat × Fread capacity}
    (h : Counted content chunkSize x)
    (hpass : Loop.nest (Fread.pass schedule) (next chunkSize) x = .again y) :
    Counted content chunkSize y := by
  obtain ⟨total, s⟩ := x
  obtain ⟨returned, hfaithful, htotal, hsize⟩ := h
  rcases again_cases hpass with ⟨t, hagain, rfl⟩ | ⟨t, hdone, _, rfl⟩
  · exact ⟨returned, hfaithful.again hagain, htotal,
      (Fread.again_bytesRequested hagain).trans hsize⟩
  · obtain ⟨ht, _⟩ := hfaithful.done hcap hdone
    refine ⟨returned ++ t.out, ⟨ht.begin_le, ht.end_le, ?_, ht.content, Nat.zero_le _⟩, ?_, rfl⟩
    · show returned ++ t.out ++ [] ++ t.file.buffered = t.file.fd.consumed
      rw [List.append_nil]
      exact ht.consumed
    · rw [List.length_append, htotal]

theorem MyFread.Counted.returns (hcap : 0 < capacity) {x : Nat × Fread capacity}
    (h : Counted content chunkSize x) {total : Nat}
    (hpass : Loop.nest (Fread.pass schedule) (next chunkSize) x = .done (.ok total)) :
    total = content.length := by
  obtain ⟨before, s⟩ := x
  obtain ⟨returned, hfaithful, htotal, hsize⟩ := h
  obtain ⟨e | t, hdone, hnext⟩ := Loop.nest_eq_done hpass
  · cases hnext
  · obtain ⟨ht, hfinished⟩ := hfaithful.done hcap hdone
    have hrequested : t.bytesRequested = chunkSize :=
      (Fread.done_bytesRequested hdone).trans hsize
    unfold next at hnext
    dsimp only at hnext
    split at hnext
    · next hshort =>
        cases hnext
        obtain ⟨hdrained, hend⟩ := hfinished (hrequested ▸ hshort)
        rw [← ht.content, Descriptor.content, ← ht.consumed, hend, MyFile.buffered,
          hdrained, Buffer.window_self, List.append_nil, List.append_nil,
          List.length_append, htotal]
    · cases hnext

variable {lib : CharStdio φ} {useFunction : Bool} {x y : φ × Nat}

theorem CharStdio.Lawful.characters (hlib : lib.Lawful) (useFunction : Bool) :
    lib.toStdio.Characters fun fp => if useFunction then lib.fgetc fp else lib.getc fp := by
  cases useFunction with
  | false => exact hlib.getc
  | true => exact hlib.fgetc

/-- A character more, and one less to come. -/
theorem GetcLike.again (hlib : lib.Lawful)
    (h : FreadStdio.Counted lib.toStdio content x)
    (hpass : GetcLike.pass lib useFunction x = .again y) :
    FreadStdio.Counted lib.toStdio content y ∧
      (lib.left y.1).length < (lib.left x.1).length := by
  unfold GetcLike.pass at hpass
  split at hpass
  · next c fp hnext =>
      cases hpass
      have hleft := congrArg List.length ((hlib.characters useFunction).delivers hnext)
      rw [List.length_cons] at hleft
      unfold FreadStdio.Counted at h ⊢
      dsimp only
      omega
  · split at hpass
    · cases hpass
    · cases hpass

theorem GetcLike.done (hlib : lib.Lawful) (h : FreadStdio.Counted lib.toStdio content x)
    {r : Except Exit Nat} (hpass : GetcLike.pass lib useFunction x = .done r) :
    (∃ fp, lib.ferror fp = true ∧ r = .error ⟨"getc/fgetc", lib.errno fp⟩) ∨
      r = .ok content.length := by
  unfold GetcLike.pass at hpass
  split at hpass
  · cases hpass
  · next fp hnext =>
      split at hpass
      · next herror =>
          cases hpass
          exact .inl ⟨fp, herror, rfl⟩
      · next herror =>
          cases hpass
          obtain ⟨_, hend | hend⟩ := (hlib.characters useFunction).ends hnext
          · unfold FreadStdio.Counted at h
            rw [hend, List.length_nil, Nat.add_zero] at h
            exact .inr (congrArg Except.ok h)
          · exact absurd hend herror

end Safe

/-! ## A call under way -/

/-- What is known of a call while its loop runs. -/
inductive Doing (lib : CharStdio φ) (files : Files) : Call → Running φ → Prop
  | readSyscall {path : String} {chunkSize : Nat} {content : List UInt8} {s : ReadSyscall} :
      files path = some content → s.Counted content →
      Doing lib files (.readSyscall path chunkSize) (.readSyscall chunkSize s)
  | getcLike {path : String} {useFunction : Bool} {content : List UInt8} {x : φ × Nat} :
      files path = some content → FreadStdio.Counted lib.toStdio content x →
      Doing lib files (.getcLike path useFunction) (.getcLike useFunction x)
  | freadStdio {path : String} {chunkSize : Nat} {content : List UInt8} {x : φ × Nat} :
      files path = some content → FreadStdio.Counted lib.toStdio content x →
      Doing lib files (.freadStdio path chunkSize) (.freadStdio chunkSize x)
  | myFread {path : String} {chunkSize capacity : Nat} {content : List UInt8}
      {x : Nat × Fread capacity} :
      files path = some content → MyFread.Counted content chunkSize x →
      Doing lib files (.myFread path chunkSize capacity) (.myFread chunkSize x)
  | writeSyscall {dirPath : String} {chunkSize totalBytes : Nat} {useOsync : Bool}
      {s : WriteSyscall} :
      s.Inv (.ofNat chunkSize) (.ofNat totalBytes)
        (templatePath dirPath (.ofNat chunkSize) useOsync) useOsync →
      Doing lib files (.writeSyscall dirPath chunkSize totalBytes useOsync)
        (.writeSyscall (templatePath dirPath (.ofNat chunkSize) useOsync) (.ofNat chunkSize)
          (.ofNat totalBytes) s)

section Doing

variable {lib : CharStdio φ} {env : CallEnv φ} {files : Files} {call : Call}
  {r r' : Running φ} {left : Left}

theorem CallEnv.openFile_some {path : String} {content : List UInt8}
    (h : env.openFile files path = some content) : files path = some content := by
  unfold openFile at h
  split at h
  · exact h
  · cases h

theorem CallEnv.timed_again (h : env.timed files r = .again r') : r = r' := by
  unfold timed at h
  split at h
  · cases h
  · cases h
    rfl

theorem CallEnv.timed_done (h : env.timed files r = .done left) :
    ∃ why, left = ⟨.error why, files⟩ := by
  unfold timed at h
  split at h
  · cases h
    exact ⟨_, rfl⟩
  · cases h

/-- The process ends and no file has been touched. -/
theorem Call.Done.refused (why : Die) : call.Done env files ⟨.error why, files⟩ where
  total _ h := by cases h
  files path := .inl rfl
  removed _ _ h := by cases h

/-- A call begins well. -/
theorem Call.start_doing (hstream : ∀ content, lib.left (env.stream content) = content)
    (h : call.start env files = .again r) : Doing lib files call r := by
  cases call with
  | readSyscall path chunkSize =>
      unfold Call.start at h
      dsimp only at h
      split at h
      · cases h
      · next content hopen =>
          split at h
          · obtain rfl := CallEnv.timed_again h
            exact .readSyscall (CallEnv.openFile_some hopen) ⟨rfl, rfl⟩
          · cases h
  | getcLike path useFunction =>
      unfold Call.start at h
      dsimp only at h
      split at h
      · cases h
      · next content hopen =>
          obtain rfl := CallEnv.timed_again h
          refine .getcLike (CallEnv.openFile_some hopen) ?_
          rw [FreadStdio.Counted, hstream, Nat.zero_add]
  | freadStdio path chunkSize =>
      unfold Call.start at h
      dsimp only at h
      split at h
      · cases h
      · next content hopen =>
          split at h
          · obtain rfl := CallEnv.timed_again h
            refine .freadStdio (CallEnv.openFile_some hopen) ?_
            rw [FreadStdio.Counted, hstream, Nat.zero_add]
          · cases h
  | myFread path chunkSize capacity =>
      unfold Call.start at h
      dsimp only at h
      split at h
      · cases h
      · next content hopen =>
          split at h
          · obtain rfl := CallEnv.timed_again h
            exact .myFread (CallEnv.openFile_some hopen)
              (MyFread.start_counted content (env.memory capacity) chunkSize)
          · cases h
  | writeSyscall dirPath chunkSize totalBytes useOsync =>
      unfold Call.start benchmarkWriteSyscall at h
      dsimp only at h
      split at h
      · cases h
      · split at h
        · cases h
        · split at h
          · cases h
          · split at h
            · cases h
            · cases h
              exact .writeSyscall (WriteSyscall.openedFile_inv ..)

theorem Ended.leaves_unlinked {path : String} {f : Ended} (before : Option (List UInt8))
    (h : f.calls.head? = some (.unlink path none)) : f.leaves before = none := by
  obtain ⟨calls, hcalls⟩ := List.head?_eq_some_iff.mp h
  rw [Ended.leaves, hcalls]

/-- A call that writes has ended: a file that it has opened it has unlinked, if it has
returned or nothing failed there. -/
theorem Call.Done.ofWrite {dirPath : String} {chunkSize totalBytes : Nat} {useOsync : Bool}
    {path : String} (hpath : path = templatePath dirPath (.ofNat chunkSize) useOsync) {f : Ended}
    (hreturned : ∀ total, f.outcome = .returned total →
      total.toNat = totalBytes ∧ f.calls.head? = some (.unlink path none))
    (hcleaned : env.write.CleansUp →
      f.calls = [] ∨ f.calls.head? = some (.unlink path none)) :
    (Call.writeSyscall dirPath chunkSize totalBytes useOsync).Done env files
      (.ofWrite path files f) := by
  subst hpath
  have hresult : ∀ total, f.outcome.result = .ok total → total = totalBytes ∧
      f.calls.head? =
        some (.unlink (templatePath dirPath (.ofNat chunkSize) useOsync) none) := by
    intro total hresult
    cases houtcome : f.outcome with
    | returned writtenTotal =>
        rw [houtcome] at hresult
        cases hresult
        exact hreturned _ houtcome
    | dieErrno why =>
        rw [houtcome] at hresult
        cases hresult
    | dieUsage message =>
        rw [houtcome] at hresult
        cases hresult
  refine ⟨fun total h => (hresult total h).1, fun path => ?_, ?_⟩
  · by_cases hpath : path = templatePath dirPath (.ofNat chunkSize) useOsync
    · subst hpath
      by_cases hclean : env.write.CleansUp
      · rcases hcleaned hclean with hnever | hunlinked
        · left
          show Function.update files _ _ _ = _
          rw [Function.update_self, Ended.leaves, hnever]
        · refine .inr ⟨rfl, .inl ?_⟩
          show Function.update files _ _ _ = _
          rw [Function.update_self, Ended.leaves_unlinked _ hunlinked]
      · exact .inr ⟨rfl, .inr hclean⟩
    · exact .inl (Function.update_of_ne hpath _ _)
  · rintro total path h ⟨⟩
    show Function.update files _ _ _ = _
    rw [Function.update_self, Ended.leaves_unlinked _ (hresult total h).2]

/-- Or it ends the process before its loop. -/
theorem Call.start_done (h : call.start env files = .done left) : call.Done env files left := by
  cases call with
  | readSyscall path chunkSize =>
      unfold Call.start at h
      dsimp only at h
      split at h
      · cases h
        exact .refused _
      · split at h
        · obtain ⟨why, rfl⟩ := CallEnv.timed_done h
          exact .refused _
        · cases h
          exact .refused _
  | getcLike path useFunction =>
      unfold Call.start at h
      dsimp only at h
      split at h
      · cases h
        exact .refused _
      · obtain ⟨why, rfl⟩ := CallEnv.timed_done h
        exact .refused _
  | freadStdio path chunkSize =>
      unfold Call.start at h
      dsimp only at h
      split at h
      · cases h
        exact .refused _
      · split at h
        · obtain ⟨why, rfl⟩ := CallEnv.timed_done h
          exact .refused _
        · cases h
          exact .refused _
  | myFread path chunkSize capacity =>
      unfold Call.start at h
      dsimp only at h
      split at h
      · cases h
        exact .refused _
      · split at h
        · obtain ⟨why, rfl⟩ := CallEnv.timed_done h
          exact .refused _
        · cases h
          exact .refused _
  | writeSyscall dirPath chunkSize totalBytes useOsync =>
      unfold Call.start benchmarkWriteSyscall at h
      dsimp only at h
      split at h
      · cases h
        exact .ofWrite rfl (fun _ heq => by cases heq) fun _ => .inl rfl
      · split at h
        · cases h
          exact .ofWrite rfl (fun _ heq => by cases heq) fun _ => .inl rfl
        · split at h
          · cases h
            exact .ofWrite rfl (fun _ heq => by cases heq) fun _ => .inl rfl
          · split at h
            · next why hwhy =>
                cases h
                refine .ofWrite rfl (fun _ heq => by cases heq) fun hclean => ?_
                rw [hclean.timed.1] at hwhy
                cases hwhy
            · cases h

theorem rename_again {σ τ β γ : Type*} {f : σ → τ} {g : β → γ} {p : Progress σ β} {t : τ}
    (h : Loop.rename f g p = .again t) : ∃ s, p = .again s ∧ f s = t := by
  cases p with
  | again s =>
      cases h
      exact ⟨s, rfl, rfl⟩
  | done b => cases h

theorem rename_done {σ τ β γ : Type*} {f : σ → τ} {g : β → γ} {p : Progress σ β} {c : γ}
    (h : Loop.rename f g p = .done c) : ∃ b, p = .done b ∧ g b = c := by
  cases p with
  | again s => cases h
  | done b =>
      cases h
      exact ⟨b, rfl, rfl⟩

/-- A pass keeps what is known. -/
theorem Doing.again (hlib : lib.Lawful) (hsized : call.Sized) (h : Doing lib files call r)
    (hpass : r.pass lib env files = .again r') : Doing lib files call r' := by
  cases h with
  | readSyscall hfile hcounted =>
      obtain ⟨t, ht, rfl⟩ := rename_again hpass
      exact .readSyscall hfile (hcounted.keeps ht)
  | getcLike hfile hcounted =>
      obtain ⟨t, ht, rfl⟩ := rename_again hpass
      exact .getcLike hfile (GetcLike.again hlib hcounted ht).1
  | freadStdio hfile hcounted =>
      obtain ⟨t, ht, rfl⟩ := rename_again hpass
      exact .freadStdio hfile (FreadStdio.Counted.again hlib.fread hsized.1 hcounted ht).1
  | myFread hfile hcounted =>
      obtain ⟨t, ht, rfl⟩ := rename_again hpass
      exact .myFread hfile (hcounted.keeps hsized.2.1 ht)
  | writeSyscall hinv =>
      obtain ⟨t, ht, rfl⟩ := rename_again hpass
      exact .writeSyscall (hinv.again ht)

/-- The end of a call that only reads. -/
theorem Call.Done.ofRead {result : Except Exit Nat} (htemp : call.temp = none)
    (htotal : ∀ total, result = .ok total → total = call.total files) :
    call.Done env files (.ofRead env files result) := by
  cases result with
  | error why => exact .refused _
  | ok total =>
      unfold Left.ofRead
      dsimp only
      split
      · exact .refused _
      · refine ⟨?_, fun path => .inl rfl, ?_⟩
        · rintro total' ⟨⟩
          exact htotal total rfl
        · intro total' path _ hpath
          rw [htemp] at hpath
          cases hpath

theorem toNat_ofNat_of_isSize {n : Nat} (h : IsSize n) : (UInt64.ofNat n).toNat = n := by
  have hle := h.2
  rw [sizeMax] at hle
  rw [UInt64.toNat_ofNat', Nat.mod_eq_of_lt]
  omega

/-- The last pass establishes what a call should do. -/
theorem Doing.done (hlib : lib.Lawful) (hsized : call.Sized) (h : Doing lib files call r)
    (hpass : r.pass lib env files = .done left) : call.Done env files left := by
  cases h with
  | readSyscall hfile hcounted =>
      obtain ⟨result, hdone, rfl⟩ := rename_done hpass
      refine .ofRead rfl fun total heq => ?_
      rw [heq] at hdone
      rw [hcounted.returns hsized.1 hdone, Call.total, hfile]
      rfl
  | getcLike hfile hcounted =>
      obtain ⟨result, hdone, rfl⟩ := rename_done hpass
      refine .ofRead rfl fun total heq => ?_
      rw [heq] at hdone
      rcases GetcLike.done hlib hcounted hdone with ⟨fp, _, hdied⟩ | hreturned
      · cases hdied
      · cases hreturned
        rw [Call.total, hfile]
        rfl
  | freadStdio hfile hcounted =>
      obtain ⟨result, hdone, rfl⟩ := rename_done hpass
      refine .ofRead rfl fun total heq => ?_
      rw [heq] at hdone
      have hreturned : total = _ := FreadStdio.Counted.done hlib.fread hcounted hdone
      rw [hreturned, Call.total, hfile]
      rfl
  | myFread hfile hcounted =>
      obtain ⟨result, hdone, rfl⟩ := rename_done hpass
      refine .ofRead rfl fun total heq => ?_
      rw [heq] at hdone
      rw [hcounted.returns hsized.2.1 hdone, Call.total, hfile]
      rfl
  | @writeSyscall dirPath chunkSize totalBytes useOsync s hinv =>
      obtain ⟨f, hdone, rfl⟩ := rename_done hpass
      have hcleaned := hinv.done hdone
      refine .ofWrite rfl (fun total houtcome => ?_) fun hclean => ?_
      · obtain ⟨_, rfl, _, hunlinked⟩ := hcleaned.returned total houtcome
        exact ⟨toNat_ofNat_of_isSize hsized.2, hunlinked⟩
      · obtain ⟨calls, _, hcalls | ⟨hfails, _⟩⟩ := hcleaned.calls
        · rw [hcalls, hclean.unlink]
          exact .inr rfl
        · exact absurd hclean.timed.2 hfails

end Doing

/-! ## When nothing fails -/

/-- The `write`s fail only by finitely many interruptions, take something each time, and
nothing else fails. -/
structure WriteEnv.Works (env : WriteEnv) : Prop where
  malloc : env.malloc = true
  openRes : env.openRes = none
  timed : env.Timed
  close : env.close = none
  unlink : env.unlink = none
  some : ∀ k n, env.write k = .ok n → 0 < n
  only : ∀ k e, env.write k = .error e → e = .EINTR
  finite : ∃ N, ∀ k e, env.write k = .error e → k < N

/-- Nothing fails in the call but by interruptions, of which there are finitely many. -/
structure CallEnv.Works (env : CallEnv φ) : Prop where
  openRes : env.openRes = none
  malloc : ∀ k, env.malloc k = true
  timerStart : env.timerStart.exit = none
  timerEnd : env.timerEnd.exit = none
  schedule : Answer.Interrupts env.schedule .EINTR
  write : env.write.Works

/-- The file that is read exists, the path of the temporary file fits into its array. -/
def Call.Possible (files : Files) : Call → Prop
  | .readSyscall path _ | .getcLike path _ | .freadStdio path _ | .myFread path _ _ =>
      ∃ content, files path = some content
  | .writeSyscall dirPath chunkSize _ useOsync =>
      (templatePath dirPath (.ofNat chunkSize) useOsync).utf8ByteSize < 4096

theorem Call.Possible.congr {files files' : Files} {call : Call} (h : call.Possible files)
    (hsame : ∀ path, call.input = some path → files' path = files path) :
    call.Possible files' := by
  cases call with
  | readSyscall path _ => rwa [Possible, hsame path rfl]
  | getcLike path _ => rwa [Possible, hsame path rfl]
  | freadStdio path _ => rwa [Possible, hsame path rfl]
  | myFread path _ _ => rwa [Possible, hsame path rfl]
  | writeSyscall _ _ _ _ => exact h

section Works

variable {lib : CharStdio φ} {env : CallEnv φ} {files : Files} {call : Call}

theorem getcLike_total (hlib : lib.Lawful) (hhealthy : ∀ fp, lib.ferror fp = false)
    (useFunction : Bool) (fp : φ) :
    ∃ n, Loop.run (GetcLike.pass lib useFunction) n (fp, 0) =
      .done (.ok (lib.left fp).length) := by
  have hends : ∃ n r, Loop.run (GetcLike.pass lib useFunction) n (fp, 0) = .done r ∧
      r = .ok (lib.left fp).length := by
    refine Loop.exists_done (I := FreadStdio.Counted lib.toStdio (lib.left fp))
      (fun x => (lib.left x.1).length) (fun x y h hpass => GetcLike.again hlib h hpass) ?_
      (Nat.zero_add _)
    intro x r h hpass
    rcases GetcLike.done hlib h hpass with ⟨fp', herror, _⟩ | hreturned
    · rw [hhealthy] at herror
      cases herror
    · exact hreturned
  obtain ⟨n, _, hrun, rfl⟩ := hends
  exact ⟨n, hrun⟩

/-- A pass of the `while` loop that goes round again has used up an interruption or
written something. -/
theorem WriteSyscall.Inv.less {env : WriteEnv} {path : String} {useOsync : Bool}
    {chunkSize totalBytes : UInt64} {s t : WriteSyscall} {N : Nat}
    (hN : ∀ k e, env.write k = .error e → k < N)
    (h : s.Inv chunkSize totalBytes path useOsync)
    (hpass : s.pass env path chunkSize totalBytes = .again t) :
    (totalBytes.toNat - t.file.length) + (N - t.writes) <
      (totalBytes.toNat - s.file.length) + (N - s.writes) := by
  have hremaining := h.remaining
  unfold pass at hpass
  split at hpass
  · next hmore =>
      dsimp only at hpass
      split at hpass
      · next e hwrite =>
          have hlt := hN _ _ hwrite
          split at hpass
          · cases hpass
            show (totalBytes.toNat - s.file.length) + (N - (s.writes + 1)) < _
            omega
          · cases hpass
      · split at hpass
        · cases hpass
        · next n _ hpos =>
            cases hpass
            have hasked : (s.thisChunk chunkSize totalBytes).toNat =
                min chunkSize.toNat (s.remaining totalBytes).toNat := toNat_thisChunk s
            have hlength : ((writeBuffer chunkSize).take
                (min n (s.thisChunk chunkSize totalBytes).toNat)).length =
                  min n (s.thisChunk chunkSize totalBytes).toNat := by
              rw [List.length_take, writeBuffer, List.length_map, List.length_range]
              omega
            show (totalBytes.toNat - (s.file ++ (writeBuffer chunkSize).take
              (min n (s.thisChunk chunkSize totalBytes).toNat)).length) + (N - (s.writes + 1)) < _
            rw [List.length_append, hlength]
            omega
  · cases hpass

theorem writeSyscall_total {env : WriteEnv} (hworks : env.Works) (path : String)
    (useOsync : Bool) (totalBytes : UInt64) {chunkSize : UInt64} (hchunk : 0 < chunkSize.toNat) :
    ∃ n f, Loop.run (WriteSyscall.pass env path chunkSize totalBytes) n
      (openedFile path useOsync) = .done f ∧ f.outcome = .returned totalBytes := by
  obtain ⟨N, hN⟩ := hworks.finite
  refine Loop.exists_done (I := WriteSyscall.Inv chunkSize totalBytes path useOsync)
    (fun s => (totalBytes.toNat - s.file.length) + (N - s.writes))
    (fun s t h hpass => ⟨h.again hpass, h.less hN hpass⟩) ?_
    (WriteSyscall.openedFile_inv chunkSize totalBytes path useOsync)
  intro s f h hpass
  have hremaining := h.remaining
  unfold WriteSyscall.pass at hpass
  split at hpass
  · next hmore =>
      have hless := UInt64.lt_iff_toNat_lt.mp hmore
      have htotal := h.total
      have hasked : (s.thisChunk chunkSize totalBytes).toNat =
          min chunkSize.toNat (s.remaining totalBytes).toNat := WriteSyscall.toNat_thisChunk s
      dsimp only at hpass
      split at hpass
      · next e hwrite =>
          rw [if_pos (hworks.only _ _ hwrite)] at hpass
          cases hpass
      · next n hwrite =>
          have hpos := hworks.some _ _ hwrite
          rw [if_neg (by omega)] at hpass
          cases hpass
  · next hdone =>
      cases hpass
      have hall : s.writtenTotal = totalBytes :=
        UInt64.le_antisymm h.total_le (UInt64.not_lt.mp hdone)
      simp only [WriteSyscall.finish, hworks.close, hworks.timed.2, hworks.unlink, ← hall]
      rfl

variable (lib env) in
/-- The loop of the call is one of those above. -/
theorem exists_left {σ γ : Type*} {pass : σ → Progress σ γ} {f : σ → Running φ} {g : γ → Left}
    (h : ∀ s, (f s).pass lib env files = Loop.rename f g (pass s)) {n : Nat} {s : σ} {c : γ}
    (hrun : Loop.run pass n s = .done c) :
    ∃ n, Loop.run (Running.pass lib env files) n (f s) = .done (g c) := by
  refine ⟨n, ?_⟩
  rw [Loop.run_rename h, hrun]
  rfl

/-- When nothing fails, a call returns the total it should. -/
theorem Call.returns (hlib : lib.Lawful) (hhealthy : ∀ fp, lib.ferror fp = false)
    (hstream : ∀ content, lib.left (env.stream content) = content) (hsized : call.Sized)
    (hworks : env.Works) (hpossible : call.Possible files) :
    ∃ r n left, call.start env files = .again r ∧
      Loop.run (Running.pass lib env files) n r = .done left ∧
      left.result = .ok (call.total files) := by
  have hopen : ∀ path, env.openFile files path = files path := fun path =>
    if_pos hworks.openRes
  have htimed : ∀ r : Running φ, env.timed files r = .again r := fun r => by
    rw [CallEnv.timed, hworks.timerStart]
  have hended : ∀ total, (Left.ofRead env files (.ok total)).result = .ok total := by
    intro total
    rw [Left.ofRead, hworks.timerEnd]
  cases call with
  | readSyscall path chunkSize =>
      obtain ⟨content, hfile⟩ := hpossible
      obtain ⟨n, hrun⟩ := readSyscall_total hsized.1 hworks.schedule content
      obtain ⟨m, hleft⟩ := exists_left lib env (f := .readSyscall chunkSize)
        (g := .ofRead env files) (fun _ => rfl) hrun
      refine ⟨_, m, _, ?_, hleft, ?_⟩
      · rw [Call.start, hopen, hfile, hworks.malloc]
        exact htimed _
      · rw [hended, Call.total, hfile]
        rfl
  | getcLike path useFunction =>
      obtain ⟨content, hfile⟩ := hpossible
      obtain ⟨n, hrun⟩ := getcLike_total hlib hhealthy useFunction (env.stream content)
      obtain ⟨m, hleft⟩ := exists_left lib env (f := .getcLike useFunction)
        (g := .ofRead env files) (fun _ => rfl) hrun
      refine ⟨_, m, _, ?_, hleft, ?_⟩
      · rw [Call.start, hopen, hfile]
        exact htimed _
      · rw [hended, Call.total, hfile, hstream]
        rfl
  | freadStdio path chunkSize =>
      obtain ⟨content, hfile⟩ := hpossible
      obtain ⟨n, result, hrun, hreturned⟩ :=
        freadStdio_total hlib.fread hsized.1 (env.stream content)
      rw [hstream] at hreturned
      have hresult : result = .ok content.length := by
        cases result with
        | error why =>
            obtain ⟨fp, herror, _⟩ := hreturned
            rw [hhealthy fp] at herror
            cases herror
        | ok total => exact congrArg Except.ok hreturned
      obtain ⟨m, hleft⟩ := exists_left lib env (f := .freadStdio chunkSize)
        (g := .ofRead env files) (fun _ => rfl) hrun
      refine ⟨_, m, _, ?_, hleft, ?_⟩
      · rw [Call.start, hopen, hfile, hworks.malloc]
        exact htimed _
      · rw [hresult, hended, Call.total, hfile]
        rfl
  | myFread path chunkSize capacity =>
      obtain ⟨content, hfile⟩ := hpossible
      obtain ⟨n, hrun⟩ := myFread_total hsized.1.1 hsized.2.1 hworks.schedule
        (env.memory capacity) content
      obtain ⟨m, hleft⟩ := exists_left lib env
        (f := fun x : Nat × Fread capacity => Running.myFread chunkSize x)
        (g := .ofRead env files) (fun _ => rfl) hrun
      refine ⟨_, m, _, ?_, hleft, ?_⟩
      · rw [Call.start, hopen, hfile, hworks.malloc, hworks.malloc, hworks.malloc]
        exact htimed _
      · rw [hended, Call.total, hfile]
        rfl
  | writeSyscall dirPath chunkSize totalBytes useOsync =>
      have hchunk : 0 < (UInt64.ofNat chunkSize).toNat := by
        rw [toNat_ofNat_of_isSize hsized.1]
        exact hsized.1.1
      obtain ⟨n, f, hrun, houtcome⟩ := writeSyscall_total hworks.write
        (templatePath dirPath (.ofNat chunkSize) useOsync) useOsync (.ofNat totalBytes) hchunk
      obtain ⟨m, hleft⟩ := exists_left lib env
        (f := .writeSyscall (templatePath dirPath (.ofNat chunkSize) useOsync)
          (.ofNat chunkSize) (.ofNat totalBytes))
        (g := .ofWrite (templatePath dirPath (.ofNat chunkSize) useOsync) files)
        (fun _ => rfl) hrun
      refine ⟨_, m, _, ?_, hleft, ?_⟩
      · have hmalloc : ¬ env.write.malloc = false := by simp [hworks.write.malloc]
        have hshort := Nat.not_le_of_lt hpossible
        simp only [Call.start, benchmarkWriteSyscall, if_neg hmalloc, if_neg hshort,
          hworks.write.openRes, hworks.write.timed.1]
        rfl
      · show f.outcome.result = _
        rw [houtcome, Outcome.result, toNat_ofNat_of_isSize hsized.2]
        rfl

end Works

end Functions

end SysLab.PartA
