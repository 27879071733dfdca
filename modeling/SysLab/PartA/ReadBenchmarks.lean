import SysLab.PartA.MyFread

/-!
# The read benchmarks of `parta_bench`

The measured loops of `benchmark_read_syscall`, `benchmark_my_fread` and
`benchmark_fread_stdio` of `main.c`, from the opened file to the `total` that
is returned.  A file's length is an `off_t`, so that `total`, a `uint64_t`,
does not wrap and is a `Nat` here.  `fread` is the C library's and a parameter.
-/

namespace SysLab.PartA

open SysLab.Foundation
open SysLab.PartB (Errno Exit)

variable {capacity chunkSize N : Nat} {schedule : Nat → Answer Errno}
  {content : List UInt8}

/-! ## `benchmark_read_syscall` -/

/-- The variables of the loop. -/
structure ReadSyscall where
  fd : Descriptor UInt8
  total : Nat

namespace ReadSyscall

/-- One pass of the `for` loop. -/
def pass (schedule : Nat → Answer Errno) (chunkSize : Nat) (s : ReadSyscall) :
    Progress ReadSyscall (Except Exit Nat) :=
  match s.fd.read schedule chunkSize with
  | (.error e, fd) =>
      if e = .EINTR then .again { s with fd := fd } else .done (.error ⟨"read", e⟩)
  | (.ok [], _) => .done (.ok s.total)
  | (.ok (byte :: bytes), fd) =>
      .again ⟨fd, s.total + (byte :: bytes).length⟩

/-- `total` bytes of the file are read. -/
structure Counted (content : List UInt8) (s : ReadSyscall) : Prop where
  total : s.total = s.fd.consumed.length
  content : s.fd.content = content

variable {s t : ReadSyscall}

/-- A pass that goes round again has counted what it read, and used up an
interruption or a byte. -/
theorem Counted.again (hN : ∀ k e, schedule k = .fails e → k < N)
    (h : Counted content s) (hpass : s.pass schedule chunkSize = .again t) :
    Counted content t ∧ t.fd.pending N < s.fd.pending N := by
  have hcontent : (s.fd.read schedule chunkSize).2.content = s.fd.content :=
    Descriptor.content_read
  unfold pass at hpass
  rcases hread : s.fd.read schedule chunkSize with ⟨e | _ | ⟨byte, bytes⟩, fd⟩
  all_goals
    rw [hread] at hpass hcontent
    dsimp only at hpass hcontent
  · split at hpass
    · cases hpass
      refine ⟨⟨?_, hcontent.trans h.content⟩, Descriptor.pending_error hN hread⟩
      rw [(Descriptor.read_error hread).2]
      exact h.total
    · cases hpass
  · cases hpass
  · cases hpass
    have hpending := Descriptor.pending_ok (N := N) hread
    rw [List.length_cons] at hpending
    refine ⟨⟨?_, hcontent.trans h.content⟩, ?_⟩
    · show s.total + _ = fd.consumed.length
      rw [(Descriptor.read_ok hread).2.1, List.length_append, h.total]
    · show fd.pending N < s.fd.pending N
      omega

/-- The loop is left at the end of the file. -/
theorem Counted.done (hchunk : 0 < chunkSize)
    (hschedule : Answer.Interrupts schedule .EINTR) (h : Counted content s)
    {r : Except Exit Nat} (hpass : s.pass schedule chunkSize = .done r) :
    r = .ok content.length := by
  unfold pass at hpass
  rcases hread : s.fd.read schedule chunkSize with ⟨e | _ | ⟨byte, bytes⟩, fd⟩
  all_goals
    rw [hread] at hpass
    dsimp only at hpass
  · split at hpass
    · cases hpass
    · rename_i hother
      exact absurd (hschedule.only _ _ (Descriptor.read_error hread).1) hother
  · cases hpass
    have hend := (Descriptor.read_ok hread).2.2.2.2 rfl hchunk
    rw [h.total, ← h.content, Descriptor.content, hend, List.append_nil]
  · cases hpass

end ReadSyscall

/-- The loop on the file just opened, at most `n` passes. -/
def benchmarkReadSyscall (schedule : Nat → Answer Errno) (chunkSize : Nat)
    (content : List UInt8) (n : Nat) : Progress ReadSyscall (Except Exit Nat) :=
  Loop.run (ReadSyscall.pass schedule chunkSize) n ⟨.opened content, 0⟩

theorem readSyscall_total (hchunk : 0 < chunkSize)
    (hschedule : Answer.Interrupts schedule .EINTR) (content : List UInt8) :
    ∃ n, benchmarkReadSyscall schedule chunkSize content n =
      .done (.ok content.length) := by
  obtain ⟨N, hN⟩ := Descriptor.interrupts_bound hschedule
  have hends : ∃ n r, benchmarkReadSyscall schedule chunkSize content n = .done r ∧
      r = .ok content.length :=
    Loop.exists_done (I := ReadSyscall.Counted content) (fun s => s.fd.pending N)
      (fun _ _ => ReadSyscall.Counted.again hN)
      (fun _ _ hinv hpass => hinv.done hchunk hschedule hpass) ⟨rfl, rfl⟩
  obtain ⟨n, _, hrun, rfl⟩ := hends
  exact ⟨n, hrun⟩

/-! ## `benchmark_my_fread` -/

namespace MyFread

/-- On from a call of `my_fread_bytes`. -/
def next (chunkSize total : Nat) : Except Exit (Fread capacity) →
    Progress (Nat × Fread capacity) (Except Exit Nat)
  | .error exit => .done (.error exit)
  | .ok s =>
      if s.out.length < chunkSize then .done (.ok (total + s.out.length))
      else .again (total + s.out.length, .call s.file chunkSize)

/-- `total` bytes of the file have been returned by earlier calls. -/
def Counted (content : List UInt8) (chunkSize : Nat) (x : Nat × Fread capacity) : Prop :=
  ∃ returned, x.2.Faithful content returned ∧ returned.length = x.1 ∧
    x.2.bytesRequested = chunkSize

/-- Bytes not yet returned and work left in the call under way. -/
def effort (content : List UInt8) (N : Nat) (x : Nat × Fread capacity) : Nat :=
  (content.length - x.1) + x.2.effort N

variable {x y : Nat × Fread capacity}

/-- A pass that goes round again is one of the call under way, or that call
returned all it was asked for. -/
theorem again_cases {total : Nat} {s : Fread capacity}
    (h : Loop.nest (Fread.pass schedule) (next chunkSize) (total, s) = .again y) :
    (∃ t, s.pass schedule = .again t ∧ y = (total, t)) ∨
      ∃ t, s.pass schedule = .done (.ok t) ∧ chunkSize ≤ t.out.length ∧
        y = (total + t.out.length, .call t.file chunkSize) := by
  rcases Loop.nest_eq_again h with ⟨t, hpass, rfl⟩ | ⟨e | t, hpass, hnext⟩
  · exact .inl ⟨t, hpass, rfl⟩
  · cases hnext
  · unfold next at hnext
    dsimp only at hnext
    split at hnext
    · cases hnext
    · rename_i hfull
      cases hnext
      exact .inr ⟨t, hpass, Nat.le_of_not_lt hfull, rfl⟩

theorem Counted.again (hchunk : 0 < chunkSize) (hcap : 0 < capacity)
    (hN : ∀ k e, schedule k = .fails e → k < N) (h : Counted content chunkSize x)
    (hpass : Loop.nest (Fread.pass schedule) (next chunkSize) x = .again y) :
    Counted content chunkSize y ∧ effort content N y < effort content N x := by
  obtain ⟨total, s⟩ := x
  obtain ⟨returned, hfaithful, htotal, hsize⟩ := h
  rcases again_cases hpass with ⟨t, hagain, rfl⟩ | ⟨t, hdone, hfull, rfl⟩
  · refine ⟨⟨returned, hfaithful.again hagain, htotal, ?_⟩, ?_⟩
    · rw [← hsize, ← Fread.again_bytesRequested hagain]
    · exact Nat.add_lt_add_left (Fread.effort_again hN hfaithful hagain) _
  · obtain ⟨ht, _⟩ := hfaithful.done hcap hdone
    have hconsumed : returned ++ t.out ++ t.file.buffered = t.file.fd.consumed :=
      ht.consumed
    refine ⟨⟨returned ++ t.out, ⟨ht.begin_le, ht.end_le, ?_, ht.content, Nat.zero_le _⟩,
      ?_, rfl⟩, ?_⟩
    · show returned ++ t.out ++ [] ++ t.file.buffered = t.file.fd.consumed
      rw [List.append_nil, hconsumed]
    · rw [List.length_append, htotal]
    · have hless := Fread.effort_done (N := N) hdone
      have hcall : (Fread.call t.file chunkSize).effort N = t.effort N := rfl
      have hlen : content.length = returned.length + t.out.length +
          t.file.buffered.length + t.file.fd.unread.length := by
        rw [← ht.content, Descriptor.content, ← hconsumed]
        simp only [List.length_append]
      show (content.length - (total + t.out.length)) + (Fread.call t.file chunkSize).effort N <
        (content.length - total) + s.effort N
      rw [hcall]
      dsimp only at htotal
      omega

/-- The loop is left by a call that returned short. -/
theorem Counted.done (hcap : 0 < capacity)
    (hschedule : Answer.Interrupts schedule .EINTR) (h : Counted content chunkSize x)
    {r : Except Exit Nat}
    (hpass : Loop.nest (Fread.pass schedule) (next chunkSize) x = .done r) :
    r = .ok content.length := by
  obtain ⟨total, s⟩ := x
  obtain ⟨returned, hfaithful, htotal, hsize⟩ := h
  obtain ⟨e | t, hdone, hnext⟩ := Loop.nest_eq_done hpass
  · exact absurd hdone (Fread.pass_ne_error hschedule)
  · obtain ⟨ht, hfinished⟩ := hfaithful.done hcap hdone
    have hrequested : t.bytesRequested = chunkSize :=
      (Fread.done_bytesRequested hdone).trans hsize
    unfold next at hnext
    dsimp only at hnext
    split at hnext
    · rename_i hshort
      cases hnext
      obtain ⟨hdrained, hend⟩ := hfinished (hrequested ▸ hshort)
      rw [← ht.content, Descriptor.content, ← ht.consumed, hend, MyFile.buffered,
        hdrained, Buffer.window_self, List.append_nil, List.append_nil,
        List.length_append, htotal]
    · cases hnext

theorem start_counted (content : List UInt8) (buffer : Buffer UInt8 capacity)
    (chunkSize : Nat) :
    Counted content chunkSize
      (0, .call (myFopenFd (.opened content) buffer) chunkSize) := by
  refine ⟨[], ⟨Nat.le_refl 0, Nat.zero_le _, ?_, Descriptor.content_opened content,
    Nat.zero_le _⟩, rfl, rfl⟩
  show [] ++ [] ++ buffer.window 0 0 = []
  rw [Buffer.window_self]
  rfl

end MyFread

/-- The loop on the file just opened, at most `n` passes of it and of the one
in `my_fread_bytes`. -/
def benchmarkMyFread (schedule : Nat → Answer Errno) (chunkSize : Nat)
    (buffer : Buffer UInt8 capacity) (content : List UInt8) (n : Nat) :
    Progress (Nat × Fread capacity) (Except Exit Nat) :=
  Loop.run (Loop.nest (Fread.pass schedule) (MyFread.next chunkSize)) n
    (0, .call (myFopenFd (.opened content) buffer) chunkSize)

theorem myFread_total (hchunk : 0 < chunkSize) (hcap : 0 < capacity)
    (hschedule : Answer.Interrupts schedule .EINTR) (buffer : Buffer UInt8 capacity)
    (content : List UInt8) :
    ∃ n, benchmarkMyFread schedule chunkSize buffer content n =
      .done (.ok content.length) := by
  obtain ⟨N, hN⟩ := Descriptor.interrupts_bound hschedule
  have hstart := MyFread.start_counted content buffer chunkSize
  have hends : ∃ n r, benchmarkMyFread schedule chunkSize buffer content n = .done r ∧
      r = .ok content.length :=
    Loop.exists_done (MyFread.effort content N)
      (fun _ _ => MyFread.Counted.again hchunk hcap hN)
      (fun _ _ hinv hpass => hinv.done hcap hschedule hpass) hstart
  obtain ⟨n, _, hrun, rfl⟩ := hends
  exact ⟨n, hrun⟩

/-! ## `benchmark_fread_stdio` -/

/-- The C library's input streams: `fread(buffer, 1, count, fp)`, `ferror(fp)`,
the `errno` it left, and the part of the file still to be delivered. -/
structure Stdio (φ : Type*) where
  fread : Nat → φ → List UInt8 × φ
  ferror : φ → Bool
  errno : φ → Errno
  left : φ → List UInt8

/-- `fread` delivers the file in order, at most the number of items asked for,
and fewer only at the end of the file or on error. -/
structure Stdio.Lawful {φ : Type*} (lib : Stdio φ) : Prop where
  delivers : ∀ count fp, (lib.fread count fp).1 ++ lib.left (lib.fread count fp).2 =
    lib.left fp
  length_le : ∀ count fp, (lib.fread count fp).1.length ≤ count
  short : ∀ count fp, (lib.fread count fp).1.length < count →
    lib.left (lib.fread count fp).2 = [] ∨ lib.ferror (lib.fread count fp).2

namespace FreadStdio

variable {φ : Type*} {lib : Stdio φ} {x y : φ × Nat}

/-- One pass of the `for` loop, over `fp` and `total`. -/
def pass (lib : Stdio φ) (chunkSize : Nat) (x : φ × Nat) :
    Progress (φ × Nat) (Except Exit Nat) :=
  let n := (lib.fread chunkSize x.1).1.length
  let fp := (lib.fread chunkSize x.1).2
  let total := x.2 + n
  if n < chunkSize then
    if lib.ferror fp then .done (.error ⟨"fread", lib.errno fp⟩)
    else .done (.ok total)
  else .again (fp, total)

/-- What has been counted and what is left make up the file. -/
def Counted (lib : Stdio φ) (content : List UInt8) (x : φ × Nat) : Prop :=
  x.2 + (lib.left x.1).length = content.length

/-- The total, or the end of the program on an error of the stream. -/
def Returned (lib : Stdio φ) (content : List UInt8) : Except Exit Nat → Prop
  | .ok total => total = content.length
  | .error exit => ∃ fp, lib.ferror fp ∧ exit = ⟨"fread", lib.errno fp⟩

theorem length_left (hlib : lib.Lawful) (count : Nat) (fp : φ) :
    (lib.fread count fp).1.length + (lib.left (lib.fread count fp).2).length =
      (lib.left fp).length := by
  rw [← List.length_append, hlib.delivers]

theorem Counted.again (hlib : lib.Lawful) (hchunk : 0 < chunkSize)
    (h : Counted lib content x) (hpass : pass lib chunkSize x = .again y) :
    Counted lib content y ∧ (lib.left y.1).length < (lib.left x.1).length := by
  have hleft := length_left hlib chunkSize x.1
  unfold pass at hpass
  dsimp only at hpass
  split at hpass
  · split at hpass <;> cases hpass
  · rename_i hfull
    cases hpass
    unfold Counted at h ⊢
    dsimp only at h ⊢
    omega

theorem Counted.done (hlib : lib.Lawful) (h : Counted lib content x)
    {r : Except Exit Nat} (hpass : pass lib chunkSize x = .done r) :
    Returned lib content r := by
  have hleft := length_left hlib chunkSize x.1
  unfold pass at hpass
  dsimp only at hpass
  split at hpass
  · rename_i hshort
    split at hpass
    · rename_i herror
      cases hpass
      exact ⟨_, herror, rfl⟩
    · rename_i herror
      cases hpass
      rcases hlib.short chunkSize x.1 hshort with hend | hend
      · rw [hend, List.length_nil] at hleft
        unfold Counted at h
        show x.2 + (lib.fread chunkSize x.1).1.length = content.length
        omega
      · exact absurd hend herror
  · cases hpass

end FreadStdio

/-- The loop on the stream just opened, at most `n` passes. -/
def benchmarkFreadStdio {φ : Type*} (lib : Stdio φ) (chunkSize : Nat) (fp : φ) (n : Nat) :
    Progress (φ × Nat) (Except Exit Nat) :=
  Loop.run (FreadStdio.pass lib chunkSize) n (fp, 0)

theorem freadStdio_total {φ : Type*} {lib : Stdio φ} (hlib : lib.Lawful)
    (hchunk : 0 < chunkSize) (fp : φ) :
    ∃ n r, benchmarkFreadStdio lib chunkSize fp n = .done r ∧
      FreadStdio.Returned lib (lib.left fp) r :=
  Loop.exists_done (I := FreadStdio.Counted lib (lib.left fp))
    (fun x => (lib.left x.1).length)
    (fun _ _ => FreadStdio.Counted.again hlib hchunk)
    (fun _ _ hinv hpass => hinv.done hlib hpass) (Nat.zero_add _)

/-! ## The three totals -/

/-- Whatever the chunk size, the size of the internal buffer and the short or
interrupted reads, each loop ends with the length of the file as its total;
that of `benchmark_fread_stdio` unless the stream met an error. -/
theorem totals_agree (hchunk : 0 < chunkSize) (hcap : 0 < capacity)
    (hschedule : Answer.Interrupts schedule .EINTR) (content : List UInt8)
    (buffer : Buffer UInt8 capacity) {φ : Type*} {lib : Stdio φ} (hlib : lib.Lawful)
    (fp : φ) (hopened : lib.left fp = content) :
    (∃ n, benchmarkReadSyscall schedule chunkSize content n =
      .done (.ok content.length)) ∧
    (∃ n, benchmarkMyFread schedule chunkSize buffer content n =
      .done (.ok content.length)) ∧
    (∃ n r, benchmarkFreadStdio lib chunkSize fp n = .done r ∧
      FreadStdio.Returned lib content r) ∧
    ((∀ f, lib.ferror f = false) →
      ∃ n, benchmarkFreadStdio lib chunkSize fp n = .done (.ok content.length)) := by
  have hstdio := freadStdio_total hlib hchunk fp
  rw [hopened] at hstdio
  refine ⟨readSyscall_total hchunk hschedule content,
    myFread_total hchunk hcap hschedule buffer content, hstdio, ?_⟩
  intro hhealthy
  obtain ⟨n, r, hrun, hreturned⟩ := hstdio
  rcases r with exit | total
  · obtain ⟨f, herror, _⟩ := hreturned
    rw [hhealthy f] at herror
    cases herror
  · have htotal : total = content.length := hreturned
    exact ⟨n, htotal ▸ hrun⟩

/-- A stream that holds the whole file in memory. -/
def Stdio.memory : Stdio (List UInt8) where
  fread count fp := (fp.take count, fp.drop count)
  ferror _ := false
  errno _ := .other 0
  left fp := fp

theorem Stdio.memory_lawful : Stdio.memory.Lawful where
  delivers count fp := List.take_append_drop count fp
  length_le count fp := List.length_take_le count fp
  short count fp h := by
    have hlen : (fp.take count).length < count := h
    rw [List.length_take] at hlen
    exact .inl (List.drop_eq_nil_of_le (by omega))

/-- Five bytes by twos, through a buffer of three. -/
theorem totals_agree_five :
    (∃ n, benchmarkReadSyscall (.once .EINTR 1 (4 - ·)) 2 [1, 2, 3, 4, 5] n =
      .done (.ok 5)) ∧
    (∃ n, benchmarkMyFread (.once .EINTR 1 (4 - ·)) 2 (.fill 3 0) [1, 2, 3, 4, 5] n =
      .done (.ok 5)) ∧
    ∃ n, benchmarkFreadStdio Stdio.memory 2 [1, 2, 3, 4, 5] n = .done (.ok 5) := by
  have h := totals_agree (by decide : 0 < 2) (by decide : 0 < 3)
    (Answer.once_interrupts Errno.EINTR 1 (4 - ·)) [1, 2, 3, 4, 5] (.fill 3 0)
    Stdio.memory_lawful [1, 2, 3, 4, 5] rfl
  exact ⟨h.1, h.2.1, h.2.2.2 fun _ => rfl⟩

end SysLab.PartA
