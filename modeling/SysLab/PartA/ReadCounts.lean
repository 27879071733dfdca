import SysLab.PartA.ReadBenchmarks

/-!
# How many `read` calls the buffered reader makes

`benchmark_my_fread` again, on a kernel that fills every `read` as far as the file
allows.  `my_fread_bytes` calls `read` only with its buffer drained and more to
deliver, so the calls are those that cut the file into pieces of the size of the
buffer, and one at its end; the size of the requests does not come in.
-/

namespace SysLab.PartA

open SysLab.Foundation
open SysLab.PartB (Errno Exit)

variable {capacity chunkSize : Nat} {schedule : Nat → Answer Errno} {content : List UInt8}

/-- Every `read` hands out all there is, up to `count` bytes. -/
def Fills (schedule : Nat → Answer Errno) (count : Nat) : Prop :=
  ∀ k, ∃ n, schedule k = .upTo n ∧ count ≤ n

/-- What such a `read` does. -/
theorem Fills.read (h : Fills schedule capacity) (hcap : 0 < capacity)
    (d : Descriptor UInt8) :
    d.read schedule capacity = (.ok (d.unread.take capacity),
      ⟨d.consumed ++ d.unread.take capacity, d.unread.drop capacity, d.reads + 1⟩) := by
  obtain ⟨n, hn, hle⟩ := h d.reads
  have hmost : min capacity (max n 1) = capacity := by omega
  rw [Descriptor.read, hn]
  dsimp only
  rw [hmost]

/-- The `read` made in a pass of `my_fread_bytes`, if there is one: how many bytes
it returned. -/
def Fread.reads (schedule : Nat → Answer Errno) (s : Fread capacity) :
    List (Except Errno Nat) :=
  if s.out.length < s.bytesRequested ∧ s.file.available = 0 then
    [(s.file.fd.read schedule capacity).1.map List.length]
  else []

/-- The `read` calls of `benchmark_my_fread` in at most `n` passes, in order. -/
def myFreadReads (schedule : Nat → Answer Errno) (chunkSize : Nat)
    (buffer : Buffer UInt8 capacity) (content : List UInt8) (n : Nat) :
    List (Except Errno Nat) :=
  Loop.trace (fun x => x.2.reads schedule)
    (Loop.nest (Fread.pass schedule) (MyFread.next chunkSize)) n
    (0, .call (myFopenFd (.opened content) buffer) chunkSize)

/-- The benchmark comes to its last pass, which makes the total `total`; the descriptor has
then seen `count` reads. -/
def EndsAfter (schedule : Nat → Answer Errno) (chunkSize : Nat)
    (buffer : Buffer UInt8 capacity) (content : List UInt8) (total count : Nat) : Prop :=
  ∃ n x t, benchmarkMyFread schedule chunkSize buffer content n = .again x ∧
    x.2.pass schedule = .done (.ok t) ∧ total = x.1 + t.out.length ∧ t.file.fd.reads = count

/-- Did the `read` return data? -/
def returnsData : Except Errno Nat → Bool
  | .ok (_ + 1) => true
  | _ => false

/-- Did it return 0? -/
def returnsZero : Except Errno Nat → Bool
  | .ok 0 => true
  | _ => false

namespace Fread

variable {s t : Fread capacity}

/-- A pass without a `read` delivers bytes or ends the call. -/
theorem pass_quiet (schedule : Nat → Answer Errno)
    (h : ¬(s.out.length < s.bytesRequested ∧ s.file.available = 0)) :
    s.pass schedule = .again s.copy ∨
      s.pass schedule = .done (.ok s) ∧ s.bytesRequested ≤ s.out.length := by
  unfold pass
  by_cases hmore : s.out.length < s.bytesRequested
  · have havail : s.file.available ≠ 0 := fun hempty => h ⟨hmore, hempty⟩
    rw [if_pos hmore, if_neg havail]
    exact .inl rfl
  · rw [if_neg hmore]
    exact .inr ⟨rfl, Nat.le_of_not_lt hmore⟩

/-- The `read`s of a pass are those that the descriptor has counted. -/
theorem pass_reads (h : s.pass schedule = .again t ∨ s.pass schedule = .done (.ok t)) :
    t.file.fd.reads = s.file.fd.reads + (s.reads schedule).length := by
  by_cases hread : s.out.length < s.bytesRequested ∧ s.file.available = 0
  · have hcount : (s.file.fd.read schedule capacity).2.reads = s.file.fd.reads + 1 :=
      Descriptor.reads_read
    unfold pass at h
    rw [if_pos hread.1, if_pos hread.2] at h
    rw [reads, if_pos hread, List.length_singleton, ← hcount]
    rcases hanswer : s.file.fd.read schedule capacity with ⟨e | _ | ⟨byte, bytes⟩, fd⟩
    · rw [hanswer] at h
      dsimp only at h
      split at h
      · rcases h with h | h
        · cases h
          rfl
        · cases h
      · rcases h with h | h
        · cases h
        · cases h
    · rw [hanswer] at h
      rcases h with h | h
      · cases h
      · cases h
        rfl
    · rw [hanswer] at h
      rcases h with h | h
      · cases h
        rfl
      · cases h
  · rw [reads, if_neg hread, List.length_nil, Nat.add_zero]
    rcases pass_quiet schedule hread with hpass | ⟨hpass, _⟩
    · rw [hpass] at h
      rcases h with h | h
      · cases h
        rfl
      · cases h
    · rw [hpass] at h
      rcases h with h | h
      · cases h
      · cases h
        rfl

/-- A pass with a `read` at the end of the file ends the call. -/
theorem pass_end (hfills : Fills schedule capacity) (hcap : 0 < capacity)
    (hmore : s.out.length < s.bytesRequested) (hempty : s.file.available = 0)
    (hend : s.file.fd.unread = []) :
    s.reads schedule = [.ok 0] ∧ ∃ fd, s.pass schedule = .done (.ok (s.moved fd)) := by
  have hread := hfills.read hcap s.file.fd
  rw [hend, List.take_nil] at hread
  constructor
  · rw [reads, if_pos ⟨hmore, hempty⟩, hread]
    rfl
  · rw [pass, if_pos hmore, if_pos hempty, hread]
    exact ⟨_, rfl⟩

/-- Before it, the `read` fills the buffer or brings the rest of the file. -/
theorem pass_fill (hfills : Fills schedule capacity) (hcap : 0 < capacity)
    (hmore : s.out.length < s.bytesRequested) (hempty : s.file.available = 0)
    (hleft : s.file.fd.unread ≠ []) :
    s.reads schedule = [.ok (min capacity s.file.fd.unread.length)] ∧
      ∃ t, s.pass schedule = .again t ∧
        t.file.fd.consumed.length =
          s.file.fd.consumed.length + min capacity s.file.fd.unread.length := by
  have hread := hfills.read hcap s.file.fd
  have hpos := List.length_pos_iff.mpr hleft
  have hlen : (s.file.fd.unread.take capacity).length =
      min capacity s.file.fd.unread.length := List.length_take
  constructor
  · rw [reads, if_pos ⟨hmore, hempty⟩, hread]
    show [Except.ok (s.file.fd.unread.take capacity).length] = _
    rw [hlen]
  · obtain ⟨byte, bytes, hbytes⟩ :
        ∃ byte bytes, s.file.fd.unread.take capacity = byte :: bytes :=
      List.exists_cons_of_length_pos (by omega)
    rw [hbytes] at hread
    rw [pass, if_pos hmore, if_pos hempty, hread]
    refine ⟨_, rfl, ?_⟩
    show (s.file.fd.consumed ++ byte :: bytes).length = _
    rw [← hbytes, List.length_append, hlen]

end Fread

/-! ## The count -/

/-- What has been seen when `x` is reached: as many `read` calls with data as it
takes to have consumed what is consumed, and none without. -/
structure Seen (content : List UInt8) (capacity chunkSize : Nat)
    (seen : List (Except Errno Nat)) (x : Nat × Fread capacity) : Prop where
  counted : MyFread.Counted content chunkSize x
  zero : seen.countP returnsZero = 0
  consumed : x.2.file.fd.consumed.length =
    min content.length (seen.countP returnsData * capacity)
  needed : seen.countP returnsData * capacity < content.length + capacity

/-- What has been seen at the end. -/
def AllSeen (content : List UInt8) (capacity : Nat) (seen : List (Except Errno Nat)) : Prop :=
  seen.countP returnsData = (content.length + capacity - 1) / capacity ∧
    seen.countP returnsZero = 1

section Count

variable {seen : List (Except Errno Nat)} {x y : Nat × Fread capacity}

/-- The pieces of a file. -/
theorem ceil_eq {d : Nat} (hall : content.length ≤ d * capacity)
    (hneeded : d * capacity < content.length + capacity) :
    d = (content.length + capacity - 1) / capacity := by
  refine (Nat.div_eq_of_lt_le ?_ ?_).symm
  · omega
  · rw [Nat.succ_mul]
    omega

theorem not_fails (hfills : Fills schedule capacity) (k : Nat) (e : Errno)
    (h : schedule k = .fails e) : k < 0 := by
  obtain ⟨n, hn, _⟩ := hfills k
  rw [hn] at h
  cases h

/-- The descriptor's part of the file, and the rest. -/
theorem length_content (h : MyFread.Counted content chunkSize x) :
    content.length = x.2.file.fd.consumed.length + x.2.file.fd.unread.length := by
  obtain ⟨returned, hfaithful, _⟩ := h
  rw [← hfaithful.content, Descriptor.content, List.length_append]

/-- A pass without a `read` shows nothing. -/
theorem Seen.quiet (h : Seen content capacity chunkSize seen x)
    (hcounted : MyFread.Counted content chunkSize y)
    (hfd : y.2.file.fd = x.2.file.fd)
    (hquiet : ¬(x.2.out.length < x.2.bytesRequested ∧ x.2.file.available = 0)) :
    Seen content capacity chunkSize (seen ++ x.2.reads schedule) y := by
  rw [Fread.reads, if_neg hquiet, List.append_nil]
  exact ⟨hcounted, h.zero, hfd ▸ h.consumed, h.needed⟩

/-- A `read` before the end of the file is one of those needed. -/
theorem Seen.fill (h : Seen content capacity chunkSize seen x) (hcap : 0 < capacity)
    (hcounted : MyFread.Counted content chunkSize y) (hleft : x.2.file.fd.unread ≠ [])
    (hconsumed : y.2.file.fd.consumed.length =
      x.2.file.fd.consumed.length + min capacity x.2.file.fd.unread.length) :
    Seen content capacity chunkSize
      (seen ++ [.ok (min capacity x.2.file.fd.unread.length)]) y := by
  have hlength := length_content h.counted
  have hbefore := h.consumed
  have hpos := List.length_pos_iff.mpr hleft
  obtain ⟨k, hk⟩ : ∃ k, min capacity x.2.file.fd.unread.length = k + 1 :=
    Nat.exists_eq_succ_of_ne_zero (by omega)
  have hdata : (seen ++ [Except.ok (k + 1)]).countP returnsData =
      seen.countP returnsData + 1 := by
    rw [List.countP_append]
    rfl
  rw [hk] at hconsumed ⊢
  refine ⟨hcounted, ?_, ?_, ?_⟩
  · rw [List.countP_append, h.zero]
    rfl
  · rw [hdata, Nat.succ_mul, hconsumed]
    omega
  · rw [hdata, Nat.succ_mul]
    omega

theorem Seen.again (hfills : Fills schedule capacity) (hcap : 0 < capacity)
    (hchunk : 0 < chunkSize) (h : Seen content capacity chunkSize seen x)
    (hbody : Loop.nest (Fread.pass schedule) (MyFread.next chunkSize) x = .again y) :
    Seen content capacity chunkSize (seen ++ x.2.reads schedule) y := by
  obtain ⟨hcounted, _⟩ := h.counted.again hchunk hcap (not_fails hfills) hbody
  obtain ⟨total, s⟩ := x
  obtain ⟨_, _, _, hsize⟩ := h.counted
  have hcases := MyFread.again_cases hbody
  by_cases hread : s.out.length < s.bytesRequested ∧ s.file.available = 0
  · obtain ⟨hmore, hempty⟩ := hread
    by_cases hend : s.file.fd.unread = []
    · obtain ⟨_, fd, hpass⟩ := Fread.pass_end hfills hcap hmore hempty hend
      rcases hcases with ⟨t, hagain, _⟩ | ⟨t, hdone, hfull, _⟩
      · rw [hpass] at hagain
        cases hagain
      · rw [hpass] at hdone
        cases hdone
        dsimp only at hsize
        exact absurd (hsize ▸ hmore) (Nat.not_lt_of_le hfull)
    · obtain ⟨hreads, t, hpass, hconsumed⟩ :=
        Fread.pass_fill hfills hcap hmore hempty hend
      rcases hcases with ⟨t', hagain, rfl⟩ | ⟨t', hdone, _⟩
      · rw [hpass] at hagain
        cases hagain
        rw [hreads]
        exact h.fill hcap hcounted hend hconsumed
      · rw [hpass] at hdone
        cases hdone
  · refine h.quiet hcounted ?_ hread
    rcases Fread.pass_quiet schedule hread with hpass | ⟨hpass, _⟩
    · rcases hcases with ⟨t, hagain, rfl⟩ | ⟨t, hdone, _⟩
      · rw [hpass] at hagain
        cases hagain
        rfl
      · rw [hpass] at hdone
        cases hdone
    · rcases hcases with ⟨t, hagain, _⟩ | ⟨t, hdone, _, rfl⟩
      · rw [hpass] at hagain
        cases hagain
      · rw [hpass] at hdone
        cases hdone
        rfl

/-- The last pass makes the `read` that returns 0. -/
theorem Seen.done (hfills : Fills schedule capacity) (hcap : 0 < capacity)
    (h : Seen content capacity chunkSize seen x) {r : Except Exit Nat}
    (hbody : Loop.nest (Fread.pass schedule) (MyFread.next chunkSize) x = .done r) :
    AllSeen content capacity (seen ++ x.2.reads schedule) := by
  have hlength := length_content h.counted
  obtain ⟨total, s⟩ := x
  obtain ⟨_, _, _, hsize⟩ := h.counted
  obtain ⟨b, hdone, hnext⟩ := Loop.nest_eq_done hbody
  by_cases hread : s.out.length < s.bytesRequested ∧ s.file.available = 0
  · obtain ⟨hmore, hempty⟩ := hread
    by_cases hend : s.file.fd.unread = []
    · obtain ⟨hreads, _⟩ := Fread.pass_end hfills hcap hmore hempty hend
      have hconsumed := h.consumed
      dsimp only at hlength hconsumed ⊢
      rw [hend, List.length_nil] at hlength
      rw [hreads]
      constructor
      · have hdata : (seen ++ [Except.ok 0]).countP returnsData =
            seen.countP returnsData := by
          rw [List.countP_append]
          rfl
        rw [hdata]
        exact ceil_eq (by omega) h.needed
      · rw [List.countP_append, h.zero]
        rfl
    · obtain ⟨_, t, hpass, _⟩ := Fread.pass_fill hfills hcap hmore hempty hend
      rw [hpass] at hdone
      cases hdone
  · rcases Fread.pass_quiet schedule hread with hpass | ⟨hpass, hfull⟩
    · rw [hpass] at hdone
      cases hdone
    · rw [hpass] at hdone
      cases hdone
      dsimp only at hsize
      have hnot : ¬ s.out.length < chunkSize := Nat.not_lt_of_le (hsize ▸ hfull)
      rw [MyFread.next, if_neg hnot] at hnext
      cases hnext

end Count

/-- The `read` calls seen are those made on the descriptor, at every moment and in the last
pass. -/
theorem myFreadReads_length (schedule : Nat → Answer Errno) (chunkSize : Nat)
    (buffer : Buffer UInt8 capacity) (content : List UInt8) (n : Nat) :
    (∀ x, benchmarkMyFread schedule chunkSize buffer content n = .again x →
      (myFreadReads schedule chunkSize buffer content n).length = x.2.file.fd.reads) ∧
    ∀ total, benchmarkMyFread schedule chunkSize buffer content n = .done (.ok total) →
      EndsAfter schedule chunkSize buffer content total
        (myFreadReads schedule chunkSize buffer content n).length := by
  let body : Nat × Fread capacity → Progress (Nat × Fread capacity) (Except Exit Nat) :=
    Loop.nest (Fread.pass schedule) (MyFread.next chunkSize)
  let start : Nat × Fread capacity := (0, .call (myFopenFd (.opened content) buffer) chunkSize)
  have hagain : ∀ (seen : List (Except Errno Nat)) x y,
      Loop.Leads body start x ∧ seen.length = x.2.file.fd.reads → body x = .again y →
      Loop.Leads body start y ∧
        (seen ++ x.2.reads schedule).length = y.2.file.fd.reads := by
    rintro seen ⟨total, s⟩ y ⟨hleads, hseen⟩ hbody
    refine ⟨hleads.trans (.step hbody), ?_⟩
    rw [List.length_append, hseen]
    rcases MyFread.again_cases hbody with ⟨t, hpass, rfl⟩ | ⟨t, hpass, _, rfl⟩
    · exact (Fread.pass_reads (.inl hpass)).symm
    · exact (Fread.pass_reads (.inr hpass)).symm
  have hdone : ∀ (seen : List (Except Errno Nat)) x r,
      Loop.Leads body start x ∧ seen.length = x.2.file.fd.reads → body x = .done r →
      ∀ total, r = .ok total → EndsAfter schedule chunkSize buffer content total
        (seen ++ x.2.reads schedule).length := by
    rintro seen ⟨before, s⟩ r ⟨⟨m, hrun⟩, hseen⟩ hbody total rfl
    obtain ⟨e | t, hpass, hnext⟩ := Loop.nest_eq_done hbody
    · cases hnext
    · have htotal : total = before + t.out.length := by
        unfold MyFread.next at hnext
        dsimp only at hnext
        split at hnext
        · cases hnext
          rfl
        · cases hnext
      refine ⟨m, _, t, hrun, hpass, htotal, ?_⟩
      rw [List.length_append, hseen]
      exact Fread.pass_reads (.inr hpass)
  have hstart : Loop.Leads body start start ∧
      ([] : List (Except Errno Nat)).length = start.2.file.fd.reads := ⟨.refl body start, rfl⟩
  obtain ⟨hmoment, hend⟩ := Loop.trace_inv
    (Q := fun seen r => ∀ total, r = .ok total →
      EndsAfter schedule chunkSize buffer content total seen.length) hagain hdone n hstart
  exact ⟨fun x hrun => (hmoment x hrun).2, fun total hrun => hend _ hrun total rfl⟩

/-- The number of `read` calls does not depend on the size of the requests.  On a
kernel that fills each `read` as far as the file allows, `benchmark_my_fread` comes
to its end, and then it has made as many `read` calls with data as buffers are
needed for the file, and one that returned 0, whatever the chunk size; and these are all
the calls that the descriptor has seen. -/
theorem myFread_reads (hfills : Fills schedule capacity) (hcap : 0 < capacity)
    (hchunk : 0 < chunkSize) (buffer : Buffer UInt8 capacity) (content : List UInt8) :
    (∃ n, benchmarkMyFread schedule chunkSize buffer content n =
      .done (.ok content.length)) ∧
    ∀ n r, benchmarkMyFread schedule chunkSize buffer content n = .done r →
      (myFreadReads schedule chunkSize buffer content n).countP returnsData =
        (content.length + capacity - 1) / capacity ∧
      (myFreadReads schedule chunkSize buffer content n).countP returnsZero = 1 ∧
      ∀ total, r = .ok total → EndsAfter schedule chunkSize buffer content total
        (myFreadReads schedule chunkSize buffer content n).length := by
  have hschedule : Answer.Interrupts schedule .EINTR := by
    constructor
    · intro k e hfails
      exact absurd (not_fails hfills k e hfails) (Nat.not_lt_zero k)
    · refine Set.Finite.subset Set.finite_empty fun k hfails => ?_
      exact absurd (not_fails hfills k _ hfails) (Nat.not_lt_zero k)
  refine ⟨myFread_total hchunk hcap hschedule buffer content, fun n r hrun => ?_⟩
  have hstart : Seen content capacity chunkSize []
      (0, .call (myFopenFd (.opened content) buffer) chunkSize) := by
    refine ⟨MyFread.start_counted content buffer chunkSize, rfl, ?_, ?_⟩
    · show 0 = min content.length (0 * capacity)
      omega
    · show 0 * capacity < content.length + capacity
      omega
  have hseen : AllSeen content capacity
      ([] ++ myFreadReads schedule chunkSize buffer content n) :=
    (Loop.trace_inv (Q := fun seen _ => AllSeen content capacity seen)
      (fun _ _ _ h hbody => Seen.again hfills hcap hchunk h hbody)
      (fun _ _ _ h hbody => Seen.done hfills hcap h hbody) n hstart).2 r hrun
  rw [List.nil_append] at hseen
  refine ⟨hseen.1, hseen.2, fun total htotal => ?_⟩
  exact (myFreadReads_length schedule chunkSize buffer content n).2 total (htotal ▸ hrun)

/-- Seven bytes through a buffer of three, by fives. -/
theorem myFread_reads_seven :
    ∃ n, benchmarkMyFread (fun _ => .upTo 3) 5 (.fill 3 0) [1, 2, 3, 4, 5, 6, 7] n =
        .done (.ok 7) ∧
      (myFreadReads (fun _ => .upTo 3) 5 (.fill 3 0) [1, 2, 3, 4, 5, 6, 7] n).countP
        returnsData = 3 := by
  have hfills : Fills (fun _ => .upTo 3) 3 := fun _ => ⟨3, rfl, Nat.le_refl 3⟩
  have h := myFread_reads hfills (by decide : 0 < 3) (by decide : 0 < 5) (.fill 3 0)
    [1, 2, 3, 4, 5, 6, 7]
  obtain ⟨n, hrun⟩ := h.1
  exact ⟨n, hrun, (h.2 n _ hrun).1⟩

end SysLab.PartA
