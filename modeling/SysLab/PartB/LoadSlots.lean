import SysLab.PartB.LoadRun

/-!
# Every request has its own latency

In integers of any size the elements of `latencies` are divided among the threads, and
when all of them have ended each element has been stored into once.
-/

namespace SysLab.PartB.LoadClient

open SysLab.Foundation

variable {a : Arithmetic} {opts : Options} {C R T n : Nat} {s : State}

/-- `latency_offset + conn_index * requests_per_connection + req` for a thread, one of
its connections and a request. -/
def slot (C R n : Nat) (x : Nat × Nat × Nat) : Nat :=
  start (share C n) x.1 * R + x.2.1 * R + x.2.2

theorem bijOn_slot (hn : 0 < n) :
    Set.BijOn (slot C R n) {x | x.1 < n ∧ x.2.1 < share C n x.1 ∧ x.2.2 < R}
      (Set.Iio (C * R)) := by
  have hcell : slot C R n = cell (share C n) R := by
    funext x
    rw [slot, cell, Nat.add_mul]
  have hbij := bijOn_cell (share C n) R n
  rwa [← hcell, start_share hn] at hbij

/-! ## The stores -/

/-- What a thread has stored into is its own. -/
theorem Inv.store_lt (h : Inv a opts C R n s) (hsized : Sized a opts C R n) {i k : Nat}
    (hmem : (i, k) ∈ s.stores) :
    i < n ∧ ∃ p < share C n i * R, start (share C n) i * R + p = k := by
  obtain ⟨arg, hget, p, hp, hk⟩ := (h.stores i k).mp hmem
  have harg := h.workers i arg hget
  have hle := completed_le harg.thread
  rw [config_requests hsized] at hle
  exact ⟨harg.lt, p, Nat.lt_of_lt_of_le hp hle, hk⟩

/-- No element is stored into twice. -/
theorem Inv.slots_nodup (h : Inv a opts C R n s) (hsized : Sized a opts C R n) :
    (s.stores.map Prod.snd).Nodup := by
  refine h.nodup.map_on ?_
  rintro ⟨i, k⟩ hmem ⟨i', k'⟩ hmem' rfl
  obtain ⟨_, p, hp, hk⟩ := h.store_lt hsized hmem
  obtain ⟨_, p', hp', hk'⟩ := h.store_lt hsized hmem'
  have hsame : start (share C n) i * R + p = start (share C n) i' * R + p' :=
    hk.trans hk'.symm
  rw [← start_mul, ← start_mul] at hsame
  obtain ⟨rfl, _⟩ := segment_unique (fun i => share C n i * R) hp hp' hsame
  rfl

/-- When the threads have ended every element has been stored into. -/
theorem Inv.slots_perm (h : Inv a opts C R n s) (hsized : Sized a opts C R n)
    (hended : ∀ i < n, Returned s i) :
    (s.stores.map Prod.snd).Perm (List.range (C * R)) := by
  refine (List.perm_ext_iff_of_nodup (h.slots_nodup hsized) List.nodup_range).mpr ?_
  intro k
  rw [List.mem_range, List.mem_map]
  have htotal : start (fun i => share C n i * R) n = C * R := by
    rw [start_mul, start_share hsized.pos]
  constructor
  · rintro ⟨⟨i, k⟩, hmem, rfl⟩
    obtain ⟨hi, p, hp, hk⟩ := h.store_lt hsized hmem
    have hsegment := segment_le (fun i => share C n i * R) hi
    rw [start_mul, htotal] at hsegment
    dsimp only at hsegment ⊢
    omega
  · intro hk
    rw [← htotal] at hk
    obtain ⟨i, hi, p, hp, hk⟩ := exists_segment hk
    rw [start_mul] at hk
    obtain ⟨arg, bytes, hget, hreturned⟩ := hended i hi
    have hcompleted := (completed_returned (h.workers i arg hget).thread hreturned).1
    rw [config_requests hsized] at hcompleted
    exact ⟨(i, k), (h.stores i k).mpr ⟨arg, hget, p, hcompleted ▸ hp, hk⟩, rfl⟩

/-- A store of a thread is for one of its requests. -/
theorem Inv.store_slot (h : Inv a opts C R n s) (hsized : Sized a opts C R n) {i k : Nat}
    (hmem : (i, k) ∈ s.stores) :
    ∃ j < share C n i, ∃ r < R, slot C R n (i, j, r) = k := by
  obtain ⟨_, p, hp, hk⟩ := h.store_lt hsized hmem
  have hR : 0 < R := Nat.pos_of_ne_zero fun hzero => by
    rw [hzero, Nat.mul_zero] at hp
    exact Nat.not_lt_zero p hp
  refine ⟨p / R, (Nat.div_lt_iff_lt_mul hR).mpr hp, p % R, Nat.mod_lt p hR, ?_⟩
  show start (share C n) i * R + p / R * R + p % R = k
  rw [Nat.add_assoc, Nat.mul_comm (p / R), Nat.div_add_mod, hk]

/-- What `main` reports is the P99 of the latencies that have been stored. -/
theorem reported_p99 (hsized : Sized a opts C R n) (hs : (system a opts).Reachable s)
    {totalBytes : Nat} {index : Int} (hpc : s.pc = .reported totalBytes index)
    (qsort : (UInt64 → UInt64 → Int) → List UInt64 → List UInt64) :
    (qsort cmpU64 s.latencies)[index.toNat]? = p99 qsort s.latencies := by
  obtain ⟨_, _, _, hindex, _, _, hlatencies⟩ := (reachable_inv hsized hs).reported hpc
  rw [p99, hlatencies, hindex, Int.toNat_natCast]

/-! ## All integers -/

theorem sized_exact (hconnections : opts.connections = C)
    (hrequests : opts.requestsPerConnection = R) (hthreads : opts.threads = T)
    (hC : 1 ≤ C) (hT : 1 ≤ T) (hpayload : 0 < opts.payloadSize) :
    Sized exact opts C R (min C T) where
  connections := hconnections
  requests := hrequests
  threads := by
    rw [threadCount, hconnections, hthreads]
    split <;> omega
  pos := by omega
  le := Nat.min_le_left C T
  payload := hpayload
  sound _ _ h := (Option.some.inj h).symm
  int_connections _ _ _ := rfl
  int_requests _ _ _ := rfl

/-- The division of the work is exact.  Each of the `min C T` threads has a connection,
none two more than another, and together they have `C`; threads, connections and
requests correspond one to one to the elements of `latencies`.  Some run comes to its
end, and in every run no behaviour is undefined, no element is stored into twice, and a
thread stores only into the elements of its own requests; when all threads have ended
every element has been stored into, and the total of their bytes is that of the
requests; and what `main` then reports is the P99 of those stored. -/
theorem work_divided (hconnections : opts.connections = C)
    (hrequests : opts.requestsPerConnection = R) (hthreads : opts.threads = T)
    (hC : 1 ≤ C) (hR : 1 ≤ R) (hT : 1 ≤ T) (hpayload : 0 < opts.payloadSize) :
    (∀ i < min C T, 1 ≤ share C (min C T) i ∧
      ∀ j < min C T, share C (min C T) i ≤ share C (min C T) j + 1) ∧
    ∑ i ∈ Finset.range (min C T), share C (min C T) i = C ∧
    Set.BijOn (slot C R (min C T))
      {x | x.1 < min C T ∧ x.2.1 < share C (min C T) x.1 ∧ x.2.2 < R} (Set.Iio (C * R)) ∧
    (∃ s totalBytes, (system exact opts).Reachable s ∧ s.pc = .joined totalBytes) ∧
    ∀ s : State, (system exact opts).Reachable s →
      (∀ why, s.pc ≠ .undefined why) ∧
      (∀ i (arg : WorkerArg), s.workers[i]? = some arg → i < min C T ∧
        arg.connections = share C (min C T) i ∧
        arg.latencyOffset = (slot C R (min C T) (i, 0, 0) : Nat)) ∧
      (s.stores.map Prod.snd).Nodup ∧
      (∀ i k, (i, k) ∈ s.stores → ∃ j < share C (min C T) i, ∃ r < R,
        slot C R (min C T) (i, j, r) = k) ∧
      ((∀ i < min C T, Returned s i) →
        (s.stores.map Prod.snd).Perm (List.range (C * R))) ∧
      (∀ totalBytes, (s.pc = .joined totalBytes ∨
          ∃ index, s.pc = .reported totalBytes index) →
        (∀ i < min C T, Returned s i) ∧
          totalBytes = 2 * opts.payloadSize * C * R % 2 ^ 64) ∧
      ∀ totalBytes index qsort, s.pc = .reported totalBytes index →
        (qsort cmpU64 s.latencies)[index.toNat]? = p99 qsort s.latencies := by
  have hsized := sized_exact hconnections hrequests hthreads hC hT hpayload
  refine ⟨fun i _ => ⟨share_pos hsized.pos hsized.le i, fun j _ => share_le_succ ..⟩,
    start_share hsized.pos C, bijOn_slot hsized.pos, exists_run hsized rfl rfl rfl,
    fun s hs => ?_⟩
  have hinv := reachable_inv hsized hs
  refine ⟨?_, ?_, hinv.slots_nodup hsized, fun i k => hinv.store_slot hsized,
    hinv.slots_perm hsized, ?_,
    fun _ _ qsort hpc => reported_p99 hsized hs hpc qsort⟩
  · intro why hpc
    rcases (hinv.undefined hpc).2 with hnone | hzero
    · cases hnone
    · have hpos : 0 < C * R := Nat.mul_pos hC hR
      omega
  · intro i arg hget
    have harg := hinv.workers i arg hget
    refine ⟨harg.lt, harg.connections, ?_⟩
    rw [harg.offset, slot, Nat.zero_mul]
    rfl
  · intro totalBytes hpc
    have hbytes : bytesFor opts.config (C * R) = 2 * opts.payloadSize * C * R % 2 ^ 64 := by
      rw [bytesFor, Nat.mul_assoc _ C R]
      rfl
    rcases hpc with hpc | ⟨index, hpc⟩
    · obtain ⟨_, htotal, hended, _⟩ := hinv.joined hpc
      exact ⟨hended, htotal.trans hbytes⟩
    · obtain ⟨_, htotal, hended, _⟩ := hinv.reported hpc
      exact ⟨hended, htotal.trans hbytes⟩

/-- Seven connections for three threads. -/
theorem work_divided_three :
    (List.range 3).map (share 7 3) = [3, 2, 2] ∧
      ∀ s : State, (system exact ⟨"127.0.0.1", 9000, 7, 5, 16, 3⟩).Reachable s →
        ∀ totalBytes, s.pc = .joined totalBytes →
          (s.stores.map Prod.snd).Perm (List.range 35) ∧ totalBytes = 1120 := by
  refine ⟨rfl, fun s hs totalBytes hpc => ?_⟩
  have hconnections : (⟨"127.0.0.1", 9000, 7, 5, 16, 3⟩ : Options).connections = (7 : Nat) :=
    rfl
  obtain ⟨_, _, _, _, hrun⟩ := work_divided (R := 5) (T := 3) hconnections rfl rfl (by decide)
    (by decide) (by decide) (by decide)
  obtain ⟨_, _, _, _, hperm, htotal, _⟩ := hrun s hs
  obtain ⟨hended, hbytes⟩ := htotal totalBytes (.inl hpc)
  exact ⟨hperm hended, hbytes⟩

end SysLab.PartB.LoadClient
