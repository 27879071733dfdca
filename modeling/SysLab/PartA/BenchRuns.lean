import SysLab.PartA.BenchMain

/-!
# Runs of `parta_bench`

The five loops of `main` go through a list of calls (`Config.plan`).  Whatever kernel,
allocator and library answer, a row has been printed for each call up to the one that
ended the process, with the right total; the CSV file has these rows unless a write to it
has failed; and no other file has been touched but the temporary files, which are gone.
When nothing fails, all the rows are there.
-/

namespace SysLab.PartA

open SysLab.Foundation

/-! ## What `parse_args` returns -/

/-- There are sizes, as many as `size_count` says, each a `size_t` and not 0; the two byte
counts may be 0 for want of a value. -/
structure Config.Sized (config : Config) : Prop where
  nonempty : config.sizes ≠ []
  sizeCount : config.sizeCount = config.sizes.length
  sizes : ∀ size ∈ config.sizes, IsSize size
  myfreadBufferSize : config.myfreadBufferSize ≤ sizeMax
  writeTotalBytes : config.writeTotalBytes ≤ sizeMax

theorem isSize_of_parseSize {text : List Char} {size : Nat} (h : parseSize text = .ok size) :
    IsSize size := by
  obtain ⟨_, hread, hpos⟩ := (parseSize_returns text size).mp h
  have hle := strtoul_le text
  rw [hread] at hle
  exact ⟨hpos, hle⟩

theorem isSize_of_parseSizesCsv {csv : List Char} {sizes : List Nat}
    (h : parseSizesCsv csv = .ok sizes) : ∀ size ∈ sizes, IsSize size := by
  obtain ⟨hall, _⟩ := SizesCsv.parseSizesCsv_eq_ok.mp h
  have hboth : List.Forall₂ (fun size token => IsSize size ∧ SizesCsv.Accepts token size) sizes
      (strtok csv) := hall.flip.imp fun size token hsize => ⟨isSize_of_parseSize hsize, hsize⟩
  exact ((List.forall₂_and_left sizes (strtok csv)).mp hboth).1

theorem Config.Sized.set {config config' : Config} {option : ValueOption} {value : String}
    (h : config.Sized) (hset : option.set config value = .ok config') : config'.Sized := by
  cases option with
  | input =>
      cases hset
      exact { h with }
  | output =>
      cases hset
      exact { h with }
  | writeDir =>
      cases hset
      exact { h with }
  | sizes =>
      unfold ValueOption.set at hset
      dsimp only at hset
      split at hset
      · cases hset
      · next values hvalues =>
          cases hset
          exact
            { h with
              nonempty := (SizesCsv.parseSizesCsv_eq_ok.mp hvalues).2
              sizeCount := rfl
              sizes := isSize_of_parseSizesCsv hvalues }
  | myfreadBuffer =>
      unfold ValueOption.set at hset
      dsimp only at hset
      split at hset
      · cases hset
      · next size hsize =>
          cases hset
          exact { h with myfreadBufferSize := (isSize_of_parseSize hsize).2 }
  | writeTotalBytes =>
      unfold ValueOption.set at hset
      dsimp only at hset
      split at hset
      · cases hset
      · next size hsize =>
          cases hset
          exact { h with writeTotalBytes := (isSize_of_parseSize hsize).2 }

theorem Config.Sized.parseLoop {args : List String} {config config' : Config}
    (h : config.Sized) (hloop : parseLoop args config = .ok config') : config'.Sized := by
  induction args, config using parseLoop.induct with
  | case1 config =>
      cases hloop
      exact h
  | case2 arg config option hoption =>
      rw [parseLoop.eq_def] at hloop
      simp only [hoption] at hloop
      cases hloop
  | case3 arg config option value rest hoption stop hset =>
      rw [parseLoop.eq_def] at hloop
      simp only [hset, hoption] at hloop
      cases hloop
  | case4 arg config option value rest hoption config₁ hset ih =>
      rw [parseLoop.eq_def] at hloop
      simp only [hset, hoption] at hloop
      exact ih (h.set hset) hloop
  | case5 config rest hoption ih =>
      rw [parseLoop.eq_def] at hloop
      simp only [hoption, if_true] at hloop
      exact ih { h with } hloop
  | case6 arg config rest hoption hquick hhelp =>
      rw [parseLoop.eq_def] at hloop
      simp only [hoption, if_neg hquick, if_pos hhelp] at hloop
      cases hloop
  | case7 arg config rest hoption hquick hhelp =>
      rw [parseLoop.eq_def] at hloop
      simp only [hoption, if_neg hquick, if_neg hhelp] at hloop
      cases hloop

theorem initialConfig_sized : initialConfig.Sized where
  nonempty := List.cons_ne_nil _ _
  sizeCount := rfl
  sizes := by
    have hall : ∀ size ∈ kDefaultSizes, 1 ≤ size ∧ size ≤ sizeMax := by decide
    exact hall
  myfreadBufferSize := Nat.zero_le _
  writeTotalBytes := Nat.zero_le _

theorem Config.Sized.applyQuick {config : Config} (h : config.Sized) :
    (applyQuick config).Sized := by
  have hquick : ∀ size ∈ kQuickSizes, 1 ≤ size ∧ size ≤ sizeMax := by decide
  have hsizes : ∀ c : Config, c.Sized → (setQuickSizes c).Sized := fun c hc =>
    { hc with nonempty := List.cons_ne_nil _ _, sizeCount := rfl, sizes := hquick }
  have hbuffer : ∀ c : Config, c.Sized → ({ c with myfreadBufferSize := 4096 } : Config).Sized :=
    fun c hc => { hc with myfreadBufferSize := show 4096 ≤ sizeMax by decide }
  have htotal : ∀ c : Config, c.Sized →
      ({ c with writeTotalBytes := kQuickWriteTotalBytes } : Config).Sized :=
    fun c hc => { hc with writeTotalBytes := show kQuickWriteTotalBytes ≤ sizeMax by decide }
  unfold PartA.applyQuick
  dsimp only
  split
  · split
    · split
      · exact h
      · exact htotal _ h
    · split
      · exact hbuffer _ h
      · exact htotal _ (hbuffer _ h)
  · split
    · split
      · exact hsizes _ h
      · exact htotal _ (hsizes _ h)
    · split
      · exact hbuffer _ (hsizes _ h)
      · exact htotal _ (hbuffer _ (hsizes _ h))

theorem parseArgs_sized {args : List String} {config : Config}
    (h : parseArgs args = .ok config) : config.Sized := by
  unfold parseArgs at h
  split at h
  · cases h
  · next config' hloop =>
      have hsized := initialConfig_sized.parseLoop hloop
      unfold finishArgs at h
      split at h
      · cases h
      · split at h
        · cases h
          exact hsized.applyQuick
        · cases h
          exact hsized

/-! ## The calls -/

namespace Config

/-- A loop over the sizes from `i` on. -/
def calls (config : Config) (call : Nat → Call) (i : Nat) : List Call :=
  (config.sizes.drop i).map call

/-- One that leaves out those below 32. -/
def writes (config : Config) (useOsync : Bool) (i : Nat) : List Call :=
  ((config.sizes.drop i).filter fun size => 32 ≤ size).map (config.writeCall useOsync)

/-- The calls from `pc` on. -/
def todo (config : Config) (pc : Pc) : List Call :=
  let writeOn := fun i => config.writes true i
  let writeOff := fun i => config.writes false i ++ writeOn 0
  let myFread := fun i => config.calls config.myFreadCall i ++ writeOff 0
  let fread := fun i => config.calls config.freadCall i ++ myFread 0
  let fgetc := config.getcCall true :: fread 0
  let getc := config.getcCall false :: fgetc
  match pc with
  | .read i => config.calls config.readCall i ++ getc
  | .getc => getc
  | .fgetc => fgetc
  | .fread i => fread i
  | .myFread i => myFread i
  | .writeOff i => writeOff i
  | .writeOn i => writeOn i

/-- All of them. -/
def plan (config : Config) : List Call := config.todo (.read 0)

/-- How far it is from `pc` to the end. -/
def rank (config : Config) : Pc → Nat
  | .read i => 6 * (config.sizes.length + 1) + (config.sizes.length - i)
  | .getc => 5 * (config.sizes.length + 1) + config.sizes.length
  | .fgetc => 4 * (config.sizes.length + 1) + config.sizes.length
  | .fread i => 3 * (config.sizes.length + 1) + (config.sizes.length - i)
  | .myFread i => 2 * (config.sizes.length + 1) + (config.sizes.length - i)
  | .writeOff i => (config.sizes.length + 1) + (config.sizes.length - i)
  | .writeOn i => config.sizes.length - i

variable {config : Config}

/-- At the head of a loop there is a size left, or none. -/
theorem Sized.forSizes (h : config.Sized) (i : Nat) (body : Nat → Turn) (past : Turn) :
    (∃ size, i < config.sizes.length ∧ config.sizes.drop i = size :: config.sizes.drop (i + 1) ∧
      config.forSizes i body past = body size) ∨
    config.sizes.drop i = [] ∧ config.forSizes i body past = past := by
  by_cases hi : i < config.sizes.length
  · refine .inl ⟨config.sizes[i], hi, List.drop_eq_getElem_cons hi, ?_⟩
    rw [Config.forSizes, h.sizeCount, if_pos hi, List.getElem?_eq_getElem hi]
  · refine .inr ⟨List.drop_eq_nil_of_le (Nat.le_of_not_lt hi), ?_⟩
    rw [Config.forSizes, h.sizeCount, if_neg hi]

/-- What a statement does to the calls still to be made. -/
inductive Turned (config : Config) (pc : Pc) : Turn → Prop
  | call {call : Call} : config.todo pc = call :: config.todo pc.next →
      config.rank pc.next < config.rank pc → Turned config pc (.call call)
  | goto {pc' : Pc} : config.todo pc' = config.todo pc → config.rank pc' < config.rank pc →
      Turned config pc (.goto pc')
  | finish : config.todo pc = [] → Turned config pc .finish

/-- A loop that makes a call for each size. -/
theorem Sized.turned_calls (h : config.Sized) (past : Pc) {i : Nat} {pc : Pc} {call : Nat → Call}
    (hturn : config.turn pc = config.forSizes i (fun size => .call (call size)) (.goto past))
    (htodo : config.todo pc = config.calls call i ++ config.todo past)
    (hnext : config.todo pc.next = config.calls call (i + 1) ++ config.todo past)
    (hless : i < config.sizes.length → config.rank pc.next < config.rank pc)
    (hpast : config.rank past < config.rank pc) : Turned config pc (config.turn pc) := by
  rcases h.forSizes i (fun size => .call (call size)) (.goto past) with
    ⟨size, hi, hdrop, heq⟩ | ⟨hdrop, heq⟩
  · rw [hturn, heq]
    refine .call ?_ (hless hi)
    rw [htodo, hnext, calls, hdrop]
    rfl
  · rw [hturn, heq]
    refine .goto ?_ hpast
    rw [htodo, calls, hdrop]
    rfl

/-- A loop that makes one for each size from 32 on. -/
theorem Sized.turned_writes (h : config.Sized) (rest : List Call) {i : Nat} {pc : Pc}
    {past : Turn} {useOsync : Bool}
    (hturn : config.turn pc = config.forSizes i
      (fun size => if size < 32 then .goto pc.next else .call (config.writeCall useOsync size))
      past)
    (htodo : config.todo pc = config.writes useOsync i ++ rest)
    (hnext : config.todo pc.next = config.writes useOsync (i + 1) ++ rest)
    (hless : i < config.sizes.length → config.rank pc.next < config.rank pc)
    (hpast : config.todo pc = rest → Turned config pc past) :
    Turned config pc (config.turn pc) := by
  rcases h.forSizes i (fun size => if size < 32 then .goto pc.next
    else .call (config.writeCall useOsync size)) past with ⟨size, hi, hdrop, heq⟩ | ⟨hdrop, heq⟩
  · rw [hturn, heq]
    split
    · next hsmall =>
        refine .goto ?_ (hless hi)
        rw [htodo, hnext, writes, writes, hdrop, List.filter_cons_of_neg (by simpa using hsmall)]
    · next hlarge =>
        refine .call ?_ (hless hi)
        rw [htodo, hnext, writes, writes, hdrop,
          List.filter_cons_of_pos (by simpa using hlarge)]
        rfl
  · rw [hturn, heq]
    refine hpast ?_
    rw [htodo, writes, hdrop]
    rfl

theorem Sized.turned (h : config.Sized) (pc : Pc) : Turned config pc (config.turn pc) := by
  cases pc with
  | read i =>
      refine h.turned_calls .getc rfl rfl rfl (fun hi => ?_) ?_
      · simp only [Pc.next, rank]
        omega
      · simp only [rank]
        omega
  | getc =>
      refine .call rfl ?_
      simp only [Pc.next, rank]
      omega
  | fgetc =>
      refine .call rfl ?_
      simp only [Pc.next, rank]
      omega
  | fread i =>
      refine h.turned_calls (.myFread 0) rfl rfl rfl (fun hi => ?_) ?_
      · simp only [Pc.next, rank]
        omega
      · simp only [rank]
        omega
  | myFread i =>
      refine h.turned_calls (.writeOff 0) rfl rfl rfl (fun hi => ?_) ?_
      · simp only [Pc.next, rank]
        omega
      · simp only [rank]
        omega
  | writeOff i =>
      refine h.turned_writes (config.writes true 0) rfl rfl rfl (fun hi => ?_)
        (fun htodo => .goto htodo.symm ?_)
      · simp only [Pc.next, rank]
        omega
      · simp only [rank]
        omega
  | writeOn i =>
      refine h.turned_writes [] rfl (List.append_nil _).symm (List.append_nil _).symm
        (fun hi => ?_) (fun htodo => .finish htodo)
      simp only [Pc.next, rank]
      omega

/-- The sizes of each call are sizes. -/
theorem Sized.plan (h : config.Sized) {call : Call} (hcall : call ∈ config.plan) :
    call.Sized := by
  have hbuffer : IsSize config.internalBufferSize := by
    unfold internalBufferSize
    split
    · exact ⟨by decide, by decide⟩
    · next hne => exact ⟨Nat.pos_of_ne_zero hne, h.myfreadBufferSize⟩
  have htotal : IsSize config.totalBytes := by
    unfold totalBytes
    split
    · exact ⟨by decide, by decide⟩
    · next hne => exact ⟨Nat.pos_of_ne_zero hne, h.writeTotalBytes⟩
  have hwrites : ∀ useOsync, call ∈ config.writes useOsync 0 → call.Sized := by
    intro useOsync hmem
    obtain ⟨size, hsize, rfl⟩ := List.mem_map.mp hmem
    exact ⟨h.sizes size (List.mem_filter.mp hsize).1, htotal⟩
  simp only [Config.plan, todo, List.mem_append, List.mem_cons] at hcall
  rcases hcall with hread | rfl | rfl | hfread | hmyFread | hoff | hon
  · obtain ⟨size, hsize, rfl⟩ := List.mem_map.mp hread
    exact h.sizes size hsize
  · exact trivial
  · exact trivial
  · obtain ⟨size, hsize, rfl⟩ := List.mem_map.mp hfread
    exact h.sizes size hsize
  · obtain ⟨size, hsize, rfl⟩ := List.mem_map.mp hmyFread
    exact ⟨h.sizes size hsize, hbuffer⟩
  · exact hwrites false hoff
  · exact hwrites true hon

/-- The file a call reads. -/
theorem plan_input {call : Call} (hcall : call ∈ config.plan) {path : String}
    (hpath : call.input = some path) : path = config.input := by
  have hwrites : ∀ useOsync, call ∈ config.writes useOsync 0 → path = config.input := by
    intro useOsync hmem
    obtain ⟨size, _, rfl⟩ := List.mem_map.mp hmem
    cases hpath
  simp only [Config.plan, todo, List.mem_append, List.mem_cons] at hcall
  rcases hcall with hread | rfl | rfl | hfread | hmyFread | hoff | hon
  · obtain ⟨size, _, rfl⟩ := List.mem_map.mp hread
    cases hpath
    rfl
  · cases hpath
    rfl
  · cases hpath
    rfl
  · obtain ⟨size, _, rfl⟩ := List.mem_map.mp hfread
    cases hpath
    rfl
  · obtain ⟨size, _, rfl⟩ := List.mem_map.mp hmyFread
    cases hpath
    rfl
  · exact hwrites false hoff
  · exact hwrites true hon

/-- The input, the CSV file and the temporary files are different files. -/
structure Apart (config : Config) : Prop where
  input : config.input ≠ config.outputPath
  temp : ∀ call ∈ config.plan, ∀ path, call.temp = some path →
    path ≠ config.input ∧ path ≠ config.outputPath

end Config

/-! ## What a run leaves behind -/

section Runs

variable {φ : Type*} {lib : CharStdio φ} {env : ProgramEnv φ} {config : Config}
  {files : Files} {done : List Call} {s t : Main φ}

/-- The rows that calls should have. -/
def results (env : ProgramEnv φ) (files : Files) (calls : List Call) : List Row :=
  calls.mapIdx fun i call => call.row (call.total files) (env.call i).timing

/-- The calls `done` have returned. -/
structure Main.Inv (lib : CharStdio φ) (env : ProgramEnv φ) (config : Config) (files : Files)
    (done : List Call) (s : Main φ) : Prop where
  plan : config.plan = done ++ config.todo s.pc
  rows : s.rows = results env files done
  printed : s.csv.Printed (asciiBytes (csvText s.rows))
  csvFile : s.files config.outputPath = some s.csv.file
  kept : ∀ path, path ≠ config.outputPath → s.files path = files path ∨
    s.files path = none ∧ ∃ call ∈ done, call.temp = some path
  removed : ∀ call ∈ done, ∀ path, call.temp = some path → s.files path = none
  running : ∀ r, s.running = some r → ∃ call, config.turn s.pc = .call call ∧
    Doing lib s.files call r

/-- The calls of the plan up to the one that ended the process have their rows, all of
them if none did.  The CSV file has the header and these rows, but for what failed writes
to it have lost.  No other file has been changed but temporary files: they are gone, but
perhaps for the last when its `unlink` or its timer failed. -/
structure Reported (env : ProgramEnv φ) (config : Config) (files : Files) (f : Finished) :
    Prop where
  rows : ∃ done rest, config.plan = done ++ rest ∧ f.rows = results env files done ∧
    (f.finish = .success ∧ rest = [] ∨ (∃ why, f.finish = .died why) ∧ rest ≠ [])
  csv : ∃ content, f.files config.outputPath = some content ∧
    content.Sublist (asciiBytes (csvText f.rows)) ∧
    (f.ferror = false → content = asciiBytes (csvText f.rows))
  kept : ∀ path, path ≠ config.outputPath → f.files path = files path ∨
    (∃ call ∈ config.plan, call.temp = some path) ∧
      (f.files path = none ∨ f.finish ≠ .success ∧
        ¬ (env.call f.rows.length).write.CleansUp)
  removed : f.finish = .success → ∀ call ∈ config.plan, ∀ path, call.temp = some path →
    f.files path = none

theorem length_results (env : ProgramEnv φ) (files : Files) (calls : List Call) :
    (results env files calls).length = calls.length := List.length_mapIdx

/-- The input is as it was. -/
theorem Main.Inv.kept_input (h : Main.Inv lib env config files done s)
    (hapart : config.Apart) : s.files config.input = files config.input := by
  rcases h.kept config.input hapart.input with hkept | ⟨_, call, hmem, htemp⟩
  · exact hkept
  · have hplan : call ∈ config.plan := by
      rw [h.plan]
      exact List.mem_append_left _ hmem
    exact absurd rfl (hapart.temp call hplan _ htemp).1

theorem Main.Inv.total (h : Main.Inv lib env config files done s) (hapart : config.Apart)
    {call : Call} (hcall : call ∈ config.plan) : call.total s.files = call.total files := by
  refine Call.total_congr fun path hpath => ?_
  rw [Config.plan_input hcall hpath, h.kept_input hapart]

/-- The next row is printed. -/
theorem asciiBytes_concat (rows : List Row) (row : Row) :
    asciiBytes (csvText (rows ++ [row])) = asciiBytes (csvText rows) ++ asciiBytes row.text := by
  simp only [asciiBytes, csvText, List.flatMap_append, List.flatMap_singleton, List.map_append,
    List.append_assoc]

/-- A function has returned. -/
theorem Main.Inv.returned (h : Main.Inv lib env config files done s) (hapart : config.Apart)
    {call : Call} (hplan : config.todo s.pc = call :: config.todo s.pc.next) {left : Left}
    (hleft : call.Done (env.call s.rows.length) s.files left) {total : Nat}
    (hresult : left.result = .ok total)
    (hsettled : s.settle env config call left = .again t) :
    Main.Inv lib env config files (done ++ [call]) t := by
  have hcall : call ∈ config.plan := by
    rw [h.plan, hplan]
    exact List.mem_append_right _ List.mem_cons_self
  simp only [Main.settle, hresult] at hsettled
  cases hsettled
  refine ⟨?_, ?_, ?_, Function.update_self _ _ _, fun path hpath => ?_, ?_,
    fun r hr => by cases hr⟩
  · rw [h.plan, hplan, List.append_assoc]
    rfl
  · dsimp only
    rw [hleft.total total hresult, h.total hapart hcall, h.rows, length_results]
    exact List.mapIdx_concat.symm
  · dsimp only
    rw [asciiBytes_concat]
    exact h.printed.print _ _
  · dsimp only
    rw [Function.update_of_ne hpath]
    rcases hleft.files path with hsame | ⟨htemp, _⟩
    · rw [hsame]
      rcases h.kept path hpath with hkept | ⟨hnone, call', hmem, htemp⟩
      · exact .inl hkept
      · exact .inr ⟨hnone, call', List.mem_append_left _ hmem, htemp⟩
    · exact .inr ⟨hleft.removed total path hresult htemp, call,
        List.mem_append_right _ (List.mem_singleton_self _), htemp⟩
  · intro call' hmem path htemp
    have hmade : call' ∈ config.plan := by
      rcases List.mem_append.mp hmem with hmem | hmem
      · rw [h.plan]
        exact List.mem_append_left _ hmem
      · rwa [List.mem_singleton.mp hmem]
    dsimp only
    rw [Function.update_of_ne (hapart.temp call' hmade path htemp).2]
    rcases List.mem_append.mp hmem with hmem | hmem
    · rcases hleft.files path with hsame | ⟨htemp', _⟩
      · rw [hsame]
        exact h.removed call' hmem path htemp
      · exact hleft.removed total path hresult htemp'
    · rw [List.mem_singleton] at hmem
      subst hmem
      exact hleft.removed total path hresult htemp

/-- The process has ended, and the CSV file is what the stream has made of it. -/
theorem Main.Inv.closed (h : Main.Inv lib env config files done s) (files' : Files)
    (how : Finish) :
    ∃ content, (s.finish env config files' how).files config.outputPath = some content ∧
      content.Sublist (asciiBytes (csvText (s.finish env config files' how).rows)) ∧
      ((s.finish env config files' how).ferror = false →
        content = asciiBytes (csvText (s.finish env config files' how).rows)) := by
  obtain ⟨hsublist, hwhole⟩ := h.printed.close env.close
  exact ⟨_, Function.update_self _ _ _, hsublist, hwhole⟩

/-- A function has ended the process. -/
theorem Main.Inv.died (h : Main.Inv lib env config files done s)
    {call : Call} (hplan : config.todo s.pc = call :: config.todo s.pc.next) {left : Left}
    (hleft : call.Done (env.call s.rows.length) s.files left) (why : Die) :
    Reported env config files (s.finish env config left.files (.died why)) := by
  refine ⟨⟨done, _, h.plan, h.rows, .inr ⟨⟨why, rfl⟩, ?_⟩⟩, h.closed _ _,
    fun path hpath => ?_, fun hsuccess => by cases hsuccess⟩
  · rw [hplan]
    exact List.cons_ne_nil _ _
  · have hfiles : (s.finish env config left.files (.died why)).files path = left.files path :=
      Function.update_of_ne hpath _ _
    rw [hfiles]
    rcases hleft.files path with hsame | ⟨htemp, hgone⟩
    · rw [hsame]
      rcases h.kept path hpath with hkept | ⟨hnone, call', hmem, htemp⟩
      · exact .inl hkept
      · refine .inr ⟨⟨call', ?_, htemp⟩, .inl hnone⟩
        rw [h.plan]
        exact List.mem_append_left _ hmem
    · refine .inr ⟨⟨call, ?_, htemp⟩, ?_⟩
      · rw [h.plan, hplan]
        exact List.mem_append_right _ List.mem_cons_self
      · rcases hgone with hnone | hunlink
        · exact .inl hnone
        · exact .inr ⟨Finish.noConfusion, hunlink⟩

/-- All the calls have returned. -/
theorem Main.Inv.finished (h : Main.Inv lib env config files done s) (hapart : config.Apart)
    (hplan : config.todo s.pc = []) :
    Reported env config files (s.finish env config s.files .success) := by
  have hall : config.plan = done := by rw [h.plan, hplan, List.append_nil]
  refine ⟨⟨done, [], by rw [hall, List.append_nil], h.rows, .inl ⟨rfl, rfl⟩⟩,
    h.closed _ _, fun path hpath => ?_, fun _ call hcall path htemp => ?_⟩
  · have hfiles : (s.finish env config s.files .success).files path = s.files path :=
      Function.update_of_ne hpath _ _
    rw [hfiles, hall]
    rcases h.kept path hpath with hkept | ⟨hnone, hcall⟩
    · exact .inl hkept
    · exact .inr ⟨hcall, .inl hnone⟩
  · have hfiles : (s.finish env config s.files .success).files path = s.files path :=
      Function.update_of_ne (hapart.temp call hcall path htemp).2 _ _
    rw [hfiles]
    exact h.removed call (hall ▸ hcall) path htemp

/-- A function goes on, returns, or ends the process. -/
theorem Main.Inv.proceed (h : Main.Inv lib env config files done s) (hapart : config.Apart)
    {call : Call} (hturn : config.turn s.pc = .call call)
    (hplan : config.todo s.pc = call :: config.todo s.pc.next)
    {p : Progress (Running φ) Left} (hagain : ∀ r, p = .again r → Doing lib s.files call r)
    (hdone : ∀ left, p = .done left → call.Done (env.call s.rows.length) s.files left) :
    (∀ t, s.proceed env config call p = .again t →
      ∃ done', Main.Inv lib env config files done' t) ∧
    ∀ f, s.proceed env config call p = .done f → Reported env config files f := by
  cases p with
  | again r =>
      constructor
      · intro t heq
        cases heq
        refine ⟨done, h.plan, h.rows, h.printed, h.csvFile, h.kept, h.removed,
          fun r' hr' => ?_⟩
        cases hr'
        exact ⟨call, hturn, hagain r rfl⟩
      · intro f heq
        cases heq
  | done left =>
      have hleft := hdone left rfl
      cases hresult : left.result with
      | ok total =>
          constructor
          · intro t heq
            exact ⟨_, h.returned hapart hplan hleft hresult heq⟩
          · intro f heq
            simp only [Main.proceed, Main.settle, hresult] at heq
            cases heq
      | error why =>
          simp only [Main.proceed, Main.settle, hresult]
          constructor
          · intro t heq
            cases heq
          · intro f heq
            cases heq
            exact h.died hplan hleft why

/-- The streams of the calls begin with the file. -/
def Delivers (lib : CharStdio φ) (env : ProgramEnv φ) : Prop :=
  ∀ i content, lib.left ((env.call i).stream content) = content

/-- One pass. -/
theorem Main.Inv.pass (h : Main.Inv lib env config files done s) (hlib : lib.Lawful)
    (hstream : Delivers lib env) (hsized : config.Sized) (hapart : config.Apart) :
    (∀ t, s.pass lib env config = .again t → ∃ done', Main.Inv lib env config files done' t) ∧
      ∀ f, s.pass lib env config = .done f → Reported env config files f := by
  have hturned := hsized.turned s.pc
  have hrunning := h.running
  unfold Main.pass
  cases hturn : config.turn s.pc with
  | call call =>
      rw [hturn] at hturned hrunning
      cases hturned with
      | call hplan _ =>
          have hcall : call.Sized := by
            refine hsized.plan ?_
            rw [h.plan, hplan]
            exact List.mem_append_right _ List.mem_cons_self
          cases hr : s.running with
          | none =>
              exact h.proceed hapart hturn hplan
                (fun r hstart => Call.start_doing (hstream _) hstart)
                fun left hstart => Call.start_done hstart
          | some r =>
              obtain ⟨call', heq, hdoing⟩ := hrunning r hr
              cases heq
              exact h.proceed hapart hturn hplan
                (fun r' hpass => hdoing.again hlib hcall hpass)
                fun left hpass => hdoing.done hlib hcall hpass
  | goto pc =>
      rw [hturn] at hturned hrunning
      cases hturned with
      | goto hplan _ =>
          constructor
          · intro t heq
            cases heq
            refine ⟨done, h.plan.trans (congrArg _ hplan.symm), h.rows, h.printed, h.csvFile,
              h.kept, h.removed, fun r hr => ?_⟩
            obtain ⟨call, heq, _⟩ := hrunning r hr
            cases heq
          · intro f heq
            cases heq
  | finish =>
      rw [hturn] at hturned
      cases hturned with
      | finish hplan =>
          constructor
          · intro t heq
            cases heq
          · intro f heq
            cases heq
            exact h.finished hapart hplan
  | undefined =>
      rw [hturn] at hturned
      cases hturned

/-! ## Whole runs -/

theorem start_inv (lib : CharStdio φ) (env : ProgramEnv φ) (config : Config) (files : Files) :
    Main.Inv lib env config files [] (Main.start env config files) where
  plan := rfl
  rows := rfl
  printed := by
    have hheader := OutputStream.opened_printed.print env.header (asciiBytes csvHeader)
    rw [List.nil_append] at hheader
    show (OutputStream.opened.print env.header _).Printed (asciiBytes (csvHeader ++ []))
    rwa [List.append_nil]
  csvFile := Function.update_self _ _ _
  kept path hpath := .inl (Function.update_of_ne hpath _ _)
  removed _ hmem := by cases hmem
  running _ hr := by cases hr

/-- Any number of passes. -/
theorem main_run (hlib : lib.Lawful) (hstream : Delivers lib env) (hsized : config.Sized)
    (hapart : config.Apart) (files : Files) (n : Nat) :
    (∀ s, Loop.run (Main.pass lib env config) n (Main.start env config files) = .again s →
      ∃ done, Main.Inv lib env config files done s) ∧
    ∀ f, Loop.run (Main.pass lib env config) n (Main.start env config files) = .done f →
      Reported env config files f :=
  Loop.run_inv (I := fun s => ∃ done, Main.Inv lib env config files done s)
    (fun _ t ⟨_, h⟩ hpass => (h.pass hlib hstream hsized hapart).1 t hpass)
    (fun _ f ⟨_, h⟩ hpass => (h.pass hlib hstream hsized hapart).2 f hpass) n
    ⟨[], start_inv lib env config files⟩

/-- The files, that of a running function included. -/
def Main.now (s : Main φ) : Files := s.running.elim s.files (Running.files s.files)

theorem Doing.untouched {call : Call} {r : Running φ} (h : Doing lib files call r)
    (path : String) : r.files files path = files path ∨ call.temp = some path := by
  cases h with
  | readSyscall _ _ => exact .inl rfl
  | getcLike _ _ => exact .inl rfl
  | freadStdio _ _ => exact .inl rfl
  | myFread _ _ => exact .inl rfl
  | @writeSyscall dirPath chunkSize totalBytes useOsync s _ =>
      by_cases hpath : path = templatePath dirPath (.ofNat chunkSize) useOsync
      · exact .inr (congrArg some hpath.symm)
      · exact .inl (Function.update_of_ne hpath _ _)

/-- At no moment has another file been touched than the CSV file, which the stream has
made what it is, and temporary files. -/
theorem Main.Inv.now (h : Main.Inv lib env config files done s) (hsized : config.Sized)
    (hapart : config.Apart) :
    s.now config.outputPath = some s.csv.file ∧
      ∀ path, path ≠ config.outputPath →
        s.now path = files path ∨ ∃ call ∈ config.plan, call.temp = some path := by
  have hold : ∀ path, path ≠ config.outputPath →
      s.files path = files path ∨ ∃ call ∈ config.plan, call.temp = some path := by
    intro path hpath
    rcases h.kept path hpath with hkept | ⟨_, call, hmem, htemp⟩
    · exact .inl hkept
    · exact .inr ⟨call, h.plan ▸ List.mem_append_left _ hmem, htemp⟩
  unfold Main.now
  cases hr : s.running with
  | none => exact ⟨h.csvFile, hold⟩
  | some r =>
      obtain ⟨call, hturn, hdoing⟩ := h.running r hr
      have hturned := hsized.turned s.pc
      rw [hturn] at hturned
      cases hturned with
      | call hplan _ =>
          have hcall : call ∈ config.plan := by
            rw [h.plan, hplan]
            exact List.mem_append_right _ List.mem_cons_self
          refine ⟨?_, fun path hpath => ?_⟩
          · rcases hdoing.untouched config.outputPath with hsame | htemp
            · rw [Option.elim_some, hsame, h.csvFile]
            · exact absurd rfl (hapart.temp call hcall _ htemp).2
          · rcases hdoing.untouched path with hsame | htemp
            · rw [Option.elim_some, hsame]
              exact hold path hpath
            · exact .inr ⟨call, hcall, htemp⟩

/-- Whatever is answered: at every moment the rows are those of the first calls of the
plan, with the right totals; the CSV file has what has been written of the header and
these rows, the beginning if no write to it has failed; and no other files but temporary
files have been touched.  If the process ends, it has failed before it opened the CSV
file and changed nothing, or it has reported: the CSV file has the header and the rows
unless a write to it has failed, all the rows if it ends with success, and the temporary
files are gone. -/
theorem main_reports (hlib : lib.Lawful) (hstream : Delivers lib env) {args : List String}
    (hargs : parseArgs args = .ok config) (hapart : config.Apart) (files : Files) (n : Nat) :
    (∀ s, main lib env args files n = .again s →
      (∃ done rest, config.plan = done ++ rest ∧ s.rows = results env files done) ∧
      (∃ content, s.now config.outputPath = some content ∧
        content.Sublist (asciiBytes (csvText s.rows)) ∧
        (s.csv.error = false → content <+: asciiBytes (csvText s.rows))) ∧
      ∀ path, path ≠ config.outputPath →
        s.now path = files path ∨ ∃ call ∈ config.plan, call.temp = some path) ∧
    ∀ f, main lib env args files n = .done f →
      f.files = files ∧ f.rows = [] ∧ (∃ why, f.finish = .died why) ∨
        Reported env config files f := by
  have hsized := parseArgs_sized hargs
  have hrun := main_run hlib hstream hsized hapart files n
  unfold main
  rw [hargs]
  dsimp only
  split
  · exact Progress.of_done (.inl ⟨rfl, rfl, _, rfl⟩)
  · split
    · exact Progress.of_done (.inl ⟨rfl, rfl, _, rfl⟩)
    · constructor
      · intro s hagain
        obtain ⟨done, h⟩ := hrun.1 s hagain
        obtain ⟨hcsv, hothers⟩ := h.now hsized hapart
        have hpart := (List.sublist_append_left s.csv.file s.csv.buffer).trans h.printed.sublist
        exact ⟨⟨done, _, h.plan, h.rows⟩, ⟨_, hcsv, hpart, h.printed.isPrefix⟩, hothers⟩
      · intro f hdone
        exact .inr (hrun.2 f hdone)

/-- Nothing fails but by interruptions, in `main` and in each call. -/
structure ProgramEnv.Works (env : ProgramEnv φ) : Prop where
  stat : env.stat = true
  fopen : env.fopen = true
  header : env.header.lost = 0
  call : ∀ i, (env.call i).Works
  row : ∀ i, (env.row i).lost = 0
  close : env.close = none

/-- Where `main` goes on when a function has returned. -/
theorem Main.settle_ok (env : ProgramEnv φ) (config : Config) (call : Call) (s : Main φ)
    {left : Left} {total : Nat} (hresult : left.result = .ok total) :
    ∃ t, s.settle env config call left = .again t ∧ t.pc = s.pc.next ∧ t.running = none ∧
      t.csv = s.csv.print (env.row s.rows.length)
        (asciiBytes (call.row total (env.call s.rows.length).timing).text) := by
  simp only [Main.settle, hresult]
  exact ⟨_, rfl, rfl, rfl, rfl⟩

/-- From a statement of `main`, the rest of the plan is carried out. -/
theorem Main.Inv.succeeds (hlib : lib.Lawful) (hhealthy : ∀ fp, lib.ferror fp = false)
    (hstream : Delivers lib env) (hsized : config.Sized) (hapart : config.Apart)
    (hworks : env.Works)
    (hpossible : ∀ call ∈ config.plan, call.Possible files)
    (h : Main.Inv lib env config files done s) (hnone : s.running = none)
    (hintact : s.csv.error = false) :
    ∃ n f, Loop.run (Main.pass lib env config) n s = .done f ∧
      f.finish = .success ∧ f.ferror = false := by
  induction hrank : config.rank s.pc using Nat.strongRecOn generalizing s done with
  | _ k ih =>
      have hturned := hsized.turned s.pc
      cases hturn : config.turn s.pc with
      | call call =>
          rw [hturn] at hturned
          cases hturned with
          | call hplan hless =>
              have hcall : call ∈ config.plan := by
                rw [h.plan, hplan]
                exact List.mem_append_right _ List.mem_cons_self
              have hpossible' : call.Possible s.files := by
                refine (hpossible call hcall).congr fun path hpath => ?_
                rw [Config.plan_input hcall hpath]
                exact h.kept_input hapart
              obtain ⟨r, n, left, hstart, hrun, hresult⟩ := Call.returns hlib hhealthy
                (hstream s.rows.length) (hsized.plan hcall) (hworks.call s.rows.length)
                hpossible'
              have hleft : call.Done (env.call s.rows.length) s.files left :=
                (Loop.run_inv (I := Doing lib s.files call)
                  (fun _ _ h hpass => h.again hlib (hsized.plan hcall) hpass)
                  (fun _ _ h hpass => h.done hlib (hsized.plan hcall) hpass) n
                  (Call.start_doing (hstream _) hstart)).2 left hrun
              obtain ⟨t, hsettled, hnext, hidle, hcsv⟩ :=
                Main.settle_ok env config call s hresult
              have hinv := h.returned hapart hplan hleft hresult hsettled
              have hbegins : s.pass lib env config = .again { s with running := some r } := by
                simp only [Main.pass, hturn, hnone, hstart, Main.proceed]
              have hreturns : Loop.Leads (Main.pass lib env config) { s with running := some r }
                  t := by
                refine Loop.leads_of_done (f := fun r => { s with running := some r })
                  (fun x y hpass => ?_) (fun x hpass => ?_) hrun
                · simp only [Main.pass, hturn, hpass, Main.proceed]
                · simp only [Main.pass, hturn, hpass, Main.proceed]
                  exact hsettled
              have hintact' : t.csv.error = false := by
                rw [hcsv, OutputStream.print_error (hworks.row _), hintact]
              exact ((Loop.Leads.step hbegins).trans hreturns).exists_done
                (ih _ (hrank ▸ hless) hinv hidle hintact' (congrArg config.rank hnext))
      | goto pc =>
          rw [hturn] at hturned
          cases hturned with
          | goto hplan hless =>
              have hgoes : s.pass lib env config = .again { s with pc := pc } := by
                simp only [Main.pass, hturn]
              have hinv : Main.Inv lib env config files done { s with pc := pc } :=
                ⟨h.plan.trans (congrArg _ hplan.symm), h.rows, h.printed, h.csvFile, h.kept,
                  h.removed, fun r hr => by rw [hnone] at hr; cases hr⟩
              exact (Loop.Leads.step hgoes).exists_done
                (ih _ (hrank ▸ hless) hinv hnone hintact rfl)
      | finish =>
          refine ⟨1, s.finish env config s.files .success, Loop.run_done ?_ 0, rfl, ?_⟩
          · simp only [Main.pass, hturn]
          · simp only [Main.finish, hworks.close, OutputStream.close, hintact]
      | undefined =>
          rw [hturn] at hturned
          cases hturned

/-- A run that ends with success has a row for each call. -/
theorem Reported.all {f : Finished} (h : Reported env config files f)
    (hsuccess : f.finish = .success) : f.rows = results env files config.plan := by
  obtain ⟨done, rest, hplan, hrows, ⟨_, hrest⟩ | ⟨⟨why, hdied⟩, _⟩⟩ := h.rows
  · rw [hrows, hplan, hrest, List.append_nil]
  · rw [hsuccess] at hdied
    cases hdied

theorem main_succeeds (hlib : lib.Lawful) (hhealthy : ∀ fp, lib.ferror fp = false)
    (hstream : Delivers lib env) {args : List String} (hargs : parseArgs args = .ok config)
    (hapart : config.Apart) (hworks : env.Works)
    (hpossible : ∀ call ∈ config.plan, call.Possible files) :
    ∃ n f, main lib env args files n = .done f ∧ f.finish = .success ∧ f.ferror = false ∧
      Reported env config files f := by
  have hsized := parseArgs_sized hargs
  have hinput : files config.input ≠ none := by
    have hgetc : config.getcCall false ∈ config.plan := by simp [Config.plan, Config.todo]
    obtain ⟨content, hfile⟩ := hpossible _ hgetc
    rw [hfile]
    exact Option.some_ne_none content
  have hintact : (Main.start env config files).csv.error = false :=
    OutputStream.print_error hworks.header _
  obtain ⟨n, f, hrun, hsuccess, hferror⟩ := (start_inv lib env config files).succeeds hlib
    hhealthy hstream hsized hapart hworks hpossible rfl hintact
  have hmain : main lib env args files n = .done f := by
    have hstat : ¬ (env.stat = false ∨ files config.input = none) := by
      simp [hworks.stat, hinput]
    have hfopen : ¬ env.fopen = false := by simp [hworks.fopen]
    simp only [main, hargs, if_neg hstat, if_neg hfopen, hrun]
  exact ⟨n, f, hmain, hsuccess, hferror,
    (main_run hlib hstream hsized hapart files n).2 f hrun⟩

/-- When nothing fails but by interruptions, the input is there and the paths of the
temporary files are not too long, the program ends with success and a row for each call
of the plan; the CSV file has the header and these rows, and no other file is changed but
for temporary files that are gone. -/
theorem main_completes (hlib : lib.Lawful) (hhealthy : ∀ fp, lib.ferror fp = false)
    (hstream : Delivers lib env) {args : List String} (hargs : parseArgs args = .ok config)
    (hapart : config.Apart) (hworks : env.Works)
    (hpossible : ∀ call ∈ config.plan, call.Possible files) :
    ∃ n f, main lib env args files n = .done f ∧ f.finish = .success ∧
      f.rows = results env files config.plan ∧
      f.files config.outputPath = some (asciiBytes (csvText f.rows)) ∧
      ∀ path, path ≠ config.outputPath → f.files path = files path ∨
        f.files path = none ∧ ∃ call ∈ config.plan, call.temp = some path := by
  obtain ⟨n, f, hrun, hsuccess, hferror, hreported⟩ :=
    main_succeeds hlib hhealthy hstream hargs hapart hworks hpossible
  obtain ⟨content, hcsv, _, hwhole⟩ := hreported.csv
  refine ⟨n, f, hrun, hsuccess, hreported.all hsuccess, ?_, fun path hpath => ?_⟩
  · rw [hcsv, hwhole hferror]
  · rcases hreported.kept path hpath with hkept | ⟨⟨call, hcall, htemp⟩, _⟩
    · exact .inl hkept
    · exact .inr ⟨hreported.removed hsuccess call hcall path htemp, call, hcall, htemp⟩

end Runs

/-! ## A run -/

/-- What `--input in --sizes 8,64` asks for. -/
def smallConfig : Config where
  inputPath := some "in"
  outputPath := "results.csv"
  writeDir := "."
  sizes := [8, 64]
  sizeCount := 2
  myfreadBufferSize := 0
  writeTotalBytes := 0
  quickMode := false
  sizesOverridden := true
  myfreadBufferOverridden := false
  writeTotalOverridden := false

/-- Each second call is interrupted once, the `write`s take a page, and the CSV file some
bytes at each row. -/
def calm : ProgramEnv (List UInt8) where
  stat := true
  fopen := true
  header := ⟨0, 0⟩
  row i := ⟨i, 0⟩
  close := none
  call i :=
    { openRes := none
      malloc := fun _ => true
      timerStart := ⟨none, none⟩
      timerEnd := ⟨none, none⟩
      memory := fun capacity => .fill capacity 0
      schedule := .once .EINTR (i % 2) fun _ => 3
      stream := id
      write :=
        { malloc := true
          openRes := none
          timerStart := ⟨none, none⟩
          write := fun k => if k < i % 2 then .error .EINTR else .ok 4096
          close := none
          timerEnd := ⟨none, none⟩
          unlink := none }
      timing := ⟨['1'], ['0'], ['0'], ['1']⟩ }

theorem calm_works : calm.Works where
  stat := rfl
  fopen := rfl
  header := rfl
  row _ := rfl
  close := rfl
  call i :=
    { openRes := rfl
      malloc := fun _ => rfl
      timerStart := rfl
      timerEnd := rfl
      schedule := Answer.once_interrupts _ _ _
      write :=
        { malloc := rfl
          openRes := rfl
          timed := ⟨rfl, rfl⟩
          close := rfl
          unlink := rfl
          some := fun k n h => by
            simp only [calm] at h
            split at h
            · cases h
            · cases h
              decide
          only := fun k e h => by
            simp only [calm] at h
            split at h
            · cases h
              rfl
            · cases h
          finite := ⟨i % 2, fun k e h => by
            simp only [calm] at h
            split at h
            · assumption
            · cases h⟩ } }

/-- One file of five bytes. -/
def fiveBytes : Files := Function.update (fun _ => none) "in" (some [1, 2, 3, 4, 5])

theorem smallConfig_plan : smallConfig.plan =
    [.readSyscall "in" 8, .readSyscall "in" 64, .getcLike "in" false, .getcLike "in" true,
      .freadStdio "in" 8, .freadStdio "in" 64, .myFread "in" 8 8192, .myFread "in" 64 8192,
      .writeSyscall "." 64 (8 * 1024 * 1024) false,
      .writeSyscall "." 64 (8 * 1024 * 1024) true] := rfl

theorem smallConfig_apart : smallConfig.Apart where
  input := by decide
  temp := by
    have htemp : ∀ useOsync, templatePath "." 64 useOsync ≠ "in" ∧
        templatePath "." 64 useOsync ≠ "results.csv" := by decide
    intro call hcall path hpath
    rw [smallConfig_plan] at hcall
    simp only [List.mem_cons, List.not_mem_nil, or_false] at hcall
    rcases hcall with rfl | rfl | rfl | rfl | rfl | rfl | rfl | rfl | rfl | rfl <;> cases hpath
    · exact htemp false
    · exact htemp true

theorem smallConfig_possible : ∀ call ∈ smallConfig.plan, call.Possible fiveBytes := by
  have hpath : ∀ useOsync, (templatePath "." 64 useOsync).utf8ByteSize < 4096 := by decide
  intro call hcall
  rw [smallConfig_plan] at hcall
  simp only [List.mem_cons, List.not_mem_nil, or_false] at hcall
  rcases hcall with rfl | rfl | rfl | rfl | rfl | rfl | rfl | rfl | rfl | rfl
  iterate 8 exact ⟨_, rfl⟩
  · exact hpath false
  · exact hpath true

/-- The run on five bytes ends, and reports. -/
theorem main_reports_five : ∃ n f,
    main CharStdio.memory calm ["--input", "in", "--sizes", "8,64"] fiveBytes n = .done f ∧
      f.ferror = false ∧ Reported calm smallConfig fiveBytes f := by
  have hargs : parseArgs ["--input", "in", "--sizes", "8,64"] = .ok smallConfig := rfl
  have hstream : Delivers CharStdio.memory calm := fun _ _ => rfl
  obtain ⟨n, f, hrun, hsuccess, hferror, _⟩ := main_succeeds CharStdio.memory_lawful
    (fun _ => rfl) hstream hargs smallConfig_apart calm_works smallConfig_possible
  have hreports := main_reports CharStdio.memory_lawful hstream hargs smallConfig_apart
    fiveBytes n
  rcases hreports.2 f hrun with ⟨_, _, why, hdied⟩ | hreported
  · rw [hsuccess] at hdied
    cases hdied
  · exact ⟨n, f, hrun, hferror, hreported⟩

/-- Ten rows for five bytes. -/
theorem main_completes_five : ∃ n f,
    main CharStdio.memory calm ["--input", "in", "--sizes", "8,64"] fiveBytes n = .done f ∧
      f.finish = .success ∧ f.rows.length = 10 ∧
      f.files "results.csv" = some (asciiBytes (csvText f.rows)) := by
  have hargs : parseArgs ["--input", "in", "--sizes", "8,64"] = .ok smallConfig := rfl
  obtain ⟨n, f, hrun, hsuccess, hrows, hcsv, _⟩ := main_completes CharStdio.memory_lawful
    (fun _ => rfl) (fun _ _ => rfl) hargs smallConfig_apart calm_works smallConfig_possible
  refine ⟨n, f, hrun, hsuccess, ?_, hcsv⟩
  rw [hrows, length_results]
  rfl

end SysLab.PartA
