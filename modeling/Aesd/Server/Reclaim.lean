import Aesd.Server.Records
import Mathlib.Data.Fintype.EquivFin
import Mathlib.Data.Set.Function

/-!
# What becomes of the records

The process with its records in memory and the process with a plain list of
threads make the same runs, unless `malloc` refuses something. No memory is
misused in them, and what has been joined leaves nothing behind.
-/
namespace Aesd.Server

open PartialRun Exclusion TailQueue

variable {σ : Type} {build : Build} {os : Os σ} {p p' : Process σ} {w w' : World σ}

/-- A call of any thread is answered in both processes or in none. -/
theorem Stands.step (hs : Stands p w) (hk : Kept w) (e : Event)
    (hnot : e.tid = .main → p.main.allocating = false) :
    Option.Rel Stands (p.step build os (.event e)) (w.step build os e) := by
  unfold Process.step World.step
  rw [hs.safe, ← hs.exited, ← hs.os, ← hs.mutex]
  cases hexited : p.exited with
  | true => exact .none
  | false =>
    have hm := hs.memory hexited
    have hthread : Option.Rel Stands (p.thread build e) (w.thread build e) := by
      obtain ⟨tid, call, a⟩ := e
      cases tid with
      | main =>
        obtain ⟨hcall, hrel⟩ : p.main.call = some w.main.call ∧
            Option.Rel Stands (p.resumeMain build a) (w.resumeMain build a) := hs.main hm hk (hnot rfl) a
        simp only [Process.thread, World.thread, hcall, Option.some.injEq]
        split_ifs
        · exact hrel
        · exact .none
      | stamp =>
        simp only [Process.thread, World.thread, hs.stamp]
        cases w.stamp with
        | none => exact .none
        | some s =>
          simp only [Option.bind_some]
          split_ifs
          · cases s.resume a with
            | none => exact .none
            | some s' =>
              exact .some ⟨hs.os, hs.mutex, rfl, hs.handlers, hs.exited, hs.safe, fun _ =>
                ⟨hm.control, hm.length, hm.list, hm.owned, hm.new, hm.records, hm.blocks⟩⟩
          · exact .none
      | client i => exact hs.handler hm hk i call a
    simp only [Bool.or_self, Bool.false_eq_true, if_false]
    cases os.respond p.os e.call e.answer with
    | none => exact .none
    | some s =>
      cases after p.mutex e.tid e.call.use with
      | none => exact .none
      | some m =>
        generalize p.thread build e = next, w.thread build e = next' at hthread ⊢
        cases hthread with
        | none => exact .none
        | some h =>
          exact .some ⟨rfl, rfl, h.stamp, h.handlers, h.exited, h.safe, fun hrun =>
            have h := h.memory hrun
            ⟨h.control, h.length, h.list, h.owned, h.new, h.records, h.blocks⟩⟩

/-- One act of the process with its memory, as the process without it sees it. -/
theorem Stands.act {act : Act} (hs : Stands p w) (hk : Kept w)
    (h : p.step build os act = some p') (hgranted : act.granted = true) :
    ∃ w', run (World.step build os) w (events [act]) = some w' ∧ Stands p' w' := by
  have hm := hs.memory (Process.step_running h).1
  cases act with
  | event e =>
    have hnot : e.tid = .main → p.main.allocating = false := by
      intro htid
      cases hmain : p.main with
      | allocData | allocThread => simp [Process.step, Process.thread, htid, hmain, ListPc.call] at h
      | _ => rfl
    have hrel : Option.Rel Stands (p.step build os (.event e)) (w.step build os e) := hs.step hk e hnot
    rw [h] at hrel
    generalize hw : w.step build os e = next at hrel
    cases hrel with
    | some hs' => exact ⟨_, by simp [events, run_cons, hw], hs'⟩
  | mallocData tdata =>
    obtain ⟨⟨a, n⟩, rfl⟩ : ∃ t, tdata = some t := Option.ne_none_iff_exists'.mp (by rintro rfl; cases hgranted)
    obtain ⟨fd, hmain, h⟩ := Process.step_mallocData h
    simp only [Process.mallocData] at h
    split_ifs at h with hfresh
    cases h
    exact ⟨w, rfl, hs.os, hs.mutex, hs.stamp, hs.handlers, hs.exited, hs.safe,
      fun _ => hm.mallocData hmain hfresh⟩
  | mallocThread thread =>
    obtain ⟨t, rfl⟩ : ∃ t, thread = some t := Option.ne_none_iff_exists'.mp (by rintro rfl; cases hgranted)
    obtain ⟨fd, a, hmain, h⟩ := Process.step_mallocThread h
    simp only [Process.mallocThread] at h
    split_ifs at h with hfresh
    obtain ⟨q, hq, hmem⟩ := hm.mallocThread hmain (hfresh t rfl)
    simp only [hq, Option.some.injEq] at h
    subst h
    exact ⟨w, rfl, hs.os, hs.mutex, hs.stamp, hs.handlers, hs.exited, hs.safe, fun _ => hmem⟩

/-- Every run in which `malloc` refuses nothing is a run of the process with a plain list. -/
theorem stands_run {s : σ} {acts : List Act}
    (h : run (Process.step build os) (Process.start build s) acts = some p)
    (hgranted : ∀ act ∈ acts, act.granted = true) :
    ∃ w, run (World.step build os) (World.start build s) (events acts) = some w ∧ Stands p w := by
  revert hgranted
  refine run_invariant (I := fun acts p => (∀ act ∈ acts, act.granted = true) →
    ∃ w, run (World.step build os) (World.start build s) (events acts) = some w ∧ Stands p w) ?_ ?_ h
  · exact fun _ => ⟨_, rfl, start_stands build s⟩
  · intro acts p act p' _ hp' ih hgranted
    obtain ⟨w, hw, hs⟩ := ih fun act' hact' => hgranted act' (List.mem_append_left _ hact')
    obtain ⟨w', hw', hs'⟩ := hs.act (run_kept hw) hp' (hgranted act (by simp))
    refine ⟨w', ?_, hs'⟩
    rw [events_append]
    exact run_append_eq_some.mpr ⟨w, hw, hw'⟩

/-- Memory is finite, so that `malloc` can always return something. -/
theorem Memory.fresh (hm : Memory p w) : ∃ a, p.Fresh a := by
  let records := p.params ++ p.main.newRecord.toList
  let blocks := records.filterMap fun a => (p.activeThreads.data a).bind ThreadData.thread
  obtain ⟨a, ha⟩ := Infinite.exists_notMem_finset (records ++ blocks).toFinset
  simp only [List.mem_toFinset, List.mem_append, not_or] at ha
  obtain ⟨hrecord, hblock⟩ := ha
  refine ⟨a, Option.eq_none_iff_forall_ne_some.mpr fun n hn => hrecord ?_,
    Option.eq_none_iff_forall_ne_some.mpr fun x hx => hblock ?_⟩
  · rcases hm.records a n.data (by rw [Queue.data, hn]; rfl) with hnew | ⟨i, t, c, -, howns⟩
    · simp [records, hnew]
    · exact List.mem_append_left _ (List.mem_of_getElem? howns.1)
  · rcases hm.blocks a x hx with ⟨fd, b, hmain, hd⟩ | ⟨i, b, c, -, howns⟩
    · exact List.mem_filterMap.mpr ⟨b, by simp [records, hmain, ListPc.newRecord], by simp [hd]⟩
    · exact List.mem_filterMap.mpr ⟨b, List.mem_append_left _ (List.mem_of_getElem? howns.1),
        by simp [howns.2.2.1]⟩

theorem run_acts {acts acts' : List Act} {u : Process σ} (h : run (Process.step build os) p acts = some u)
    (h' : run (Process.step build os) u acts' = some p') :
    run (Process.step build os) p (acts ++ acts') = some p' :=
  run_append_eq_some.mpr ⟨u, h, h'⟩

/-- With the second answer of `malloc`, `main` has all it needs to start a thread. -/
theorem Stands.ready_thread {fd : Nat} {a : Addr} (hs : Stands p w) (hm : Memory p w)
    (hrun : p.exited = false) (hmain : p.main = .allocThread fd a) :
    ∃ t p', Process.step build os p (.mallocThread (some t)) = some p' ∧ Stands p' w ∧
      p'.main.allocating = false := by
  obtain ⟨t, hfresh⟩ := hm.fresh
  obtain ⟨q, hq, hmem⟩ := hm.mallocThread hmain hfresh
  refine ⟨t, { p with
    main := .create fd a
    activeThreads := q
    threads := Function.update p.threads t (some none) }, ?_,
    ⟨hs.os, hs.mutex, hs.stamp, hs.handlers, hs.exited, hs.safe, fun _ => hmem⟩, rfl⟩
  simp [Process.step, hrun, hs.safe, hmain, Process.mallocThread, hfresh, hq]

/-- `malloc` lets `main` go on. -/
theorem Stands.ready (hs : Stands p w) (hrun : p.exited = false) : ∃ acts p',
    run (Process.step build os) p acts = some p' ∧ events acts = [] ∧
      (∀ act ∈ acts, act.granted = true) ∧ Stands p' w ∧ p'.main.allocating = false := by
  have hm := hs.memory hrun
  cases hmain : p.main with
  | allocThread fd a =>
    obtain ⟨t, p', hp', hs', hnot⟩ := hs.ready_thread hm hrun hmain
    exact ⟨[.mallocThread (some t)], p', by rw [run_cons, hp']; rfl, rfl, by simp [Act.granted], hs', hnot⟩
  | allocData fd =>
    obtain ⟨a, hfresh⟩ := hm.fresh
    obtain ⟨u, hu⟩ : ∃ u : Process σ, u = { p with
      main := .allocThread fd a
      activeThreads := p.activeThreads.allocate a ⟨none, .head, ⟨none, false, 0⟩⟩ } := ⟨_, rfl⟩
    have hmem : Memory u w := hu ▸ hm.mallocData hmain hfresh
    have hs₁ : Stands u w := by
      rw [hu] at hmem ⊢
      exact ⟨hs.os, hs.mutex, hs.stamp, hs.handlers, hs.exited, hs.safe, fun _ => hmem⟩
    obtain ⟨t, p', hp', hs', hnot⟩ := hs₁.ready_thread hmem (by rw [hu]; exact hrun) (by rw [hu])
    refine ⟨[.mallocData (some (a, ⟨none, .head, ⟨none, false, 0⟩⟩)), .mallocThread (some t)], p', ?_, rfl,
      by simp [Act.granted], hs', hnot⟩
    · have hstep : Process.step build os p
          (.mallocData (some (a, ⟨none, .head, ⟨none, false, 0⟩⟩))) = some u := by
        simp [Process.step, hrun, hs.safe, hmain, Process.mallocData, hfresh, hu]
      rw [run_cons, hstep, Option.bind_some, run_cons, hp']
      rfl
  | _ => exact ⟨[], p, rfl, rfl, List.forall_mem_nil _, hs, by rw [hmain]; rfl⟩

/-- Every run of the process with a plain list is one of the process with its memory. -/
theorem run_lifted {s : σ} {tr : List Event}
    (h : run (World.step build os) (World.start build s) tr = some w) : ∃ acts p,
      run (Process.step build os) (Process.start build s) acts = some p ∧ events acts = tr ∧
        (∀ act ∈ acts, act.granted = true) ∧ Stands p w := by
  refine run_invariant (I := fun tr w => ∃ acts p,
    run (Process.step build os) (Process.start build s) acts = some p ∧ events acts = tr ∧
      (∀ act ∈ acts, act.granted = true) ∧ Stands p w) ?_ ?_ h
  · exact ⟨[], _, rfl, rfl, List.forall_mem_nil _, start_stands build s⟩
  · rintro tr w e w' hw hw' ⟨acts, p, hp, rfl, hgranted, hs⟩
    obtain ⟨hrun, -⟩ := World.step_eq_some.mp hw'
    obtain ⟨acts', p₁, hp₁, hevents, hgranted', hs₁, hnot⟩ := hs.ready (hs.exited.trans hrun)
    have hrel : Option.Rel Stands (p₁.step build os (.event e)) (w.step build os e) :=
      hs₁.step (run_kept hw) e fun _ => hnot
    rw [hw'] at hrel
    generalize hp₂ : p₁.step build os (.event e) = next at hrel
    cases hrel with
    | @some p₂ _ hs₂ =>
      refine ⟨acts ++ acts' ++ [.event e], p₂, run_concat_eq_some.mpr ⟨p₁, run_acts hp hp₁, hp₂⟩, ?_, ?_, hs₂⟩
      · rw [events_append, events_append, hevents]
        simp [events]
      · intro act hact
        simp only [List.mem_append, List.mem_singleton] at hact
        rcases hact with (hact | hact) | rfl
        · exact hgranted act hact
        · exact hgranted' act hact
        · rfl

/-- Two clients connect one after the other; the first one has sent a byte and hung up, and its
thread is joined before the third client gets the memory it leaves. -/
def reclaimed : List Act :=
  [.event ⟨.main, .setup, .done⟩] ++ connects 4 16 32 ++
    [.event ⟨.main, .tau, .done⟩, .event ⟨.main, .tau, .done⟩] ++
    ([(.recv, .bytes [97]), (.tau, .done), (.realloc 1024, .memory (List.replicate 1024 0)), (.tau, .done),
      (.tau, .done), (.recv, .bytes []), (.tau, .done), (.closeClient 4, .done)] : Trace).map
        (fun (call, a) => Act.event ⟨.client 0, call, a⟩) ++
    connects 5 48 64 ++
    [.event ⟨.main, .tau, .done⟩, .event ⟨.main, .join 0, .done⟩, .event ⟨.main, .tau, .done⟩,
      .event ⟨.main, .tau, .done⟩] ++
    connects 6 16 32
where
  connects (fd a t : Nat) : List Act :=
    [.event ⟨.main, .accept, .fd fd⟩, .mallocData (some (a, ⟨none, .head, ⟨none, true, 0⟩⟩)),
      .mallocThread (some t), .event ⟨.main, .createThread, .done⟩, .event ⟨.main, .tau, .done⟩]

/-- Whatever the threads do, and in whatever order, no record is used before it is allocated or
after it is freed, none is freed twice, and no link leads out of memory. -/
theorem never_misused (build : Build) (os : Os σ) (s : σ) (acts : List Act) (p : Process σ)
    (h : run (Process.step build os) (Process.start build s) acts = some p)
    (hgranted : ∀ act ∈ acts, act.granted = true) : p.fault = false := by
  obtain ⟨w, -, hs⟩ := stands_run h hgranted
  exact hs.safe

theorem never_misused_reclaimed : ∃ p,
    run (Process.step .driver anyAnswer) (Process.start .driver ()) reclaimed = some p ∧
      p.fault = false := by
  obtain ⟨p, hp⟩ := Option.isSome_iff_exists.mp (show
    (run (Process.step .driver anyAnswer) (Process.start .driver ()) reclaimed).isSome = true by
      decide +kernel)
  exact ⟨p, hp, never_misused .driver anyAnswer () reclaimed p hp (by decide +kernel)⟩

/-- The tail queue holds the records of the listed threads, in their order. -/
theorem queue_holds_active (build : Build) (os : Os σ) (s : σ) (acts : List Act) (p : Process σ)
    (h : run (Process.step build os) (Process.start build s) acts = some p)
    (hgranted : ∀ act ∈ acts, act.granted = true) (hrun : p.exited = false) :
    ∃ w, run (World.step build os) (World.start build s) (events acts) = some w ∧
      p.handlers = w.clients ∧ Holds p.activeThreads (w.active.map p.addr) := by
  obtain ⟨w, hw, hs⟩ := stands_run h hgranted
  exact ⟨w, hw, hs.handlers, (hs.memory hrun).list⟩

theorem queue_holds_active_reclaimed : ∃ p w,
    run (Process.step .driver anyAnswer) (Process.start .driver ()) reclaimed = some p ∧
      run (World.step .driver anyAnswer) (World.start .driver ()) (events reclaimed) = some w ∧
        p.handlers = w.clients ∧ Holds p.activeThreads (w.active.map p.addr) := by
  obtain ⟨p, hp⟩ := Option.isSome_iff_exists.mp (show
    (run (Process.step .driver anyAnswer) (Process.start .driver ()) reclaimed).isSome = true by
      decide +kernel)
  have hrun : (run (Process.step .driver anyAnswer) (Process.start .driver ()) reclaimed).map
      Process.exited = some false := by decide +kernel
  rw [hp] at hrun
  obtain ⟨w, hw, hstands⟩ := queue_holds_active .driver anyAnswer () reclaimed p hp (by decide +kernel)
    (Option.some.inj hrun)
  exact ⟨p, w, hp, hw, hstands⟩

/-- With and without memory the same calls are possible. -/
theorem same_runs (build : Build) (os : Os σ) (s : σ) (tr : List Event) :
    (∃ acts p, run (Process.step build os) (Process.start build s) acts = some p ∧ events acts = tr ∧
      ∀ act ∈ acts, act.granted = true) ↔
        ∃ w, run (World.step build os) (World.start build s) tr = some w := by
  constructor
  · rintro ⟨acts, p, hp, rfl, hgranted⟩
    obtain ⟨w, hw, -⟩ := stands_run hp hgranted
    exact ⟨w, hw⟩
  · rintro ⟨w, hw⟩
    obtain ⟨acts, p, hp, hevents, hgranted, -⟩ := run_lifted hw
    exact ⟨acts, p, hp, hevents, hgranted⟩

/-- The threads that have been started and not joined. -/
def unjoined (p : Process σ) (w : World σ) : Set Nat := {i | i < p.handlers.length ∧ i ∉ w.joined}

/-- `tdata->thread` -/
def Process.threadAddr (p : Process σ) (i : Nat) : Addr :=
  ((p.activeThreads.data (p.addr i)).bind ThreadData.thread).getD 0

/-- While `main` sets up no thread, every thread that has not been joined has one record and one
`pthread_t`, and nothing else is allocated. -/
theorem allocated_exactly (build : Build) (os : Os σ) (s : σ) (acts : List Act) (p : Process σ)
    (h : run (Process.step build os) (Process.start build s) acts = some p)
    (hgranted : ∀ act ∈ acts, act.granted = true) (hrun : p.exited = false)
    (hnew : p.main.newRecord = none) :
    ∃ w, run (World.step build os) (World.start build s) (events acts) = some w ∧
      Set.BijOn p.addr (unjoined p w) {a | p.activeThreads.data a ≠ none} ∧
      Set.BijOn p.threadAddr (unjoined p w) {t | p.threads t ≠ none} := by
  obtain ⟨w, hw, hs⟩ := stands_run h hgranted
  have hm := hs.memory hrun
  have howned : ∀ i ∈ unjoined p w, ∃ c, p.Owns i (p.addr i) (p.threadAddr i) c := by
    rintro i ⟨hlt, hi⟩
    obtain ⟨a, t, howns⟩ := hm.owned i _ (List.getElem?_eq_getElem hlt) hi
    refine ⟨p.handlers[i], ?_⟩
    rw [Process.threadAddr, Process.addr_eq howns.1, howns.2.2.1]
    exact howns
  have hknown : ∀ i a t c, i ∉ w.joined → p.Owns i a t c → i ∈ unjoined p w ∧ p.addr i = a ∧
      p.threadAddr i = t := by
    intro i a t c hi howns
    refine ⟨⟨(List.getElem?_eq_some_iff.mp howns.2.1).1, hi⟩, Process.addr_eq howns.1, ?_⟩
    rw [Process.threadAddr, Process.addr_eq howns.1, howns.2.2.1]
    rfl
  refine ⟨w, hw, ⟨fun i hi => ?_, fun i hi j hj hij => ?_, fun a ha => ?_⟩,
    ⟨fun i hi => ?_, fun i hi j hj hij => ?_, fun t ht => ?_⟩⟩
  · obtain ⟨c, howns⟩ := howned i hi
    simp [howns.2.2.1]
  · obtain ⟨c, howns⟩ := howned i hi
    obtain ⟨c', howns'⟩ := howned j hj
    rw [hij] at howns
    exact howns.inj howns'
  · obtain ⟨d, hd⟩ := Option.ne_none_iff_exists'.mp ha
    rcases hm.records a d hd with hb | ⟨i, t, c, hi, howns⟩
    · simp [hnew] at hb
    · obtain ⟨hmem, haddr, -⟩ := hknown i a t c hi howns
      exact ⟨i, hmem, haddr⟩
  · obtain ⟨c, howns⟩ := howned i hi
    simp [howns.2.2.2]
  · obtain ⟨c, howns⟩ := howned i hi
    obtain ⟨c', howns'⟩ := howned j hj
    have hi := howns.2.2.2
    rw [hij, howns'.2.2.2] at hi
    simpa using hi.symm
  · obtain ⟨x, hx⟩ := Option.ne_none_iff_exists'.mp ht
    rcases hm.blocks t x hx with ⟨fd, a, hmain, -⟩ | ⟨i, a, c, hi, howns⟩
    · simp [hmain, ListPc.newRecord] at hnew
    · obtain ⟨hmem, -, hthread⟩ := hknown i a t c hi howns
      exact ⟨i, hmem, hthread⟩

theorem allocated_exactly_reclaimed : ∃ p w,
    run (Process.step .driver anyAnswer) (Process.start .driver ()) reclaimed = some p ∧
      run (World.step .driver anyAnswer) (World.start .driver ()) (events reclaimed) = some w ∧
        Set.BijOn p.addr (unjoined p w) {a | p.activeThreads.data a ≠ none} ∧
        Set.BijOn p.threadAddr (unjoined p w) {t | p.threads t ≠ none} := by
  obtain ⟨p, hp⟩ := Option.isSome_iff_exists.mp (show
    (run (Process.step .driver anyAnswer) (Process.start .driver ()) reclaimed).isSome = true by
      decide +kernel)
  have hend : (run (Process.step .driver anyAnswer) (Process.start .driver ()) reclaimed).map
      (fun p => (p.exited, p.main.newRecord)) = some (false, none) := by decide +kernel
  rw [hp] at hend
  obtain ⟨hrun, hnew⟩ := Prod.mk.inj (Option.some.inj hend)
  obtain ⟨w, hw, hbij⟩ := allocated_exactly .driver anyAnswer () reclaimed p hp (by decide +kernel)
    hrun hnew
  exact ⟨p, w, hp, hw, hbij⟩

end Aesd.Server
