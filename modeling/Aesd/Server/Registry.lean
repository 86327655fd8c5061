import Aesd.Server.Process

/-!
# The list of threads

`main` keeps every thread it has created in `active_threads` until a sweep finds
its flag set, joins it and frees it. A handler sets the flag only together with
the release of a buffer, so that one which never had a buffer, or lost it to a
failed `realloc`, ends without the flag and stays in the list.
-/
namespace Aesd.Server

open PartialRun

def reallocFails : Call × Answer → Bool
  | (.realloc _, .failed) => true
  | _ => false

def NeverRefused (tr : Trace) : Prop := ∀ e ∈ tr, reallocFails e = false

/-- The handler has received something and has always found memory for it. -/
def Served (tr : Trace) : Prop := receivedBytes tr ≠ [] ∧ NeverRefused tr

/-- What the buffer and the flag say about the trace. -/
def Heard (tr : Trace) (c : Conn) : Prop :=
  match c.pc with
  | .closeClient | .returned => c.threadCompleteSuccess = true ↔ Served tr
  | .clientDone => c.threadCompleteSuccess = false ∧ (c.packetBuf.isSome ↔ Served tr)
  | .recv => c.threadCompleteSuccess = false ∧ NeverRefused tr ∧
      (c.packetBuf.isSome ↔ receivedBytes tr ≠ []) ∧ (c.packetBuf = none → c.packetSize = 0)
  | .nextByte => c.threadCompleteSuccess = false ∧ Served tr ∧
      (c.packetBuf = none → c.packetSize = 0 ∧ c.buf ≠ [])
  | .grow => c.threadCompleteSuccess = false ∧ Served tr
  | _ => c.threadCompleteSuccess = false ∧ Served tr ∧ c.packetBuf.isSome

variable {build : Build} {c t : Conn} {e : Call × Answer} {tr : Trace}

theorem neverRefused_concat :
    NeverRefused (tr ++ [e]) ↔ NeverRefused tr ∧ reallocFails e = false := by
  simp only [NeverRefused, List.forall_mem_append, List.forall_mem_singleton]

theorem Served.concat (h : Served tr) (he : reallocFails e = false) : Served (tr ++ [e]) :=
  ⟨by simp [h.1], neverRefused_concat.mpr ⟨h.2, he⟩⟩

theorem heard_of_phase (hp : c.pc.phase ≠ .gathering) (hover : c.pc.phase ≠ .ended) :
    Heard tr c ↔ c.threadCompleteSuccess = false ∧ Served tr ∧ c.packetBuf.isSome := by
  unfold Heard
  cases hpc : c.pc <;> simp [hpc, Pc.phase] at hp hover <;> rfl

theorem grow_of_reallocFails (h : c.step build e = some t) (he : reallocFails e = true) :
    c.pc = .grow := by
  obtain ⟨call, a⟩ := e
  cases move_of_step h
  case refused => rfl
  case writes w _ _ | wrote w _ _ => cases w <;> cases he
  all_goals cases he

/-- Collecting a packet: what has been received is in `buf` or in the block. -/
theorem heard_gathering (hc : Heard tr c) (hp : c.pc.phase = .gathering)
    (h : c.step build e = some t) : Heard (tr ++ [e]) t := by
  obtain ⟨call, a⟩ := e
  cases move_of_step h <;> cases hp
  case received hne =>
    obtain ⟨hflag, hnone, -, hsize⟩ := hc
    exact ⟨hflag, ⟨by simp [taken, hne], neverRefused_concat.mpr ⟨hnone, rfl⟩⟩,
      fun hb => ⟨hsize hb, hne⟩⟩
  case hungUp ha =>
    obtain ⟨hflag, hnone, hbuf, -⟩ := hc
    have hnone' : NeverRefused (tr ++ [(.recv, a)]) := neverRefused_concat.mpr ⟨hnone, rfl⟩
    have hbytes : receivedBytes (tr ++ [(.recv, a)]) = receivedBytes tr := by
      rcases ha with rfl | rfl <;> simp [taken]
    exact ⟨hflag, hbuf.trans (by simp only [Served, hbytes, hnone', and_true])⟩
  case drained hnil =>
    obtain ⟨hflag, hserved, hbuf⟩ := hc
    have hserved' : Served (tr ++ [(.tau, .done)]) := hserved.concat rfl
    refine ⟨hflag, hserved'.2, iff_of_true ?_ hserved'.1, fun hb => (hbuf hb).1⟩
    exact Option.isSome_iff_ne_none.mpr fun hb => (hbuf hb).2 hnil
  case full =>
    obtain ⟨hflag, hserved, -⟩ := hc
    exact ⟨hflag, hserved.concat rfl⟩
  case room hroom =>
    obtain ⟨hflag, hserved, hbuf⟩ := hc
    refine ⟨hflag, hserved.concat rfl, Option.isSome_iff_ne_none.mpr fun hb => ?_⟩
    have := (hbuf hb).1
    simp only at hroom this
    omega
  case grown =>
    obtain ⟨hflag, hserved⟩ := hc
    exact ⟨hflag, hserved.concat rfl, rfl⟩
  case refused =>
    refine ⟨hc.1, iff_of_false (by simp) fun hserved' => ?_⟩
    simpa [reallocFails] using (neverRefused_concat.mp hserved'.2).2
  case stored c b rest mem hbuf hmem =>
    obtain ⟨hflag, hserved, -⟩ := hc
    have hserved' : Served (tr ++ [(.tau, .done)]) := hserved.concat rfl
    by_cases hb : b = newline
    · rw [if_pos hb]
      exact ⟨hflag, hserved', rfl⟩
    · rw [if_neg hb]
      exact ⟨hflag, hserved', fun hb => absurd hb (Option.some_ne_none _)⟩

theorem heard_over (hc : Heard tr c) (hp : c.pc.phase = .ended) (h : c.step build e = some t) :
    Heard (tr ++ [e]) t := by
  have hserved : taken e = [] → reallocFails e = false → (Served (tr ++ [e]) ↔ Served tr) := by
    intro htaken hgranted
    simp [Served, neverRefused_concat, htaken, hgranted]
  obtain ⟨call, a⟩ := e
  cases move_of_step h <;> cases hp
  case finished c =>
    obtain ⟨hflag, hbuf⟩ := hc
    have hbuf := hbuf.trans (hserved rfl rfl).symm
    unfold Conn.finish
    split
    · rename_i hsome
      exact iff_of_true rfl (hbuf.mp (by simp [hsome]))
    · rename_i hnone
      simp only [hnone, Option.isSome_none, Bool.false_eq_true, false_iff] at hbuf
      exact iff_of_false (by simpa using hflag) hbuf
  case closedClient => exact hc.trans (hserved rfl rfl).symm

theorem heard_step (hc : Heard tr c) (h : c.step build e = some t) : Heard (tr ++ [e]) t := by
  by_cases hg : c.pc.phase = .gathering
  · exact heard_gathering hc hg h
  by_cases ho : c.pc.phase = .ended
  · exact heard_over hc ho h
  obtain ⟨hflag, hserved, hbuf⟩ := (heard_of_phase hg ho).mp hc
  have hserved' : Served (tr ++ [e]) := by
    refine hserved.concat ?_
    by_contra he
    exact hg (by simp [grow_of_reallocFails h (by simpa using he), Pc.phase])
  have hsome : c.packetBuf ≠ none := Option.isSome_iff_ne_none.mp hbuf
  have hstays : t = { c with pc := t.pc } → t.pc.phase ≠ .gathering → t.pc.phase ≠ .ended →
      Heard (tr ++ [e]) t := by
    intro ht hg' ho'
    refine (heard_of_phase hg' ho').mpr ?_
    rw [ht]
    exact ⟨hflag, hserved', hbuf⟩
  cases hp : c.pc.phase with
  | gathering => exact absurd hp hg
  | ended => exact absurd hp ho
  | dispatching =>
    obtain ⟨-, -, -, ht, hq⟩ := dispatching_step hp h
    exact hstays ht (by simp [hq]) (by simp [hq])
  | handling =>
    obtain ⟨-, -, ⟨ht, hq⟩ | ⟨ht, -⟩⟩ := handling_step hp h
    · rcases hq with ⟨hq, -⟩ | ⟨hq, -⟩ | ⟨hq, -⟩
      all_goals exact hstays ht (by rw [hq]; simp) (by rw [hq]; simp)
    · exact ht ▸ ⟨hflag, hserved', fun hnone => absurd hnone hsome⟩
  | givingUp =>
    obtain ⟨-, -, -, ht | ht⟩ := givingUp_step hp h
    · exact ht ▸ ⟨hflag, hserved', fun hnone => absurd hnone hsome⟩
    · exact ht ▸ ⟨hflag, hserved'.2, iff_of_true hbuf hserved'.1, fun hnone => absurd hnone hsome⟩
  | leaving =>
    obtain ⟨ht, hq⟩ := leaving_step hp h
    exact hstays ht (by simp [hq]) (by simp [hq])

theorem run_heard {fd : Nat} (h : run (Conn.step build) (Conn.start fd) tr = some c) :
    Heard tr c := by
  refine run_invariant (I := Heard) ?_ (fun es u e t _ ht ih => heard_step ih ht) h
  exact ⟨rfl, by simp [NeverRefused], by simp [Conn.start, receivedBytes], fun _ => rfl⟩

variable {σ : Type} {os : Os σ} {w u : World σ}

/-- The thread that has been created and is about to be inserted. -/
def entering (w : World σ) : List Nat :=
  match w.main with
  | .insert thread => [thread]
  | _ => []

/-- What the sweep has still to look at. -/
def toSweep (w : World σ) : List Nat :=
  match w.main with
  | .sweep items => items
  | .joining item items => item :: items
  | _ => []

/-- The list and the joined threads, whatever the handlers do. -/
structure Kept (w : World σ) : Prop where
  once : w.joined.Nodup
  finished : ∀ i ∈ w.joined, ∃ c, w.clients[i]? = some c ∧ c.pc = .returned ∧
    c.threadCompleteSuccess = true
  listed : w.active ++ entering w = (List.range w.clients.length).filter (· ∉ w.joined)
  ahead : (toSweep w).Sublist w.active
  flagged : ∀ item items, w.main = .joining item items →
    (w.clients[item]?).map Conn.threadCompleteSuccess = some true

theorem start_kept (s : σ) : Kept (World.start build s) := by
  refine ⟨List.nodup_nil, nofun, ?_, ?_, ?_⟩
  · cases build <;> rfl
  · cases build <;> exact List.Sublist.refl _
  · intro item items h
    cases build <;> cases h

theorem returned_stops (hpc : c.pc = .returned) : c.step build e = none := by
  simp [Conn.step, Conn.call, hpc]

/-- `main` outside the insertion and the sweep: the list stays as it is. -/
theorem Kept.moved {w' : World σ} (hk : Kept w) (hnone : entering w = [])
    (hclients : w'.clients = w.clients) (hactive : w'.active = w.active) (hjoined : w'.joined = w.joined) (hnone' : entering w' = [])
    (hahead' : toSweep w' = []) : Kept w' := by
  obtain ⟨honce, hfinished, hlisted, -, -⟩ := hk
  refine ⟨hjoined ▸ honce, ?_, ?_, hahead' ▸ List.nil_sublist _, ?_⟩
  · rw [hjoined, hclients]
    exact hfinished
  · rw [hnone', hactive, hclients, hjoined, ← hnone]
    exact hlisted
  · intro item items hmain
    simp [toSweep, hmain] at hahead'

theorem kept_main {a : Answer} (hk : Kept w) (h : w.resumeMain build a = some u) : Kept u := by
  cases hmain : w.main with
  | clear | clearClose | setup | createStamp | accept =>
    have hnone : entering w = [] := by simp [entering, hmain]
    cases a <;> simp only [World.resumeMain, hmain, Option.some.injEq, reduceCtorEq] at h <;>
      subst h <;> cases build <;>
      exact hk.moved hnone rfl rfl rfl (by simp [entering, hmain]) (by simp [toSweep, hmain])
  | create fd =>
    have hnone : entering w = [] := by simp [entering, hmain]
    cases a <;> simp only [World.resumeMain, hmain, Option.some.injEq, reduceCtorEq] at h
    case failed =>
      subst h
      exact hk.moved hnone rfl rfl rfl (by simp [entering]) (by simp [toSweep])
    case done =>
      obtain ⟨honce, hfinished, hlisted, -, -⟩ := hk
      subst h
      rw [hnone, List.append_nil] at hlisted
      refine ⟨honce, fun i hi => ?_, ?_, List.nil_sublist _, fun _ _ hjoin => by cases hjoin⟩
      · obtain ⟨c, hc, hpc⟩ := hfinished i hi
        exact ⟨c, by rw [List.getElem?_append_left (List.getElem?_eq_some_iff.mp hc).1, hc], hpc⟩
      · have hnew : w.clients.length ∉ w.joined := by
          intro hj
          obtain ⟨c, hc, -⟩ := hfinished _ hj
          simp at hc
        simp [entering, List.range_succ, hlisted, hnew]
  | insert thread =>
    obtain ⟨honce, hfinished, hlisted, -, -⟩ := hk
    cases a <;> simp only [World.resumeMain, hmain, Option.some.injEq, reduceCtorEq] at h
    subst h
    simp only [entering, hmain] at hlisted
    exact ⟨honce, hfinished, by simpa [entering] using hlisted, List.Sublist.refl _,
      fun _ _ hjoin => by cases hjoin⟩
  | sweep items =>
    have hnone : entering w = [] := by simp [entering, hmain]
    cases items with
    | nil =>
      cases a <;> simp only [World.resumeMain, hmain, Option.some.injEq, reduceCtorEq] at h
      subst h
      exact hk.moved hnone rfl rfl rfl rfl rfl
    | cons item items =>
      obtain ⟨honce, hfinished, hlisted, hahead, -⟩ := hk
      simp only [toSweep, hmain] at hahead
      cases a <;> simp only [World.resumeMain, hmain, reduceCtorEq] at h
      split_ifs at h with hflag
      · cases h
        rw [hnone] at hlisted
        refine ⟨honce, hfinished, hlisted, hahead, fun item' items' hjoin => ?_⟩
        cases hjoin
        exact hflag
      · cases h
        rw [hnone] at hlisted
        exact ⟨honce, hfinished, hlisted, (List.sublist_cons_self _ _).trans hahead,
          fun _ _ hjoin => by cases hjoin⟩
  | joining item items =>
    obtain ⟨honce, hfinished, hlisted, hahead, hflagged⟩ := hk
    simp only [toSweep, hmain] at hahead
    simp only [entering, hmain, List.append_nil] at hlisted
    cases a <;> simp only [World.resumeMain, hmain, reduceCtorEq] at h
    split_ifs at h with hpc
    cases h
    have hin : item ∈ w.active := hahead.subset List.mem_cons_self
    have hout : item ∉ w.joined := by
      rw [hlisted] at hin
      simpa using (List.mem_filter.mp hin).2
    obtain ⟨c, hc, hret⟩ := Option.map_eq_some_iff.mp hpc
    have hflag := hflagged item items hmain
    rw [hc] at hflag
    have hnodup : (item :: items).Nodup := hahead.nodup (hlisted ▸ List.nodup_range.filter _)
    have hitems : items.filter (· ≠ item) = items :=
      List.filter_eq_self.mpr fun i hi =>
        decide_eq_true (ne_of_mem_of_not_mem hi (List.nodup_cons.mp hnodup).1)
    refine ⟨?_, fun i hi => ?_, ?_, ?_, fun _ _ hjoin => by cases hjoin⟩
    · rw [List.nodup_append]
      exact ⟨honce, by simp, by simpa using fun i hi (he : i = item) => hout (he ▸ hi)⟩
    · rcases List.mem_append.mp hi with hi | hi
      · exact hfinished i hi
      · rw [List.mem_singleton.mp hi]
        exact ⟨c, hc, hret, Option.some.inj hflag⟩
    · simp only [entering, List.append_nil, hlisted, List.filter_filter]
      refine List.filter_congr fun i _ => ?_
      simp [and_comm]
    · have hsub := hahead.filter (· ≠ item)
      rw [List.filter_cons_of_neg (by simp), hitems] at hsub
      exact hsub

theorem Kept.step {e : Event} (hk : Kept w) (h : w.step build os e = some u) : Kept u := by
  obtain ⟨-, s, m, v, -, -, hv, rfl⟩ := World.step_eq_some.mp h
  obtain ⟨tid, call, a⟩ := e
  cases tid with
  | main =>
    obtain ⟨honce, hfinished, hlisted, hahead, hflagged⟩ := kept_main hk (World.thread_main.mp hv).2
    exact ⟨honce, hfinished, hlisted, hahead, hflagged⟩
  | stamp =>
    obtain ⟨st, st', -, -, -, rfl⟩ := World.thread_stamp.mp hv
    obtain ⟨honce, hfinished, hlisted, hahead, hflagged⟩ := hk
    exact ⟨honce, hfinished, hlisted, hahead, hflagged⟩
  | client i =>
    obtain ⟨c, c', hc, hstep, rfl⟩ := World.thread_client.mp hv
    obtain ⟨honce, hfinished, hlisted, hahead, hflagged⟩ := hk
    refine ⟨honce, fun j hj => ?_, ?_, hahead, fun item items hmain => ?_⟩
    · obtain ⟨d, hd, hpc, hflag⟩ := hfinished j hj
      refine ⟨d, (List.getElem?_set_ne ?_).trans hd, hpc, hflag⟩
      rintro rfl
      rw [hc] at hd
      cases hd
      simp [returned_stops hpc] at hstep
    · rw [List.length_set]
      exact hlisted
    · have hflag := hflagged item items hmain
      by_cases hi : i = item
      · subst hi
        rw [hc] at hflag
        rw [List.getElem?_set_self (List.getElem?_eq_some_iff.mp hc).1]
        exact congrArg some ((step_kept hstep).2 (Option.some.inj hflag))
      · rw [List.getElem?_set_ne hi]
        exact hflag

/-- A thread that has ended stays as it was. -/
theorem returned_run {tr : List Event} (h : run (World.step build os) w tr = some u) {i : Nat}
    (hc : w.clients[i]? = some c) (hpc : c.pc = .returned) : u.clients[i]? = some c := by
  refine run_invariant (I := fun _ u => u.clients[i]? = some c) hc ?_ h
  intro es v e t _ ht hv
  by_cases hne : e.tid = .client i
  · obtain ⟨-, s, m, x, -, -, hx, rfl⟩ := World.step_eq_some.mp ht
    obtain ⟨tid, call, a⟩ := e
    subst hne
    obtain ⟨d, d', hd, hstep, rfl⟩ := World.thread_client.mp hx
    rw [hv] at hd
    cases hd
    simp [returned_stops hpc] at hstep
  · exact client_kept ht hne hv

/-- A sweep passes over no thread with its flag set. -/
theorem swept_step {e : Event} (h : w.step build os e = some u) {i : Nat}
    (hc : w.clients[i]? = some c) (hflag : c.threadCompleteSuccess = true)
    (hi : i ∈ w.joined ∨ i ∈ toSweep w) : i ∈ u.joined ∨ i ∈ toSweep u := by
  obtain ⟨-, s, m, v, -, -, hv, rfl⟩ := World.step_eq_some.mp h
  obtain ⟨tid, call, a⟩ := e
  cases tid with
  | stamp =>
    obtain ⟨st, st', -, -, -, rfl⟩ := World.thread_stamp.mp hv
    exact hi
  | client j =>
    obtain ⟨d, d', -, -, rfl⟩ := World.thread_client.mp hv
    exact hi
  | main =>
    have hres := (World.thread_main.mp hv).2
    cases hmain : w.main with
    | clear | clearClose | setup | createStamp | accept | create | insert =>
      have hj : i ∈ w.joined := by simpa [toSweep, hmain] using hi
      cases a <;> simp only [World.resumeMain, hmain, Option.some.injEq, reduceCtorEq] at hres <;>
        subst hres <;> exact Or.inl hj
    | sweep items =>
      simp only [toSweep, hmain] at hi
      cases items with
      | nil =>
        cases a <;> simp only [World.resumeMain, hmain, Option.some.injEq, reduceCtorEq] at hres
        subst hres
        exact hi
      | cons item items =>
        cases a <;> simp only [World.resumeMain, hmain, reduceCtorEq] at hres
        split_ifs at hres with hset
        · cases hres
          exact hi
        · cases hres
          refine hi.imp_right fun hi => ?_
          rcases List.mem_cons.mp hi with rfl | hi
          · simp [hc, hflag] at hset
          · exact hi
    | joining item items =>
      simp only [toSweep, hmain] at hi
      cases a <;> simp only [World.resumeMain, hmain, reduceCtorEq] at hres
      split_ifs at hres
      cases hres
      rcases hi with hi | hi
      · exact Or.inl (List.mem_append_left _ hi)
      · rcases List.mem_cons.mp hi with rfl | hi
        · exact Or.inl (by simp)
        · exact Or.inr hi

/-- What the registry promises, in one state of a run. -/
structure Registered (build : Build) (os : Os σ) (s : σ) (tr : List Event) (w : World σ) : Prop where
  once : w.joined.Nodup
  finished : ∀ i ∈ w.joined, ∃ c, w.clients[i]? = some c ∧ c.pc = .returned ∧
    c.threadCompleteSuccess = true
  listed : w.active ++ entering w = (List.range w.clients.length).filter (· ∉ w.joined)
  flagged : ∀ (i : Nat) (c : Conn), w.clients[i]? = some c → c.pc = .returned →
    c.threadCompleteSuccess = true
  swept : ∀ pre post u, tr = pre ++ post →
    run (World.step build os) (World.start build s) pre = some u → u.main = .sweep u.active →
      w.main = .accept → ∀ (i : Nat) (c : Conn), u.clients[i]? = some c → c.pc = .returned → i ∈ w.joined

theorem run_kept {s : σ} {tr : List Event}
    (h : run (World.step build os) (World.start build s) tr = some w) : Kept w :=
  run_invariant (I := fun _ w => Kept w) (start_kept s) (fun _ _ _ _ _ ht ih => ih.step ht) h

theorem swept_run {post : List Event} (h : run (World.step build os) u post = some w) {i : Nat}
    (hc : u.clients[i]? = some c) (hpc : c.pc = .returned) (hflag : c.threadCompleteSuccess = true)
    (hi : i ∈ u.joined ∨ i ∈ toSweep u) : i ∈ w.joined ∨ i ∈ toSweep w := by
  refine run_invariant (I := fun _ w => i ∈ w.joined ∨ i ∈ toSweep w) hi ?_ h
  intro es v e t hv ht ih
  exact swept_step ht (returned_run hv hc hpc) hflag ih

/-- In every state of every run: the registry keeps its promises exactly if every handler that
has ended has received something and has never been refused memory. -/
theorem registered_iff (build : Build) (os : Os σ) (s : σ) (tr : List Event) (w : World σ)
    (h : run (World.step build os) (World.start build s) tr = some w) :
    Registered build os s tr w ↔ ∀ (i : Nat) (c : Conn), w.clients[i]? = some c → c.pc = .returned →
      Served (project (.client i) tr) := by
  have hflag : ∀ (i : Nat) (c : Conn), w.clients[i]? = some c → c.pc = .returned →
      (c.threadCompleteSuccess = true ↔ Served (project (.client i) tr)) := by
    intro i c hc hpc
    have hheard := run_heard ((run_project h i).2 c hc)
    simpa only [Heard, hpc] using hheard
  constructor
  · intro hr i c hc hpc
    exact (hflag i c hc hpc).mp (hr.flagged i c hc hpc)
  · intro hserved
    obtain ⟨honce, hfinished, hlisted, -, -⟩ := run_kept h
    refine ⟨honce, hfinished, hlisted, fun i c hc hpc => (hflag i c hc hpc).mpr (hserved i c hc hpc), ?_⟩
    rintro pre post u rfl hu hsweep haccept i c hc hpc
    obtain ⟨u', hu', hpost⟩ := run_append_eq_some.mp h
    rw [hu] at hu'
    cases hu'
    have hcw := returned_run hpost hc hpc
    have hi : i ∈ u.joined ∨ i ∈ toSweep u := by
      have hlist := (run_kept hu).listed
      simp only [entering, hsweep, List.append_nil] at hlist
      by_cases hj : i ∈ u.joined
      · exact Or.inl hj
      · have hlt := (List.getElem?_eq_some_iff.mp hc).1
        exact Or.inr (by simp [toSweep, hsweep, hlist, hj, hlt])
    simpa [toSweep, haccept] using
      swept_run hpost hc hpc ((hflag i c hcw hpc).mpr (hserved i c hcw hpc)) hi

/-- The first client's thread has been joined, and the two other ones go on. -/
theorem registered_served : ∃ w, run (World.step .file anyAnswer) (World.start .file ()) inTurn = some w ∧
    Registered .file anyAnswer () inTurn w := by
  obtain ⟨w, hw⟩ := Option.isSome_iff_exists.mp (show
    (run (World.step .file anyAnswer) (World.start .file ()) inTurn).isSome = true by decide +kernel)
  have hpoints : (run (World.step .file anyAnswer) (World.start .file ()) inTurn).map
      (fun w => w.clients.map Conn.pc) = some [.returned, .recv, .recv] := by decide +kernel
  rw [hw] at hpoints
  refine ⟨w, hw, (registered_iff .file anyAnswer () inTurn w hw).mpr fun i c hc hpc => ?_⟩
  have hat : (w.clients.map Conn.pc)[i]? = some .returned := by simp [hc, hpc]
  rw [show w.clients.map Conn.pc = [.returned, .recv, .recv] from Option.some.inj hpoints] at hat
  obtain rfl : i = 0 := match i with
    | 0 => rfl
    | 1 | 2 => nomatch hat
    | _ + 3 => nomatch hat
  constructor
  · decide +kernel
  · unfold NeverRefused
    decide +kernel

/-- The client closes before it has sent anything. -/
def silent : List Event :=
  connected ++ [(.recv, .bytes []), (.tau, .done), (.closeClient 4, .done)].map
    fun (call, a) => ⟨.client 0, call, a⟩

theorem silent_stays : ¬ ∀ (build : Build) (os : Os Unit) (s : Unit) (tr : List Event)
    (w : World Unit), run (World.step build os) (World.start build s) tr = some w →
      Registered build os s tr w := by
  intro hall
  obtain ⟨w, hw⟩ := Option.isSome_iff_exists.mp (show (run (World.step .file anyAnswer)
    (World.start .file ()) silent).isSome = true by decide +kernel)
  have hend : (run (World.step .file anyAnswer) (World.start .file ()) silent).map
      (fun w => w.clients.map fun c => (c.pc, c.threadCompleteSuccess)) =
        some [(.returned, false)] := by decide +kernel
  rw [hw] at hend
  obtain ⟨c, hc, hcpc⟩ := List.map_eq_singleton_iff.mp (Option.some.inj hend)
  obtain ⟨hpc, hflag⟩ := Prod.mk.inj hcpc
  have := (hall .file anyAnswer () silent w hw).flagged 0 c (by simp [hc]) hpc
  simp [hflag] at this

end Aesd.Server
