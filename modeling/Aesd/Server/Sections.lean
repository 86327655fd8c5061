import Aesd.Server.Framing
import Aesd.Server.Process

/-!
# Sections in the order of the mutex

A run of the process, told by the order in which the mutex was taken: the
packets for which it was taken, and what every client has been sent since. As
long as nothing fails, the packets are the lines of the clients and the
timestamps, each of them once and in its thread's order.
-/
namespace Aesd.Server

open Segments PartialRun Exclusion

def sectionOf (e : Event) : Option (Tid × List UInt8) :=
  match e.call with
  | .lock p => some (e.tid, p)
  | _ => none

/-- Who took the mutex, and for which packet. -/
def sections (tr : List Event) : List (Tid × List UInt8) := tr.filterMap sectionOf

def packets (tr : List Event) : List (List UInt8) := (sections tr).map Prod.snd

/-- Taking the mutex begins an answer, and `send` goes on with it. -/
def hear (l : List (List UInt8)) : Call × Answer → List (List UInt8)
  | (.lock _, _) => l ++ [[]]
  | (.send data, .count n) => l.dropLast ++ [l.getLastD [] ++ data.take n]
  | _ => l

/-- What a client has been sent, section by section. -/
def answers (tr : Trace) : List (List UInt8) := tr.foldl hear []

/-- The answers due to one thread for its sections, when the packets `h` went before. -/
def replies (reply : List (List UInt8) → List UInt8) (tid : Tid) :
    List (List UInt8) → List (Tid × List UInt8) → List (List UInt8)
  | _, [] => []
  | h, (owner, p) :: rest =>
    (if owner = tid then [reply (h ++ [p])] else []) ++ replies reply tid (h ++ [p]) rest

theorem sections_concat (tr : List Event) (e : Event) :
    sections (tr ++ [e]) = sections tr ++ (sectionOf e).toList := by
  simp only [sections, List.filterMap_append, List.filterMap_cons, List.filterMap_nil]
  cases sectionOf e <;> rfl

theorem sections_append (tr tr' : List Event) : sections (tr ++ tr') = sections tr ++ sections tr' := by
  simp [sections]

theorem answers_concat (tr : Trace) (e : Call × Answer) : answers (tr ++ [e]) = hear (answers tr) e := by
  simp [answers]

theorem replies_append (reply : List (List UInt8) → List UInt8) (tid : Tid) (h : List (List UInt8))
    (l l' : List (Tid × List UInt8)) : replies reply tid h (l ++ l') =
      replies reply tid h l ++ replies reply tid (h ++ l.map Prod.snd) l' := by
  induction l generalizing h with
  | nil => simp [replies]
  | cons x l ih =>
    obtain ⟨owner, p⟩ := x
    simp [replies, ih, List.append_assoc]

theorem length_replies (reply : List (List UInt8) → List UInt8) (tid : Tid) (h : List (List UInt8))
    (l : List (Tid × List UInt8)) :
    (replies reply tid h l).length = (l.filter (·.1 = tid)).length := by
  induction l generalizing h with
  | nil => rfl
  | cons x l ih =>
    obtain ⟨owner, p⟩ := x
    by_cases hown : owner = tid <;> simp [replies, hown, ih]

/-- No call fails. -/
def Succeeds (tr : Trace) : Prop := ∀ e ∈ tr, e.2 ≠ .failed ∧ e.2 ≠ .killed

theorem succeeds_ends {e : Call × Answer} (h : e.2 ≠ .failed ∧ e.2 ≠ .killed) :
    endsHandler e = false ∧ errorExit e = false := by
  obtain ⟨call, a⟩ := e
  cases a with
  | failed => exact absurd rfl h.1
  | killed => exact absurd rfl h.2
  | done | fd | bytes | count | memory | time =>
    cases call with
    | openFile mode => cases mode <;> exact ⟨rfl, rfl⟩
    | _ => exact ⟨rfl, rfl⟩

theorem Succeeds.alive {tr : Trace} (h : Succeeds tr) : Alive tr :=
  fun e he => (succeeds_ends (h e he)).1

theorem Succeeds.quiet {build : Build} {fd : Nat} {tr : Trace} (h : Succeeds tr) :
    QuietAfterErrors build fd tr := by
  rintro pre e post c rfl - hexit
  simp [(succeeds_ends (h e (by simp))).2] at hexit

/-- Only the test for the seek command leads to the mutex. -/
theorem lock_of_step {build : Build} {c t : Conn} {e : Call × Answer} (h : c.step build e = some t)
    {seekto : Option (Nat × Nat)} (ht : t.pc = .lock seekto) :
    c.pc = .dispatch ∧ ∃ past, t = c.dispatch build past := by
  obtain ⟨call, a⟩ := e
  cases move_of_step h
  case dispatched c past => exact ⟨rfl, past, by cases build <;> rfl⟩
  case stored b rest mem hbuf hmem =>
    dsimp only at ht
    split_ifs at ht
  case wrote w ok hw => cases ok <;> cases ht
  case closedUnsent s fd ha => cases s <;> cases ht
  case finished c =>
    unfold Conn.finish at ht
    split at ht <;> cases ht
  all_goals cases ht

/-- The packet in front of the mutex was tested, with whatever lies behind it in memory. -/
theorem run_dispatched {build : Build} {fd : Nat} {tr : Trace} {c : Conn}
    (h : run (Conn.step build) (Conn.start fd) tr = some c) {seekto : Option (Nat × Nat)}
    (hpc : c.pc = .lock seekto) : (build = .file → seekto = none) ∧
      (build = .driver → ∃ past, seekto = seekCommand (c.packet ++ past)) := by
  cases tr using List.reverseRecOn with
  | nil =>
    cases h
    cases hpc
  | append_singleton es e =>
    obtain ⟨u, -, hu⟩ := run_concat_eq_some.mp h
    obtain ⟨-, past, rfl⟩ := lock_of_step hu hpc
    cases build with
    | file =>
      cases hpc
      exact ⟨fun _ => rfl, nofun⟩
    | driver =>
      cases hpc
      refine ⟨nofun, fun _ => ⟨u.memory.drop u.packetLen ++ past, ?_⟩⟩
      have hmem : u.packet ++ u.memory.drop u.packetLen = u.memory := List.take_append_drop _ _
      rw [← List.append_assoc]
      exact congrArg (fun mem => seekCommand (mem ++ past)) hmem.symm

/-- While nothing fails, a handler works on lines. -/
theorem run_line {build : Build} {fd : Nat} {tr : Trace} {c : Conn}
    (h : run (Conn.step build) (Conn.start fd) tr = some c) (hs : Succeeds tr)
    (hp : c.pc.phase = .handling) : IsLine newline c.packet := by
  have hquiet : QuietAfterErrors build fd (tr ++ []) := by
    rw [List.append_nil]
    exact hs.quiet
  rcases run_clean h hs.alive hquiet with ⟨⟨s, -, hold⟩, -⟩ | ⟨⟨-, -, hphase⟩, -⟩
  · simp only [Pc.Holds, hp] at hold
    obtain ⟨hproc, -, hlast⟩ := hold
    exact isLine_of_mem_segments (hproc ▸ List.mem_of_getLast? hlast)
  · simp [hp] at hphase

/-- The packet for which a call takes the mutex. -/
def lockedFor : Call × Answer → Option (List UInt8)
  | (.lock p, _) => some p
  | _ => none

def locked (tr : Trace) : List (List UInt8) := tr.filterMap lockedFor

theorem locked_concat (tr : Trace) (e : Call × Answer) :
    locked (tr ++ [e]) = locked tr ++ (lockedFor e).toList := by
  simp only [locked, List.filterMap_append, List.filterMap_cons, List.filterMap_nil]
  cases lockedFor e <;> rfl

/-- The packets one thread took the mutex for. -/
def recordsOf (tid : Tid) (tr : List Event) : List (List UInt8) :=
  ((sections tr).filter (·.1 = tid)).map Prod.snd

theorem recordsOf_eq (tid : Tid) (tr : List Event) : recordsOf tid tr = locked (project tid tr) := by
  induction tr using List.reverseRecOn with
  | nil => rfl
  | append_singleton tr e ih =>
    obtain ⟨owner, call, a⟩ := e
    rw [recordsOf, sections_concat, List.filter_append, List.map_append, ← recordsOf, ih]
    by_cases hown : owner = tid
    · subst hown
      rw [project_concat_self, locked_concat]
      cases call <;> simp [sectionOf, lockedFor]
    · rw [project_concat_ne hown]
      cases call <;> simp [sectionOf, hown]

/-- The packet that waits in front of the mutex. -/
def waiting (c : Conn) : List (List UInt8) :=
  match c.pc with
  | .lock _ => [c.packet]
  | _ => []

theorem waiting_eq_nil {c : Conn} (h : ∀ seekto, c.pc ≠ .lock seekto) : waiting c = [] := by
  unfold waiting
  split
  · exact absurd ‹_› (h _)
  · rfl

/-- A completed packet is waiting, or the mutex was taken for it. -/
theorem run_locked {build : Build} {fd : Nat} {tr : Trace} {c : Conn}
    (h : run (Conn.step build) (Conn.start fd) tr = some c) :
    processed tr = locked tr ++ waiting c := by
  refine run_invariant (I := fun tr c => processed tr = locked tr ++ waiting c) rfl ?_ h
  intro es u e t hu ht ih
  obtain ⟨call, a⟩ := e
  rw [processed_concat, locked_concat, ih]
  cases move_of_step ht
  case dispatched c past =>
    cases build <;> simp [completed, lockedFor, waiting, Conn.dispatch, Conn.packet, Conn.memory]
  case stored c b rest mem hbuf hmem =>
    by_cases hb : b = newline <;> simp [completed, lockedFor, waiting, hb]
  case writes w w' hw => cases w <;> simp [completed, lockedFor, waiting, WritePc.call]
  case wrote w ok hw => cases w <;> cases ok <;> simp [completed, lockedFor, waiting, WritePc.call]
  case closedUnsent s fd ha => cases s <;> simp [completed, lockedFor, waiting]
  case finished c =>
    unfold Conn.finish
    cases c.packetBuf <;> simp [completed, lockedFor, waiting]
  all_goals simp [completed, lockedFor, waiting, Conn.packet, Conn.memory]

/-- While nothing fails, a handler takes the mutex once for every line of its client, in the
order of the stream. -/
theorem run_recorded {build : Build} {fd : Nat} {tr : Trace} {c : Conn}
    (h : run (Conn.step build) (Conn.start fd) tr = some c) (hs : Succeeds tr) :
    locked tr <+: segments newline (receivedBytes tr) ∧
      (Resting c → locked tr = segments newline (receivedBytes tr)) := by
  have hquiet : QuietAfterErrors build fd (tr ++ []) := by
    rw [List.append_nil]
    exact hs.quiet
  have hframed := framed_of_clean h hs.alive ((run_clean h hs.alive hquiet).imp And.left And.left)
  have hlocked := run_locked h
  refine ⟨(List.prefix_append _ _).trans (hlocked ▸ hframed.ordered), fun hrest => ?_⟩
  have hwait : waiting c = [] := by
    refine waiting_eq_nil fun seekto hpc => ?_
    rcases hrest with hr | hr
    · simp [hr] at hpc
    · simp [hpc, Pc.phase] at hr
  rw [← hframed.all hrest, hlocked, hwait, List.append_nil]

/-- The record of one round of the timestamp thread. -/
def stampedBy : Call × Answer → Option (List UInt8)
  | (_, .time tm) => some (timestamp tm)
  | _ => none

def stamped (tr : Trace) : List (List UInt8) := tr.filterMap stampedBy

theorem stamped_concat (tr : Trace) (e : Call × Answer) :
    stamped (tr ++ [e]) = stamped tr ++ (stampedBy e).toList := by
  simp only [stamped, List.filterMap_append, List.filterMap_cons, List.filterMap_nil]
  cases stampedBy e <;> rfl

/-- The record that waits in front of the mutex. -/
def Stamp.waiting (s : Stamp) : List (List UInt8) :=
  match s.pc with
  | .lock => [s.timeStr]
  | _ => []

theorem stamp_recorded_step {s s' : Stamp} {a : Answer} (h : s.resume a = some s') {tr : Trace}
    (ih : stamped tr = locked tr ++ s.waiting) :
    stamped (tr ++ [(s.call, a)]) = locked (tr ++ [(s.call, a)]) ++ s'.waiting := by
  rw [stamped_concat, locked_concat, ih]
  cases hpc : s.pc with
  | sleep | lock | unlock =>
    cases a <;> simp only [Stamp.resume, hpc, Option.some.injEq, reduceCtorEq] at h
    subst h
    simp [Stamp.waiting, Stamp.call, hpc, stampedBy, lockedFor]
  | writing p =>
    simp only [Stamp.resume, hpc] at h
    obtain ⟨next, hnext, rfl⟩ := Option.map_eq_some_iff.mp h
    have hnone : stampedBy (p.call s.timeStr, a) = none ∧ lockedFor (p.call s.timeStr, a) = none := by
      cases p <;> cases a <;> simp [WritePc.resume] at hnext <;> exact ⟨rfl, rfl⟩
    rcases next with p' | ok <;> simp [Stamp.waiting, Stamp.call, hpc, hnone]

/-- The timestamp thread takes the mutex once in every round. -/
theorem run_stamp_recorded {σ : Type} {build : Build} {os : Os σ} {s : σ} {tr : List Event}
    {w : World σ} (h : run (World.step build os) (World.start build s) tr = some w) :
    (w.main.starting = true → w.stamp = none) ∧ (w.stamp = none → project .stamp tr = []) ∧
      ∀ st, w.stamp = some st →
        stamped (project .stamp tr) = locked (project .stamp tr) ++ st.waiting := by
  refine run_invariant (I := fun tr w => (w.main.starting = true → w.stamp = none) ∧
    (w.stamp = none → project .stamp tr = []) ∧ ∀ st, w.stamp = some st →
      stamped (project .stamp tr) = locked (project .stamp tr) ++ st.waiting) ?_ ?_ h
  · exact ⟨fun _ => rfl, fun _ => rfl, nofun⟩
  · intro es u e v _ hv ⟨hstarting, hnone, hsome⟩
    obtain ⟨-, s', m, x, -, -, hx, rfl⟩ := World.step_eq_some.mp hv
    obtain ⟨tid, call, a⟩ := e
    cases tid with
    | main =>
      rw [project_concat_ne (by simp)]
      have hres := (World.thread_main.mp hx).2
      refine ⟨fun hstart => ?_, ?_⟩
      · obtain ⟨hstart', -, hstamp⟩ := (resumeMain_starting hres).2.1 hstart
        exact hstamp.trans (hstarting hstart')
      · rcases (resumeMain_cases hres).2 with hstamp | ⟨hmain, hstamp⟩
        · simp only [hstamp]
          exact ⟨hnone, hsome⟩
        · rw [hnone (hstarting (by rw [hmain]; rfl))]
          simp only [hstamp, reduceCtorEq, false_implies, true_and, Option.some.injEq]
          rintro st rfl
          rfl
    | stamp =>
      obtain ⟨st, st', hst, rfl, hres, rfl⟩ := World.thread_stamp.mp hx
      rw [project_concat_self]
      refine ⟨fun hstart => ?_, nofun, fun st₁ hst₁ => ?_⟩
      · simp [hstarting hstart] at hst
      · cases hst₁
        exact stamp_recorded_step hres (hsome st hst)
    | client i =>
      rw [project_concat_ne (by simp)]
      obtain ⟨c, c', -, -, rfl⟩ := World.thread_client.mp hx
      exact ⟨hstarting, hnone, hsome⟩

/-- Every line of every client and every timestamp is recorded once, in its thread's order, as
soon as its thread gets the mutex. -/
structure Recorded {σ : Type} (tr : List Event) (w : World σ) : Prop where
  clients : ∀ i c, w.clients[i]? = some c →
    recordsOf (.client i) tr <+: segments newline (receivedBytes (project (.client i) tr)) ∧
      (Resting c →
        recordsOf (.client i) tr = segments newline (receivedBytes (project (.client i) tr)))
  nobody : ∀ i, w.clients[i]? = none → recordsOf (.client i) tr = []
  stamps : recordsOf .stamp tr <+: stamped (project .stamp tr) ∧
    ((∀ st, w.stamp = some st → st.pc ≠ .lock) → recordsOf .stamp tr = stamped (project .stamp tr))
  main : recordsOf .main tr = []

theorem main_records {σ : Type} {build : Build} {os : Os σ} {s : σ} {tr : List Event} {w : World σ}
    (h : run (World.step build os) (World.start build s) tr = some w) : recordsOf .main tr = [] := by
  refine run_invariant (I := fun tr _ => recordsOf .main tr = []) rfl ?_ h
  intro es u e v _ hv ih
  obtain ⟨tid, call, a⟩ := e
  rw [recordsOf_eq] at ih ⊢
  by_cases htid : tid = .main
  · subst htid
    obtain ⟨-, s', m, x, -, -, hx, rfl⟩ := World.step_eq_some.mp hv
    obtain ⟨rfl, -⟩ := World.thread_main.mp hx
    rw [project_concat_self, locked_concat, ih]
    cases u.main <;> rfl
  · rw [project_concat_ne htid, ih]

theorem recorded_of_run {σ : Type} {build : Build} {os : Os σ} {s : σ} {tr : List Event} {w : World σ}
    (h : run (World.step build os) (World.start build s) tr = some w)
    (hs : ∀ tid, Succeeds (project tid tr)) : Recorded tr w := by
  refine ⟨fun i c hc => ?_, fun i hi => ?_, ?_, main_records h⟩
  · rw [recordsOf_eq]
    exact run_recorded ((run_project h i).2 c hc) (hs _)
  · rw [recordsOf_eq, (run_project h i).1 hi]
    rfl
  · rw [recordsOf_eq]
    obtain ⟨-, hnone, hsome⟩ := run_stamp_recorded h
    cases hst : w.stamp with
    | none =>
      rw [hnone hst]
      exact ⟨List.prefix_rfl, fun _ => rfl⟩
    | some st =>
      rw [hsome st hst]
      refine ⟨List.prefix_append _ _, fun hlock => ?_⟩
      have hpc := hlock st rfl
      have hwait : st.waiting = [] := by
        cases hq : st.pc <;> simp [Stamp.waiting, hq]
        exact absurd hq hpc
      rw [hwait, List.append_nil]

end Aesd.Server
