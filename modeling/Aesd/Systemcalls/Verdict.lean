import Aesd.Systemcalls.Exec

/-!
# What the caller gets

`true` stands for the command of this very call, as long as a failed `fork` is
not followed by a `waitpid` that takes one of the caller's other children. The
output file stays open in the caller whenever `do_exec_redirect` returns.
-/
namespace Aesd.Systemcalls

open PartialRun

/-- The child of this call ran the command to a normal exit with status 0, and was waited for. -/
def Succeeded (call : Invocation) (w : World) : Prop :=
  ∃ c path, w.child = some c ∧ call.path = some path ∧ c.executed = some (path, call.command) ∧
    c.ending = some (.exited exitSuccess) ∧ w.children c.pid = none

/-- The function came back with the right answer, and left the caller's other children and its
descriptors alone. -/
structure Meets (call : Invocation) (entry w : World) : Prop where
  verdict : ∃ r, w.pc = .returned r ∧ (r = true ↔ Succeeded call w)
  others : ∀ pid, entry.children pid ≠ none → w.children pid ≠ none
  descriptors : w.descriptors = entry.descriptors

def Ended (w : World) : Prop := (∃ r, w.pc = .returned r) ∨ w.pc = .aborted

/-- The call has waited for nobody. -/
def Quiet (tr : List Event) : Prop := ∀ pid, .reaped pid ∉ tr

/-- `fork` failed, and `waitpid(-1)` then took a child. -/
def StrayReap (tr : List Event) : Prop := .forkFails ∈ tr ∧ ∃ pid, .reaped pid ∈ tr

/-- How far the call has come, and by which of its branches. -/
def Course (k : Children) (tr : List Event) (w : World) : Prop :=
  match w.pc with
  | .openFile | .fork => w.child = none ∧ .forkFails ∉ tr ∧ Quiet tr
  | .waitpid request => Quiet tr ∧
    ((.forkFails ∉ tr ∧ ∃ c, w.child = some c ∧ request = c.pid) ∨
      (.forkFails ∈ tr ∧ w.child = none ∧ request = -1))
  | .aborted => Quiet tr
  | .returned r => (r = false ∧ Quiet tr) ∨
    (.forkFails ∉ tr ∧ ∃ c e, w.child = some c ∧ c.ending = some e ∧ r = result e.status ∧
      ∀ pid, .reaped pid ∈ tr ↔ pid = c.pid) ∨
    (.forkFails ∈ tr ∧ w.child = none ∧ ∃ pid, .reaped pid ∈ tr ∧ k pid ≠ none)

/-- The table of the children after the events `tr`, and the child of this call in it. -/
structure Inv (call : Invocation) (k : Children) (tr : List Event) (w : World) : Prop where
  course : Course k tr w
  gone : ∀ pid, .reaped pid ∈ tr → w.children pid = none
  kept : ∀ pid, k pid ≠ none → .reaped pid ∉ tr → w.children pid ≠ none
  known : ∀ pid, w.children pid ≠ none → k pid ≠ none ∨ w.child.map Child.pid = some pid
  own : ∀ c, w.child = some c →
    k c.pid = none ∧ (.reaped c.pid ∉ tr → w.children c.pid = some c.ending)
  executed : ∀ c, w.child = some c → c.pc = .command ∨ c.ending = some (.exited exitSuccess) →
    ∃ path, call.path = some path ∧ c.executed = some (path, call.command)

variable {call : Invocation} {d : Descriptors} {k : Children} {tr : List Event} {w t : World}
variable {e : Event}

theorem Child.Move.pid_eq {fd : Option Nat} {c c' : Child} {e : ChildEvent}
    (h : c.Move call fd e c') : c'.pid = c.pid := by
  cases h <;> rfl

theorem Child.Move.executed_kept {fd : Option Nat} {c c' : Child} {e : ChildEvent}
    (h : c.Move call fd e c')
    (hc : c.pc = .command ∨ c.ending = some (.exited exitSuccess) →
      ∃ path, call.path = some path ∧ c.executed = some (path, call.command))
    (hlive : c.ending = none)
    (hc' : c'.pc = .command ∨ c'.ending = some (.exited exitSuccess)) :
    ∃ path, call.path = some path ∧ c'.executed = some (path, call.command) := by
  cases h with
  | redirected | notRedirected | closed | notExecuted => simp [hlive] at hc'
  | executed _ hpath => exact ⟨_, hpath, rfl⟩
  | ended he =>
    apply hc
    rcases hc' with hpc | hending
    · exact Or.inl hpc
    · obtain rfl := Option.some.inj hending
      exact Or.inl (by simpa [Child.mayEnd, exitFailure, exitSuccess] using he)

theorem enter_inv (call : Invocation) (d : Descriptors) (k : Children) :
    Inv call k [] (enter call d k) := by
  constructor
  case course =>
    cases hout : call.outputfile <;> simp [Course, enter, hout, Quiet]
  case gone => simp
  case kept => exact fun _ hk _ => hk
  case known => exact fun _ hk => Or.inl hk
  case own => simp [enter]
  case executed => simp [enter]

theorem course_step (hi : Inv call k tr w) (h : Move call w e t) : Course k (tr ++ [e]) t := by
  have hc := hi.course
  unfold Course at hc
  cases h with
  | opened hpc => simpa [Course, hpc, Quiet] using hc
  | notOpened hpc =>
    rw [hpc] at hc
    simpa [Course, Quiet] using hc.2.2
  | forked hpc =>
    rw [hpc] at hc
    obtain ⟨-, hf, hq⟩ := hc
    exact ⟨by simpa [Quiet] using hq, Or.inl ⟨by simpa using hf, _, rfl, rfl⟩⟩
  | notForked hpc =>
    rw [hpc] at hc
    obtain ⟨hchild, -, hq⟩ := hc
    exact ⟨by simpa [Quiet] using hq, Or.inr ⟨by simp, hchild, rfl⟩⟩
  | @reaped request pid e hpc hended hrequest =>
    rw [hpc] at hc
    obtain ⟨hq, ⟨hf, c, hchild, rfl⟩ | ⟨hf, hchild, rfl⟩⟩ := hc
    · obtain rfl : c.pid = pid := by omega
      rw [(hi.own c hchild).2 (hq _)] at hended
      refine Or.inr (Or.inl ⟨by simpa using hf, c, e, hchild, Option.some.inj hended, rfl, ?_⟩)
      intro pid
      simp [hq pid]
    · refine Or.inr (Or.inr ⟨by simp [hf], hchild, pid, by simp, ?_⟩)
      have hknown := hi.known pid (by simp [hended])
      simpa [hchild] using hknown
  | notWaited hpc =>
    rw [hpc] at hc
    exact Or.inl ⟨rfl, by simpa [Quiet] using hc.1⟩
  | child hchild hlive hmove =>
    have hpid := hmove.pid_eq
    unfold Course
    cases hpc : w.pc with
    | openFile | fork => simp [hpc, hchild] at hc
    | waitpid => simpa [hpc, hchild, hpid, Quiet] using hc
    | aborted => simpa [hpc, Quiet] using hc
    | returned =>
      refine Or.inl ?_
      simpa [hpc, hchild, hlive, Quiet] using hc
  | other => simpa [Course, Quiet] using hc

/-- As long as it has not ended, nobody has waited for the child of this call. -/
theorem children_of_live (hi : Inv call k tr w) {c : Child} (hchild : w.child = some c)
    (hlive : c.ending = none) : w.children c.pid = some none := by
  rw [← hlive]
  apply (hi.own c hchild).2
  intro hreaped
  have hc := hi.course
  unfold Course at hc
  cases hpc : w.pc with
  | openFile | fork => simp [hpc, hchild] at hc
  | waitpid => exact (by simpa [hpc] using hc : Quiet tr ∧ _).1 _ hreaped
  | aborted => exact (by simpa [hpc] using hc : Quiet tr) _ hreaped
  | returned =>
    simp only [hpc, hchild] at hc
    rcases hc with ⟨-, hq⟩ | ⟨-, _, _, hc, hending, -⟩ | ⟨-, hnone, -⟩
    · exact hq _ hreaped
    · cases hc
      simp [hlive] at hending
    · cases hnone

/-- What a step does to one entry of the table. -/
theorem children_step (hi : Inv call k tr w) (h : Move call w e t) (pid : Nat) :
    t.children pid = w.children pid ∨ (e = .reaped pid ∧ t.children pid = none) ∨
      (w.pc = .fork ∧ t.child.map Child.pid = some pid ∧ t.children pid ≠ none) ∨
      (w.children pid ≠ none ∧ t.children pid ≠ none) := by
  have hother : ∀ {pid' : Nat} {x : Option (Option Ending)}, pid ≠ pid' →
      Function.update w.children pid' x pid = w.children pid :=
    fun hne => Function.update_of_ne hne _ _
  cases h with
  | opened | notOpened | notForked | notWaited => exact Or.inl rfl
  | @forked pid' hpc =>
    by_cases heq : pid = pid'
    · exact Or.inr (Or.inr (Or.inl ⟨hpc, by rw [heq]; rfl, by simp [heq]⟩))
    · exact Or.inl (hother heq)
  | @reaped _ pid' =>
    by_cases heq : pid = pid'
    · exact Or.inr (Or.inl ⟨by rw [heq], by simp [heq]⟩)
    · exact Or.inl (hother heq)
  | @child c c' _ hchild hlive =>
    simp only
    split
    · by_cases heq : pid = c.pid
      · have hruns := children_of_live hi hchild hlive
        exact Or.inr (Or.inr (Or.inr ⟨by simp [heq, hruns], by simp [heq]⟩))
      · exact Or.inl (hother heq)
    · exact Or.inl rfl
  | @other pid' _ hruns =>
    by_cases heq : pid = pid'
    · exact Or.inr (Or.inr (Or.inr ⟨by simp [heq, hruns], by simp [heq]⟩))
    · exact Or.inl (hother heq)

/-- What a step does to the child of this call: nothing but to wait for it, its creation, or a
step of its own. -/
theorem child_step (h : Move call w e t) :
    (t.child = w.child ∧
        ∀ c, w.child = some c → t.children c.pid = w.children c.pid ∨ e = .reaped c.pid) ∨
      (∃ pid, w.pc = .fork ∧ w.children pid = none ∧
        t.child = some (newChild call w.descriptors pid) ∧ t.children pid = some none) ∨
      ∃ c c' ce, w.child = some c ∧ c.ending = none ∧ c.Move call w.fd ce c' ∧ t.child = some c' ∧
        t.children = if c'.ending.isSome then Function.update w.children c.pid (some c'.ending)
          else w.children := by
  cases h with
  | opened | notOpened | notForked | notWaited => exact Or.inl ⟨rfl, fun _ _ => Or.inl rfl⟩
  | forked hpc _ hfresh => exact Or.inr (Or.inl ⟨_, hpc, hfresh, rfl, by simp⟩)
  | @reaped _ pid =>
    refine Or.inl ⟨rfl, fun c _ => ?_⟩
    by_cases heq : c.pid = pid
    · exact Or.inr (by rw [heq])
    · exact Or.inl (Function.update_of_ne heq _ _)
  | child hchild hlive hmove => exact Or.inr (Or.inr ⟨_, _, _, hchild, hlive, hmove, rfl, rfl⟩)
  | @other pid _ _ hother =>
    refine Or.inl ⟨rfl, fun c hc => Or.inl (Function.update_of_ne ?_ _ _)⟩
    rintro heq
    simp [hc, heq] at hother

theorem quiet_of_fork (hi : Inv call k tr w) (hpc : w.pc = .fork) :
    w.child = none ∧ .forkFails ∉ tr ∧ Quiet tr := by
  have hc := hi.course
  rwa [Course, hpc] at hc

theorem gone_step (hi : Inv call k tr w) (h : Move call w e t) {pid : Nat}
    (hpid : .reaped pid ∈ tr ++ [e]) : t.children pid = none := by
  rcases List.mem_append.mp hpid with hpid | hpid
  · have hnone := hi.gone pid hpid
    rcases children_step hi h pid with hsame | ⟨-, hgone⟩ | ⟨hpc, -⟩ | ⟨hsome, -⟩
    · rw [hsame, hnone]
    · exact hgone
    · exact absurd hpid ((quiet_of_fork hi hpc).2.2 pid)
    · exact absurd hnone hsome
  · obtain rfl := List.mem_singleton.mp hpid
    cases h
    simp

theorem kept_step (hi : Inv call k tr w) (h : Move call w e t) {pid : Nat} (hk : k pid ≠ none)
    (hpid : .reaped pid ∉ tr ++ [e]) : t.children pid ≠ none := by
  rw [List.mem_append, List.mem_singleton, not_or] at hpid
  have hsome := hi.kept pid hk hpid.1
  rcases children_step hi h pid with hsame | ⟨he, -⟩ | ⟨-, -, hafter⟩ | ⟨-, hafter⟩
  · rwa [hsame]
  · exact absurd he.symm hpid.2
  · exact hafter
  · exact hafter

theorem known_step (hi : Inv call k tr w) (h : Move call w e t) {pid : Nat}
    (hpid : t.children pid ≠ none) : k pid ≠ none ∨ t.child.map Child.pid = some pid := by
  have hknown : w.children pid ≠ none → k pid ≠ none ∨ t.child.map Child.pid = some pid := by
    intro hsome
    refine (hi.known pid hsome).imp_right fun hown => ?_
    rcases child_step h with ⟨hsame, -⟩ | ⟨_, hpc, -⟩ | ⟨c, c', _, hc, -, hmove, hc', -⟩
    · rwa [hsame]
    · simp [(quiet_of_fork hi hpc).1] at hown
    · rw [hc] at hown
      simpa [hc', hmove.pid_eq] using hown
  rcases children_step hi h pid with hsame | ⟨-, hgone⟩ | ⟨-, hown, -⟩ | ⟨hsome, -⟩
  · exact hknown (by rwa [← hsame])
  · exact absurd hgone hpid
  · exact Or.inr hown
  · exact hknown hsome

theorem own_step (hi : Inv call k tr w) (h : Move call w e t) {c' : Child}
    (hc' : t.child = some c') :
    k c'.pid = none ∧ (.reaped c'.pid ∉ tr ++ [e] → t.children c'.pid = some c'.ending) := by
  rcases child_step h with ⟨hsame, hentry⟩ | ⟨pid, hpc, hfresh, hnew, hruns⟩ |
    ⟨c, c'', _, hc, hlive, hmove, hnext, htable⟩
  · rw [hsame] at hc'
    obtain ⟨hk, hown⟩ := hi.own c' hc'
    refine ⟨hk, fun hpid => ?_⟩
    rw [List.mem_append, List.mem_singleton, not_or] at hpid
    rcases hentry c' hc' with hentry | rfl
    · rw [hentry, hown hpid.1]
    · exact absurd rfl hpid.2
  · rw [hnew] at hc'
    cases hc'
    refine ⟨?_, fun _ => hruns⟩
    by_contra hk
    exact hi.kept pid hk ((quiet_of_fork hi hpc).2.2 pid) hfresh
  · rw [hnext] at hc'
    cases hc'
    rw [hmove.pid_eq]
    refine ⟨(hi.own c hc).1, fun _ => ?_⟩
    rw [htable]
    split
    · simp
    · rename_i hend
      rw [Option.not_isSome_iff_eq_none] at hend
      rw [children_of_live hi hc hlive, hend]

theorem executed_step (hi : Inv call k tr w) (h : Move call w e t) {c' : Child}
    (hc' : t.child = some c') : c'.pc = .command ∨ c'.ending = some (.exited exitSuccess) →
      ∃ path, call.path = some path ∧ c'.executed = some (path, call.command) := by
  rcases child_step h with ⟨hsame, -⟩ | ⟨_, -, -, hnew, -⟩ | ⟨c, c'', _, hc, hlive, hmove, hnext, -⟩
  · exact hi.executed c' (by rw [← hsame, hc'])
  · rw [hnew] at hc'
    cases hc'
    cases hout : call.outputfile <;> simp [newChild, hout]
  · rw [hnext] at hc'
    cases hc'
    exact hmove.executed_kept (hi.executed c hc) hlive

theorem inv_step (hi : Inv call k tr w) (h : Move call w e t) : Inv call k (tr ++ [e]) t where
  course := course_step hi h
  gone _ hpid := gone_step hi h hpid
  kept _ hk hpid := kept_step hi h hk hpid
  known _ hpid := known_step hi h hpid
  own _ hc' := own_step hi h hc'
  executed _ hc' := executed_step hi h hc'

theorem run_inv (h : run (step call) (enter call d k) tr = some w) : Inv call k tr w :=
  run_invariant (enter_inv call d k) (fun _ _ _ _ _ hstep hi => inv_step hi (move_of_step hstep)) h

/-- Where the output file is: only `do_exec_redirect` opens it, and nobody closes it. -/
inductive Table (call : Invocation) (d : Descriptors) (w : World) : Prop where
  | untouched (hfd : w.fd = none) (hd : w.descriptors = d)
    (hpc : call.outputfile.isSome → w.pc = .openFile ∨ w.pc = .aborted)
    (hgo : call.outputfile = none → w.pc ≠ .openFile ∧ w.pc ≠ .aborted)
  | opened {fd : Nat} {outputfile : String} (hout : call.outputfile = some outputfile)
    (hfd : w.fd = some fd) (hfree : d fd = none)
    (hd : w.descriptors = Function.update d fd (some (.output outputfile)))
    (hpc : w.pc ≠ .openFile)

theorem enter_table (call : Invocation) (d : Descriptors) (k : Children) :
    Table call d (enter call d k) := by
  cases hout : call.outputfile with
  | none => exact .untouched rfl rfl (by simp [hout]) (by simp [enter, hout])
  | some outputfile => exact .untouched rfl rfl (by simp [enter, hout]) (by simp [hout])

theorem table_step (ht : Table call d w) (h : Move call w e t) : Table call d t := by
  cases ht with
  | untouched hfd hd hpc hgo =>
    cases h with
    | opened hpc' hout hfree =>
      refine .opened hout rfl (by rwa [← hd]) (by rw [hd]) (by simp)
    | notOpened hpc' =>
      refine .untouched hfd hd (fun _ => Or.inr rfl) (fun hout => absurd hpc' (hgo hout).1)
    | forked hpc' | notForked hpc' | reaped hpc' | notWaited hpc' =>
      refine .untouched hfd hd (fun hout => ?_) (by simp)
      simpa [hpc'] using hpc hout
    | child | other => exact .untouched hfd hd hpc hgo
  | opened hout hfd hfree hd hpc =>
    cases h with
    | opened hpc' | notOpened hpc' => exact absurd hpc' hpc
    | forked | notForked | reaped | notWaited => exact .opened hout hfd hfree hd (by simp)
    | child | other => exact .opened hout hfd hfree hd hpc

theorem run_table (h : run (step call) (enter call d k) tr = some w) : Table call d w :=
  run_invariant (I := fun _ => Table call d) (enter_table call d k)
    (fun _ _ _ _ _ hstep ht => table_step ht (move_of_step hstep)) h

/-- What is returned tells about the command, and the caller's other children are left alone,
unless a failed `fork` is followed by a child that `waitpid` takes. This is so for both functions. -/
theorem answer_iff (h : run (step call) (enter call d k) tr = some w) {r : Bool}
    (hr : w.pc = .returned r) :
    ((r = true ↔ Succeeded call w) ∧ ∀ pid, k pid ≠ none → w.children pid ≠ none) ↔
      ¬ StrayReap tr := by
  have hi := run_inv h
  have hc := hi.course
  rw [Course, hr] at hc
  rcases hc with ⟨rfl, hq⟩ | ⟨hf, c, e, hchild, hending, rfl, hreaped⟩ | ⟨hf, -, pid, hpid, hk⟩
  · refine iff_of_true ⟨?_, fun pid hk => hi.kept pid hk (hq pid)⟩ fun hstray => ?_
    · refine iff_of_false (by simp) ?_
      rintro ⟨c, -, hchild, -, -, -, hgone⟩
      rw [(hi.own c hchild).2 (hq _)] at hgone
      cases hgone
    · obtain ⟨pid, hpid⟩ := hstray.2
      exact hq pid hpid
  · refine iff_of_true ⟨?_, fun pid hk => hi.kept pid hk fun hpid => ?_⟩ fun hstray => hf hstray.1
    · rw [result_status]
      constructor
      · rintro rfl
        obtain ⟨path, hpath, hexec⟩ := hi.executed c hchild (Or.inr hending)
        exact ⟨c, path, hchild, hpath, hexec, hending, hi.gone _ ((hreaped _).mpr rfl)⟩
      · rintro ⟨c', -, hchild', -, -, hending', -⟩
        rw [hchild] at hchild'
        cases hchild'
        rw [hending] at hending'
        exact Option.some.inj hending'
    · rw [(hreaped pid).mp hpid] at hk
      exact hk (hi.own c hchild).1
  · refine iff_of_false (fun hkept => ?_) (not_not.mpr ⟨hf, pid, hpid⟩)
    exact hkept.2 pid hk (hi.gone pid hpid)

/-- `do_exec` keeps its promises exactly when it does not wait, after a failed `fork`, for a
child it has not created; `do_exec_redirect` never does, since it leaves the output file open
or aborts. -/
theorem meets_iff (h : run (step call) (enter call d k) tr = some w) (hended : Ended w) :
    Meets call (enter call d k) w ↔ call.outputfile = none ∧ ¬ StrayReap tr := by
  have ht := run_table h
  constructor
  · rintro ⟨⟨r, hr, hverdict⟩, hothers, hdescriptors⟩
    refine ⟨?_, (answer_iff h hr).mp ⟨hverdict, hothers⟩⟩
    cases ht with
    | untouched _ _ hpc =>
      by_contra hout
      simpa [hr] using hpc (Option.isSome_iff_ne_none.mpr hout)
    | @opened fd _ _ _ hfree hd =>
      have hopen := congrFun (hd.symm.trans hdescriptors) fd
      simp [enter, hfree] at hopen
  · rintro ⟨hout, hstray⟩
    cases ht with
    | untouched _ hd _ hgo =>
      rcases hended with ⟨r, hr⟩ | haborted
      · obtain ⟨hverdict, hothers⟩ := (answer_iff h hr).mpr hstray
        exact ⟨⟨r, hr, hverdict⟩, hothers, hd⟩
      · exact absurd haborted (hgo hout).2
    | opened hout' =>
      rw [hout] at hout'
      cases hout'

/-- Another child of the caller, which has ended with status 0. -/
def bystander : Children := Function.update (fun _ => none) 7 (some (some (.exited exitSuccess)))

/-- A command that exits with status 0. -/
def goodRun : List Event :=
  [.forked 5, .child (.execv true), .child (.ends (.exited exitSuccess)), .reaped 5]

theorem meets_goodRun : ∃ w, run (step (doExec ["/bin/true"]))
    (enter (doExec ["/bin/true"]) (fun _ => none) bystander) goodRun = some w ∧
    Meets (doExec ["/bin/true"]) (enter (doExec ["/bin/true"]) (fun _ => none) bystander) w := by
  have hrun : run (step (doExec ["/bin/true"]))
      (enter (doExec ["/bin/true"]) (fun _ => none) bystander) goodRun = some _ := rfl
  refine ⟨_, hrun, (meets_iff hrun (Or.inl ⟨_, rfl⟩)).mpr ⟨rfl, fun hstray => ?_⟩⟩
  have hfails := hstray.1
  revert hfails
  decide

/-- With `fork` refused, `do_exec` answers for the bystander. `do_exec_redirect` leaves its file
open though all goes well. -/
theorem bystander_answers :
    (¬ ∀ args d k tr w, run (step (doExec args)) (enter (doExec args) d k) tr = some w → Ended w →
      Meets (doExec args) (enter (doExec args) d k) w) ∧
    ¬ ∀ outputfile args d k tr w, run (step (doExecRedirect outputfile args))
      (enter (doExecRedirect outputfile args) d k) tr = some w → Ended w →
      Meets (doExecRedirect outputfile args) (enter (doExecRedirect outputfile args) d k) w := by
  refine ⟨fun h => ?_, fun h => ?_⟩
  · obtain ⟨r, hr, hverdict⟩ := (h ["/bin/false"] (fun _ => none) bystander [.forkFails, .reaped 7] _
      rfl (Or.inl ⟨_, rfl⟩)).verdict
    cases hr
    obtain ⟨c, -, hchild, -⟩ := hverdict.mp rfl
    cases hchild
  · have hopen := congrFun (h "/tmp/out" ["/bin/true"] (fun _ => none) bystander
      [.opened 3, .forked 5, .child (.dup2 true), .child .close, .child (.execv true),
        .child (.ends (.exited exitSuccess)), .reaped 5] _ rfl (Or.inl ⟨_, rfl⟩)).descriptors 3
    cases hopen

/-- Where the output file is among the child's descriptors. -/
def Redirected (outputfile : String) (fd : Nat) (c : Child) : Prop :=
  match c.pc with
  | .dup2 | .abort => c.descriptors fd = some (.output outputfile)
  | .close => c.descriptors 1 = some (.output outputfile)
  | .execv | .exit | .command =>
    c.descriptors 1 = if fd = 1 then none else some (.output outputfile)

theorem Child.Move.redirected_kept {fd : Nat} {outputfile : String} {c c' : Child}
    {e : ChildEvent} (h : c.Move call (some fd) e c') (hc : Redirected outputfile fd c) :
    Redirected outputfile fd c' := by
  unfold Redirected at hc
  cases h with
  | redirected hpc hfd =>
    cases hfd
    simpa [Redirected, hpc] using hc
  | notRedirected hpc | executed hpc | notExecuted hpc => simpa [Redirected, hpc] using hc
  | closed hpc hfd =>
    cases hfd
    simp only [hpc] at hc
    by_cases h1 : fd = 1
    · simp [Redirected, h1]
    · simp [Redirected, h1, Function.update_of_ne (Ne.symm h1), hc]
  | ended => exact hc

theorem redirected_step {outputfile : String} (hout : call.outputfile = some outputfile)
    (ht : Table call d w) (hi : Inv call k tr w)
    (hr : ∀ c, w.child = some c → ∃ fd, w.fd = some fd ∧ Redirected outputfile fd c)
    (h : Move call w e t) :
    ∀ c, t.child = some c → ∃ fd, t.fd = some fd ∧ Redirected outputfile fd c := by
  intro c' hc'
  cases h with
  | opened hpc =>
    have hc := hi.course
    rw [Course, hpc] at hc
    rw [show w.child = some c' from hc'] at hc
    cases hc.1
  | notOpened | notForked | reaped | notWaited | other => exact hr c' hc'
  | forked hpc =>
    cases ht with
    | untouched _ _ hpc' => simp [hpc, hout] at hpc'
    | opened hout' hfd _ hd =>
      rw [hout] at hout'
      cases hout'
      cases hc'
      exact ⟨_, hfd, by simp [Redirected, newChild, hout, hd]⟩
  | child hchild _ hmove =>
    obtain ⟨fd, hfd, hred⟩ := hr _ hchild
    cases hc'
    rw [hfd] at hmove
    exact ⟨fd, hfd, hmove.redirected_kept hred⟩

/-- The command writes to the output file, but where `open` found descriptor 1 free: the child
then closes it again. -/
theorem command_stdout {outputfile : String} (hout : call.outputfile = some outputfile)
    (h : run (step call) (enter call d k) tr = some w) {c : Child} (hc : w.child = some c)
    (hpc : c.pc = .command) : ∃ fd, w.fd = some fd ∧
      c.descriptors 1 = if fd = 1 then none else some (.output outputfile) := by
  have hrun : ∀ {tr w}, run (step call) (enter call d k) tr = some w →
      ∀ c, w.child = some c → ∃ fd, w.fd = some fd ∧ Redirected outputfile fd c := by
    intro tr
    induction tr using List.reverseRecOn with
    | nil =>
      intro w h c hc
      cases h
      cases hc
    | append_singleton tr e ih =>
      intro w h
      obtain ⟨u, hu, hstep⟩ := run_concat_eq_some.mp h
      exact redirected_step hout (run_table hu) (run_inv hu) (ih hu) (move_of_step hstep)
  obtain ⟨fd, hfd, hred⟩ := hrun h c hc
  rw [Redirected, hpc] at hred
  exact ⟨fd, hfd, hred⟩

/-- A caller without standard output runs a command. -/
def noStdout : List Event :=
  [.opened 1, .forked 5, .child (.dup2 true), .child .close, .child (.execv true)]

theorem command_stdout_none : ∃ w c, run (step (doExecRedirect "/tmp/out" ["/bin/true"]))
    (enter (doExecRedirect "/tmp/out" ["/bin/true"]) (fun _ => none) bystander) noStdout = some w ∧
    w.child = some c ∧ c.pc = .command ∧ c.descriptors 1 = none := by
  have hrun : run (step (doExecRedirect "/tmp/out" ["/bin/true"]))
      (enter (doExecRedirect "/tmp/out" ["/bin/true"]) (fun _ => none) bystander) noStdout =
        some _ := rfl
  obtain ⟨fd, hfd, hstdout⟩ := command_stdout rfl hrun rfl rfl
  cases hfd
  exact ⟨_, _, hrun, rfl, rfl, hstdout⟩

end Aesd.Systemcalls
