import Aesd.Lib.PartialRun
import Mathlib.Logic.Function.Basic
import Mathlib.Tactic.Common

/-!
# Running a command in a child process

`do_exec` and `do_exec_redirect` of `systemcalls.c`, one call at a time, with
every answer of the kernel as an event. The caller may have other children,
which end when they like, and any descriptors.
-/
namespace Aesd.Systemcalls

/-- How a process ends. -/
inductive Ending where
  | exited (code : Fin 256)
  | signaled (signal : Fin 127) (core : Bool) (h : 0 < signal.val)
  deriving DecidableEq

/-- The status `waitpid` stores. -/
def Ending.status : Ending → Nat
  | .exited code => code.val <<< 8
  | .signaled signal core _ => signal.val + if core then 0x80 else 0

/-- `WIFEXITED` -/
def wIfExited (status : Nat) : Bool := status &&& 0x7f == 0

/-- `WEXITSTATUS` -/
def wExitStatus (status : Nat) : Nat := (status &&& 0xff00) >>> 8

/-- `EXIT_FAILURE` -/
def exitFailure : Fin 256 := 1

/-- The status of a command that succeeds. -/
def exitSuccess : Fin 256 := 0

/-- An open file, either the one this call opens or one of somebody else. -/
inductive File where
  | output (outputfile : String)
  | other (id : Nat)
  deriving DecidableEq

abbrev Descriptors := Nat → Option File

/-- The children nobody has waited for yet, by their pid; one that has ended left its ending. -/
abbrev Children := Nat → Option (Option Ending)

/-- The arguments of a call; `count` is the length of `args`. -/
structure Invocation where
  outputfile : Option String
  args : List String

def doExec (args : List String) : Invocation := ⟨none, args⟩

def doExecRedirect (outputfile : String) (args : List String) : Invocation := ⟨some outputfile, args⟩

/-- The array `command`, with its `NULL`. -/
def Invocation.command (call : Invocation) : List (Option String) := call.args.map some ++ [none]

/-- `command[0]` -/
def Invocation.path (call : Invocation) : Option String := call.args.head?

/-- The child, by the call it makes next. -/
inductive ChildPc where
  | dup2 | abort | close | execv | exit | command
  deriving DecidableEq

/-- The process `fork` creates; `executed` is what `execv` was given. -/
structure Child where
  pid : Nat
  pc : ChildPc
  descriptors : Descriptors
  executed : Option (String × List (Option String))
  ending : Option Ending

inductive ChildEvent where
  | dup2 (ok : Bool)
  | close
  | execv (ok : Bool)
  | ends (e : Ending)
  deriving DecidableEq

/-- A signal may end the child at any time. By itself it ends behind the failed `execv`, and as
the command does. -/
def Child.mayEnd (c : Child) : Ending → Bool
  | .signaled .. => true
  | .exited code => c.pc == .command || (c.pc == .exit && code == exitFailure)

/-- `fd` is the descriptor of the output file. `execv` needs a path, and comes back only when
it fails. -/
def Child.step (call : Invocation) (fd : Option Nat) (c : Child) : ChildEvent → Option Child
  | .dup2 ok =>
    match c.pc, fd with
    | .dup2, some fd =>
      if ok then
        some { c with
          descriptors := Function.update c.descriptors 1 (c.descriptors fd), pc := .close }
      else some { c with pc := .abort }
    | _, _ => none
  | .close =>
    match c.pc, fd with
    | .close, some fd =>
      some { c with descriptors := Function.update c.descriptors fd none, pc := .execv }
    | _, _ => none
  | .execv ok =>
    match c.pc, ok, call.path with
    | .execv, true, some path =>
      some { c with executed := some (path, call.command), pc := .command }
    | .execv, false, _ => some { c with pc := .exit }
    | _, _, _ => none
  | .ends e => if c.mayEnd e then some { c with ending := some e } else none

/-- The caller, by the call it makes next, or how it came out of the function. -/
inductive Pc where
  | openFile
  | fork
  | waitpid (pid : Int)
  | returned (result : Bool)
  | aborted
  deriving DecidableEq

/-- The caller and its children; `child` is the one this call has forked, and `fd` what `open`
returned. -/
structure World where
  pc : Pc
  fd : Option Nat
  descriptors : Descriptors
  children : Children
  child : Option Child

inductive Event where
  | opened (fd : Nat)
  | openFails
  | forked (pid : Nat)
  | forkFails
  | reaped (pid : Nat)
  | waitFails
  | child (e : ChildEvent)
  | other (pid : Nat) (e : Ending)
  deriving DecidableEq

/-- What `fork` creates. -/
def newChild (call : Invocation) (descriptors : Descriptors) (pid : Nat) : Child :=
  ⟨pid, if call.outputfile.isSome then .dup2 else .execv, descriptors, none, none⟩

/-- `waitpid` with `-1` takes any child that has ended. -/
def waitsFor (request : Int) (pid : Nat) : Bool := request == -1 || request == pid

/-- The value of the `return` behind `waitpid`. -/
def result (status : Nat) : Bool := wIfExited status && wExitStatus status == 0

def step (call : Invocation) (w : World) : Event → Option World
  | .opened fd =>
    match w.pc, call.outputfile with
    | .openFile, some outputfile =>
      if (w.descriptors fd).isSome then none
      else some { w with
        descriptors := Function.update w.descriptors fd (some (.output outputfile)), fd := some fd,
        pc := .fork }
    | _, _ => none
  | .openFails => if w.pc = .openFile then some { w with pc := .aborted } else none
  | .forked pid =>
    if w.pc = .fork ∧ 0 < pid ∧ w.children pid = none then
      some { w with
        children := Function.update w.children pid (some none),
        child := some (newChild call w.descriptors pid), pc := .waitpid pid }
    else none
  -- the caller goes on to `waitpid` all the same
  | .forkFails => if w.pc = .fork then some { w with pc := .waitpid (-1) } else none
  | .reaped pid =>
    match w.pc, w.children pid with
    | .waitpid request, some (some e) =>
      if waitsFor request pid then
        some { w with
          children := Function.update w.children pid none, pc := .returned (result e.status) }
      else none
    | _, _ => none
  | .waitFails =>
    match w.pc with
    | .waitpid _ => some { w with pc := .returned false }
    | _ => none
  | .child e =>
    match w.child with
    | some c =>
      if c.ending.isSome then none
      else (c.step call w.fd e).map fun c' =>
        { w with
          child := some c'
          children := if c'.ending.isSome then Function.update w.children c.pid (some c'.ending)
            else w.children }
    | none => none
  | .other pid e =>
    if w.children pid = some none ∧ w.child.map Child.pid ≠ some pid then
      some { w with children := Function.update w.children pid (some (some e)) }
    else none

/-- The caller calls the function with these descriptors and children. -/
def enter (call : Invocation) (descriptors : Descriptors) (children : Children) : World :=
  ⟨if call.outputfile.isSome then .openFile else .fork, none, descriptors, children, none⟩

/-- What the events of the child do, one constructor a branch. -/
inductive Child.Move (call : Invocation) (fd : Option Nat) (c : Child) :
    ChildEvent → Child → Prop where
  | redirected {out : Nat} (hpc : c.pc = .dup2) (hfd : fd = some out) :
    Move call fd c (.dup2 true)
      { c with descriptors := Function.update c.descriptors 1 (c.descriptors out), pc := .close }
  | notRedirected (hpc : c.pc = .dup2) : Move call fd c (.dup2 false) { c with pc := .abort }
  | closed {out : Nat} (hpc : c.pc = .close) (hfd : fd = some out) :
    Move call fd c .close
      { c with descriptors := Function.update c.descriptors out none, pc := .execv }
  | executed {path : String} (hpc : c.pc = .execv) (hpath : call.path = some path) :
    Move call fd c (.execv true) { c with executed := some (path, call.command), pc := .command }
  | notExecuted (hpc : c.pc = .execv) : Move call fd c (.execv false) { c with pc := .exit }
  | ended {e : Ending} (he : c.mayEnd e = true) :
    Move call fd c (.ends e) { c with ending := some e }

theorem Child.move_of_step {call : Invocation} {fd : Option Nat} {c c' : Child} {e : ChildEvent}
    (h : c.step call fd e = some c') : c.Move call fd e c' := by
  cases e with
  | dup2 ok =>
    simp only [Child.step] at h
    split at h
    · split_ifs at h with hok
      · cases h
        rw [hok]
        exact .redirected ‹_› rfl
      · cases h
        rw [Bool.not_eq_true] at hok
        rw [hok]
        exact .notRedirected ‹_›
    · cases h
  | close =>
    simp only [Child.step] at h
    split at h
    · cases h
      exact .closed ‹_› rfl
    · cases h
  | execv ok =>
    simp only [Child.step] at h
    split at h
    · cases h
      exact .executed ‹_› ‹_›
    · cases h
      exact .notExecuted ‹_›
    · cases h
  | ends e =>
    simp only [Child.step] at h
    split_ifs at h with he
    cases h
    exact .ended he

/-- What the events of a call do, one constructor a branch. -/
inductive Move (call : Invocation) (w : World) : Event → World → Prop where
  | opened {fd : Nat} {outputfile : String} (hpc : w.pc = .openFile)
    (hout : call.outputfile = some outputfile) (hfree : w.descriptors fd = none) :
    Move call w (.opened fd)
      { w with
        descriptors := Function.update w.descriptors fd (some (.output outputfile)), fd := some fd,
        pc := .fork }
  | notOpened (hpc : w.pc = .openFile) : Move call w .openFails { w with pc := .aborted }
  | forked {pid : Nat} (hpc : w.pc = .fork) (hpos : 0 < pid) (hfresh : w.children pid = none) :
    Move call w (.forked pid)
      { w with
        children := Function.update w.children pid (some none),
        child := some (newChild call w.descriptors pid), pc := .waitpid pid }
  | notForked (hpc : w.pc = .fork) : Move call w .forkFails { w with pc := .waitpid (-1) }
  | reaped {request : Int} {pid : Nat} {e : Ending} (hpc : w.pc = .waitpid request)
    (hended : w.children pid = some (some e)) (hrequest : request = -1 ∨ request = pid) :
    Move call w (.reaped pid)
      { w with
        children := Function.update w.children pid none, pc := .returned (result e.status) }
  | notWaited {request : Int} (hpc : w.pc = .waitpid request) :
    Move call w .waitFails { w with pc := .returned false }
  | child {c c' : Child} {e : ChildEvent} (hchild : w.child = some c) (hlive : c.ending = none)
    (hmove : c.Move call w.fd e c') :
    Move call w (.child e)
      { w with
        child := some c'
        children := if c'.ending.isSome then Function.update w.children c.pid (some c'.ending)
          else w.children }
  | other {pid : Nat} {e : Ending} (hruns : w.children pid = some none)
    (hother : w.child.map Child.pid ≠ some pid) :
    Move call w (.other pid e)
      { w with children := Function.update w.children pid (some (some e)) }

theorem move_of_step {call : Invocation} {w t : World} {e : Event} (h : step call w e = some t) :
    Move call w e t := by
  cases e with
  | opened fd =>
    simp only [step] at h
    split at h
    · split_ifs at h with hopen
      cases h
      exact .opened ‹_› ‹_› (by simpa using hopen)
    · cases h
  | openFails =>
    simp only [step] at h
    split_ifs at h with hpc
    cases h
    exact .notOpened hpc
  | forked pid =>
    simp only [step] at h
    split_ifs at h with hguard
    cases h
    exact .forked hguard.1 hguard.2.1 hguard.2.2
  | forkFails =>
    simp only [step] at h
    split_ifs at h with hpc
    cases h
    exact .notForked hpc
  | reaped pid =>
    simp only [step] at h
    split at h
    · split_ifs at h with hrequest
      cases h
      exact .reaped ‹_› ‹_› (by simpa [waitsFor] using hrequest)
    · cases h
  | waitFails =>
    simp only [step] at h
    split at h
    · cases h
      exact .notWaited ‹_›
    · cases h
  | child e =>
    simp only [step] at h
    split at h
    · split_ifs at h with hended
      obtain ⟨c', hc', rfl⟩ := Option.map_eq_some_iff.mp h
      exact .child ‹_› (by simpa using hended) (Child.move_of_step hc')
    · cases h
  | other pid e =>
    simp only [step] at h
    split_ifs at h with hguard
    cases h
    exact .other hguard.1 hguard.2

theorem wIfExited_eq (status : Nat) : wIfExited status = (status % 128 == 0) := by
  rw [wIfExited, show status &&& 0x7f = status % 128 from Nat.and_two_pow_sub_one_eq_mod status 7]

theorem wExitStatus_shiftLeft (code : Fin 256) : wExitStatus (code.val <<< 8) = code.val := by
  rw [wExitStatus, Nat.shiftRight_and_distrib, Nat.shiftLeft_shiftRight,
    show code.val &&& 0xff00 >>> 8 = code.val % 256 from Nat.and_two_pow_sub_one_eq_mod code.val 8]
  omega

/-- The value returned tells a normal exit with status 0. -/
theorem result_status (e : Ending) : result e.status = true ↔ e = .exited exitSuccess := by
  cases e with
  | exited code =>
    have hexited : wIfExited (code.val <<< 8) = true := by
      rw [wIfExited_eq, Nat.shiftLeft_eq, beq_iff_eq]
      omega
    rw [result, Ending.status, hexited, wExitStatus_shiftLeft, Bool.true_and, beq_iff_eq,
      Ending.exited.injEq, Fin.ext_iff]
    rfl
  | signaled signal core h =>
    have hsignaled : wIfExited (Ending.signaled signal core h).status = false := by
      rw [wIfExited_eq, beq_eq_false_iff_ne, Ending.status]
      split <;> omega
    rw [result, hsignaled, Bool.false_and]
    exact iff_of_false (fun h => by cases h) (fun h => by cases h)

/-- `do_system`, with what `system` returns. -/
def doSystem (returnCode : Int) : Bool := returnCode == 0

/-- The plain comparison of `do_system` and the macros of the other two agree on every status. -/
theorem doSystem_status (e : Ending) : doSystem e.status = result e.status := by
  rw [Bool.eq_iff_iff, result_status, doSystem, beq_iff_eq]
  cases e with
  | exited code =>
    rw [Ending.status, Nat.shiftLeft_eq, Ending.exited.injEq, Fin.ext_iff,
      show exitSuccess.val = 0 from rfl]
    omega
  | signaled signal core h =>
    rw [Ending.status]
    refine iff_of_false (fun hzero => ?_) (fun h => by cases h)
    split at hzero <;> omega

end Aesd.Systemcalls
