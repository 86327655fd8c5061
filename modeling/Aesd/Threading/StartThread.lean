import Aesd.Lib.Exclusion
import Aesd.Lib.PartialRun
import Mathlib.Algebra.Ring.Int.Defs

/-!
# Threads that hold a mutex for a while

`start_thread_obtaining_mutex` may be called any number of times, for any
mutexes, while earlier threads are at any point of `threadfunc`. Records live
in memory the threads share with their callers, and a caller joins a thread,
reads the record it returned and frees it, as the header says.
-/
namespace Aesd.Threading

open PartialRun Exclusion

/-- `struct thread_data`, with the mutex by its address; nobody sets or reads `thread`. -/
structure ThreadData where
  mutex : Nat
  waitToObtainMs : Int
  waitToReleaseMs : Int
  threadCompleteSuccess : Bool
  deriving DecidableEq, Repr

inductive Call where
  | usleep (usec : Nat)
  | lock (mutex : Nat)
  | unlock (mutex : Nat)
  deriving DecidableEq, Repr

/-- The points of `threadfunc`, named after what comes next. -/
inductive Pc where
  | obtaining
  | locking
  | releasing
  | unlocking
  | exited
  deriving DecidableEq, Repr

/-- `ms * 1000` as `useconds_t` -/
def microseconds (ms : Int) : Nat := (ms * 1000 % 2 ^ 32).toNat

/-- The next call of a thread whose record is this one. -/
def ThreadData.call (d : ThreadData) : Pc → Option Call
  | .obtaining => some (.usleep (microseconds d.waitToObtainMs))
  | .locking => some (.lock d.mutex)
  | .releasing => some (.usleep (microseconds d.waitToReleaseMs))
  | .unlocking => some (.unlock d.mutex)
  | .exited => none

/-- The point behind the return of a call, and the flag if it is written. -/
def threadfunc : Pc → Int → Pc × Option Bool
  | .obtaining, _ => (.locking, none)
  | .locking, rcm => if rcm ≠ 0 then (.exited, some false) else (.releasing, none)
  | .releasing, _ => (.unlocking, none)
  | .unlocking, rcu => if rcu ≠ 0 then (.exited, some false) else (.exited, some true)
  | .exited, _ => (.exited, none)

/-- A thread: where it is, the address it got as its parameter and returns, whether it is joined. -/
structure Thread where
  pc : Pc
  param : Nat
  joined : Bool
  deriving DecidableEq, Repr

inductive Holder where
  | caller
  | thread (i : Nat)
  deriving DecidableEq, Repr

/-- The arguments of `start_thread_obtaining_mutex`. -/
structure Request where
  mutex : Nat
  waitToObtainMs : Int
  waitToReleaseMs : Int
  deriving DecidableEq, Repr

/-- What happens: a call of `start_thread_obtaining_mutex` with the results of `malloc` and
`pthread_create`, a call of a thread with its result, and what the callers do themselves. -/
inductive Act where
  | start (req : Request) (malloc : Option Nat) (rc : Int)
  | thread (i : Nat) (call : Call) (rc : Int)
  | take (mutex : Nat)
  | give (mutex : Nat)
  | join (i : Nat)
  deriving DecidableEq, Repr

/-- `crashed` says that memory was used that is not allocated. -/
structure Process where
  heap : Nat → Option ThreadData
  threads : List Thread
  mutexes : Nat → Option Holder
  crashed : Bool

namespace Process

def start : Process := ⟨fun _ => none, [], fun _ => none, false⟩

/-- A thread is created with its record, or the record stays with nobody and `false` is returned. -/
def startThreadObtainingMutex (p : Process) (req : Request) (rc : Int) :
    Option Nat → Option (Process × Bool)
  -- `malloc` is not checked, and the fields are written through NULL.
  | none => some ({ p with crashed := true }, false)
  | some a =>
    if (p.heap a).isSome then none
    else
      let heap := Function.update p.heap a
        (some ⟨req.mutex, req.waitToObtainMs, req.waitToReleaseMs, false⟩)
      if rc ≠ 0 then some ({ p with heap := heap }, false)
      else some ({ p with heap := heap, threads := p.threads ++ [⟨.obtaining, a, false⟩] }, true)

/-- A lock that returns 0 was free, and nothing happens to it when a call returns an error. -/
def settle (mutexes : Nat → Option Holder) (who : Holder) : Call → Int → Option (Nat → Option Holder)
  | .lock m, rc => if rc = 0 then (after (mutexes m) who .acquire).map (Function.update mutexes m)
    else some mutexes
  | .unlock m, rc => if rc = 0 then (after (mutexes m) who .release).map (Function.update mutexes m)
    else some mutexes
  | .usleep _, _ => some mutexes

/-- A thread reads its record before each call and may write it afterwards. -/
def thread (p : Process) (i : Nat) (th : Thread) (call : Call) (rc : Int) : Option Process :=
  if th.pc = .exited then none
  else
    match p.heap th.param with
    | none => some { p with crashed := true }
    | some d =>
      if d.call th.pc = some call then
        (settle p.mutexes (.thread i) call rc).map fun mutexes =>
          let (pc, flag) := threadfunc th.pc rc
          { p with
            heap := Function.update p.heap th.param
              (some { d with threadCompleteSuccess := flag.getD d.threadCompleteSuccess })
            threads := p.threads.set i { th with pc := pc }
            mutexes := mutexes }
      else none

/-- `pthread_join`, which waits for the end of the thread, and `free` of what it returned. -/
def join (p : Process) (i : Nat) (th : Thread) : Option Process :=
  if th.pc = .exited ∧ th.joined = false then
    match p.heap th.param with
    | none => some { p with crashed := true }
    | some _ => some { p with
        heap := Function.update p.heap th.param none
        threads := p.threads.set i { th with joined := true } }
  else none

def step (p : Process) (act : Act) : Option Process :=
  if p.crashed then none
  else
    match act with
    | .start req malloc rc => (p.startThreadObtainingMutex req rc malloc).map Prod.fst
    | .thread i call rc => (p.threads[i]?).bind fun th => p.thread i th call rc
    | .take m => (settle p.mutexes .caller (.lock m) 0).map fun mutexes => { p with mutexes := mutexes }
    | .give m =>
      if p.mutexes m = some .caller then
        (settle p.mutexes .caller (.unlock m) 0).map fun mutexes => { p with mutexes := mutexes }
      else none
    | .join i => (p.threads[i]?).bind fun th => p.join i th

end Process

/-- The calls that have started a thread, in the order of the threads. -/
def requests (acts : List Act) : List Request :=
  acts.filterMap fun
    | .start req (some _) rc => if rc = 0 then some req else none
    | _ => none

/-- The records whose threads could not be created. -/
def abandoned (acts : List Act) : List Nat :=
  acts.filterMap fun
    | .start _ (some a) rc => if rc = 0 then none else some a
    | _ => none

/-- What thread `i` has called, and what was returned. -/
def calls (i : Nat) (acts : List Act) : List (Call × Int) :=
  acts.filterMap fun
    | .thread j call rc => if j = i then some (call, rc) else none
    | _ => none

/-- The results of the calls for the mutex. -/
def codes (l : List (Call × Int)) : List Int :=
  l.filterMap fun
    | (.usleep _, _) => none
    | (_, rc) => some rc

/-- The point of a thread and what it has called on its way there. -/
def Story (req : Request) : Pc → List (Call × Int) → Prop
  | .obtaining, l => l = []
  | .locking, l => ∃ r, l = [(.usleep (microseconds req.waitToObtainMs), r)]
  | .releasing, l => ∃ r, l = [(.usleep (microseconds req.waitToObtainMs), r), (.lock req.mutex, 0)]
  | .unlocking, l => ∃ r r', l = [(.usleep (microseconds req.waitToObtainMs), r), (.lock req.mutex, 0),
      (.usleep (microseconds req.waitToReleaseMs), r')]
  | .exited, l =>
    (∃ r rcm, rcm ≠ 0 ∧
      l = [(.usleep (microseconds req.waitToObtainMs), r), (.lock req.mutex, rcm)]) ∨
    ∃ r r' rcu, l = [(.usleep (microseconds req.waitToObtainMs), r), (.lock req.mutex, 0),
      (.usleep (microseconds req.waitToReleaseMs), r'), (.unlock req.mutex, rcu)]

/-- The record of a thread that was started with these arguments. -/
def Request.data (req : Request) (success : Bool) : ThreadData :=
  ⟨req.mutex, req.waitToObtainMs, req.waitToReleaseMs, success⟩

def succeeded (l : List (Call × Int)) : Bool := codes l = [0, 0]

/-- The lock has returned 0, and no unlock has. -/
def Locked (l : List (Call × Int)) : Prop := codes l = [0] ∨ ∃ rcu ≠ 0, codes l = [0, rcu]

/-- What a call does with the mutex `m`. -/
def Call.use (m : Nat) : Call → Int → Use
  | .lock m', rc => if m' = m ∧ rc = 0 then .acquire else .other
  | .unlock m', rc => if m' = m ∧ rc = 0 then .release else .other
  | .usleep _, _ => .other

variable {acts : List Act} {act : Act} {p q : Process} {req : Request} {pc : Pc}
  {l : List (Call × Int)} {call : Call} {rc : Int} {i : Nat} {th : Thread}

theorem calls_concat (i : Nat) (acts : List Act) (act : Act) :
    calls i (acts ++ [act]) = calls i acts ++ calls i [act] := List.filterMap_append

theorem requests_concat (acts : List Act) (act : Act) :
    requests (acts ++ [act]) = requests acts ++ requests [act] := List.filterMap_append

theorem abandoned_concat (acts : List Act) (act : Act) :
    abandoned (acts ++ [act]) = abandoned acts ++ abandoned [act] := List.filterMap_append

theorem calls_thread (i j : Nat) (call : Call) (rc : Int) :
    calls i [.thread j call rc] = if j = i then [(call, rc)] else [] := by
  by_cases hij : j = i <;> simp [calls, hij]

/-- One step of `threadfunc`: the script goes on, and the flag is what the calls deserve. -/
theorem story_step (h : Story req pc l) {flag : Bool} (hcall : (req.data flag).call pc = some call)
    (rc : Int) : Story req (threadfunc pc rc).1 (l ++ [(call, rc)]) ∧
      (threadfunc pc rc).2.getD (succeeded l) = succeeded (l ++ [(call, rc)]) := by
  cases pc with
  | obtaining =>
    obtain rfl := h
    cases hcall
    exact ⟨⟨rc, rfl⟩, rfl⟩
  | locking =>
    obtain ⟨r, rfl⟩ := h
    cases hcall
    by_cases hrc : rc = 0
    · subst hrc
      exact ⟨⟨r, rfl⟩, rfl⟩
    · refine ⟨?_, ?_⟩
      · simp only [threadfunc, if_pos hrc]
        exact Or.inl ⟨r, rc, hrc, rfl⟩
      · simp [threadfunc, hrc, succeeded, codes, Request.data]
  | releasing =>
    obtain ⟨r, rfl⟩ := h
    cases hcall
    exact ⟨⟨r, rc, rfl⟩, rfl⟩
  | unlocking =>
    obtain ⟨r, r', rfl⟩ := h
    cases hcall
    have hstory : Story req .exited ([(.usleep (microseconds req.waitToObtainMs), r),
        (.lock req.mutex, 0), (.usleep (microseconds req.waitToReleaseMs), r')] ++
          [(.unlock req.mutex, rc)]) := Or.inr ⟨r, r', rc, rfl⟩
    by_cases hrc : rc = 0
    · subst hrc
      exact ⟨hstory, rfl⟩
    · simp only [threadfunc, if_pos hrc]
      exact ⟨hstory, by simp [succeeded, codes, Request.data, hrc]⟩
  | exited => cases hcall

/-- The same step for the mutexes: only a lock and an unlock that return 0 touch one. -/
theorem locked_step (h : Story req pc l) {flag : Bool} (hcall : (req.data flag).call pc = some call)
    (rc : Int) (m : Nat) :
    Bracketed (call.use m rc) (req.mutex = m ∧ Locked l) (req.mutex = m ∧ Locked (l ++ [(call, rc)])) ∧
      (call.use m rc = .acquire → req.mutex = m ∧ Locked (l ++ [(call, rc)])) ∧
        (call.use m rc = .other → req.mutex = m ∧ Locked l →
          req.mutex = m ∧ Locked (l ++ [(call, rc)])) := by
  cases pc with
  | obtaining =>
    obtain rfl := h
    cases hcall
    simp [Call.use, Bracketed, Locked, codes]
  | locking =>
    obtain ⟨r, rfl⟩ := h
    cases hcall
    by_cases hrc : rc = 0 <;> by_cases hm : req.mutex = m <;>
      simp [Call.use, Bracketed, Locked, codes, Request.data, hrc, hm]
  | releasing =>
    obtain ⟨r, rfl⟩ := h
    cases hcall
    simp [Call.use, Bracketed, Locked, codes]
  | unlocking =>
    obtain ⟨r, r', rfl⟩ := h
    cases hcall
    by_cases hrc : rc = 0 <;> by_cases hm : req.mutex = m <;>
      simp [Call.use, Bracketed, Locked, codes, Request.data, hrc, hm]
  | exited => cases hcall

/-- A call reaches every mutex as one step of its thread. -/
theorem settle_after {mutexes next : Nat → Option Holder} {who : Holder}
    (h : Process.settle mutexes who call rc = some next) (m : Nat) :
    after (mutexes m) who (call.use m rc) = some (next m) := by
  cases call with
  | usleep usec =>
    cases h
    rfl
  | lock m' =>
    simp only [Process.settle] at h
    split_ifs at h with hrc
    · obtain ⟨holder, hholder, rfl⟩ := Option.map_eq_some_iff.mp h
      by_cases hm : m' = m
      · subst hm
        simpa [Call.use, hrc] using hholder
      · simp [Call.use, hm, Function.update_of_ne (Ne.symm hm), after]
    · cases h
      simp [Call.use, hrc, after]
  | unlock m' =>
    simp only [Process.settle] at h
    split_ifs at h with hrc
    · obtain ⟨holder, hholder, rfl⟩ := Option.map_eq_some_iff.mp h
      by_cases hm : m' = m
      · subst hm
        simpa [Call.use, hrc] using hholder
      · simp [Call.use, hm, Function.update_of_ne (Ne.symm hm), after]
    · cases h
      simp [Call.use, hrc, after]

end Aesd.Threading
