import Aesd.Lib.TailQueue
import Aesd.Server.Process

/-!
# The list of threads in memory

`main` once more, with the records it allocates: `active_threads` is a tail
queue through the records of type `struct thread_data`, and a handler finds its
socket and its flag through the pointer it was started with. An access to
memory that is not allocated, or to what nobody has written there, is a fault,
and ends the process.
-/
namespace Aesd.Server

open PartialRun Exclusion TailQueue

abbrev Addr := Nat

/-- `struct thread_data`. There is one mutex, and the address of the client is only logged. -/
structure ThreadData where
  thread : Option Addr
  threadCompleteSuccess : Bool
  clientFd : Nat
  deriving DecidableEq, Repr

/-- The points of `main`, with the variables that are in use there. -/
inductive ListPc where
  | clear
  | clearClose (fd : Nat)
  | setup
  | createStamp
  | accept
  | allocData (newFd : Nat)
  | allocThread (newFd : Nat) (tdata : Addr)
  | create (newFd : Nat) (tdata : Addr)
  | insert (tdata : Addr)
  | loop (item : Option Addr)
  | join (item : Addr) (thread : Nat) (tmp : Option Addr)
  deriving DecidableEq, Repr

def ListPc.call : ListPc → Option Call
  | .clear => some (.openFile .truncate)
  | .clearClose fd => some (.closeFile fd)
  | .setup => some .setup
  | .createStamp | .create _ _ => some .createThread
  | .accept => some .accept
  | .allocData _ | .allocThread _ _ => none
  | .insert _ | .loop _ => some .tau
  | .join _ thread _ => some (.join thread)

/-- A call of a thread, or an answer of `malloc` to `main`: for a record, which holds anything,
and for a `pthread_t`. -/
inductive Act where
  | event (e : Event)
  | mallocData (tdata : Option (Addr × Node Addr ThreadData))
  | mallocThread (thread : Option Addr)
  deriving DecidableEq, Repr

/-- A handler has its variables in `handlers` and `connection_param` in `params`. A block for a
`pthread_t` holds nothing before `pthread_create`. -/
structure Process (σ : Type) where
  os : σ
  mutex : Option Tid
  handlers : List Conn
  params : List Addr
  stamp : Option Stamp
  main : ListPc
  activeThreads : Queue Addr ThreadData
  threads : Addr → Option (Option Nat)
  exited : Bool
  fault : Bool

variable {σ : Type}

namespace Process

def start (build : Build) (os : σ) : Process σ where
  os := os
  mutex := none
  handlers := []
  params := []
  stamp := none
  main := if build = .file then .clear else .setup
  activeThreads := (⟨none, .head, fun _ => none⟩ : Queue Addr ThreadData).init
  threads := fun _ => none
  exited := false
  fault := false

def crash (p : Process σ) : Process σ := { p with fault := true }

/-- What `malloc` may return: nothing that is still allocated. -/
def Fresh (p : Process σ) (a : Addr) : Prop := p.activeThreads.node a = none ∧ p.threads a = none

instance (p : Process σ) (a : Addr) : Decidable (p.Fresh a) :=
  decidable_of_iff ((p.activeThreads.node a).isNone ∧ (p.threads a).isNone) (by simp [Fresh])

/-- `tdata->mutex = &global_mutex` needs the record. -/
def mallocData (p : Process σ) (newFd : Nat) :
    Option (Addr × Node Addr ThreadData) → Option (Process σ)
  | none => some p.crash
  | some (a, n) => if p.Fresh a then some { p with
      main := .allocThread newFd a
      activeThreads := p.activeThreads.allocate a n } else none

/-- The assignments behind the second `malloc`, whose result nobody checks either. -/
def mallocThread (p : Process σ) (newFd : Nat) (tdata : Addr) (thread : Option Addr) :
    Option (Process σ) :=
  if ∀ t ∈ thread, p.Fresh t then
    match p.activeThreads.setData tdata ⟨thread, false, newFd⟩ with
    | none => some p.crash
    | some q => some { p with
        main := .create newFd tdata
        activeThreads := q
        threads := match thread with
          | none => p.threads
          | some t => Function.update p.threads t (some none) }
  else none

/-- `pthread_create(tdata->thread, NULL, handle_connection, tdata)` -/
def create (p : Process σ) (tdata : Addr) : Option (Process σ) := do
  let d ← p.activeThreads.data tdata
  let t ← d.thread
  let _ ← p.threads t
  return { p with
    handlers := p.handlers ++ [Conn.start d.clientFd]
    params := p.params ++ [tdata]
    threads := Function.update p.threads t (some (some p.handlers.length))
    main := .insert tdata }

/-- `free(tdata)`, and the end of `main` -/
def giveUp (p : Process σ) (tdata : Addr) : Option (Process σ) := do
  let q ← p.activeThreads.release tdata
  return { p with activeThreads := q, exited := true }

/-- `TAILQ_INSERT_TAIL`, and the first element for the loop -/
def insert (p : Process σ) (tdata : Addr) : Option (Process σ) := do
  let q ← p.activeThreads.insertTail tdata
  let item ← q.load .head
  return { p with activeThreads := q, main := .loop item }

/-- The next element, the flag of this one, and the argument of `pthread_join` -/
def look (p : Process σ) (item : Addr) : Option (Process σ) := do
  let tmp ← p.activeThreads.load (.next item)
  let d ← p.activeThreads.data item
  if d.threadCompleteSuccess then
    let t ← d.thread
    let thread ← p.threads t
    let i ← thread
    return { p with main := .join item i tmp }
  else return { p with main := .loop tmp }

/-- `TAILQ_REMOVE`, `free(item->thread)` and `free(item)` -/
def unlink (p : Process σ) (item : Addr) (tmp : Option Addr) : Option (Process σ) := do
  let q ← p.activeThreads.remove item
  let d ← q.data item
  let threads ← match d.thread with
    | none => some p.threads
    | some t => (p.threads t).map fun _ => Function.update p.threads t none
  let q ← q.release item
  return { p with activeThreads := q, threads := threads, main := .loop tmp }

def resumeMain (build : Build) (p : Process σ) (a : Answer) : Option (Process σ) :=
  match p.main, a with
  | .clear, .fd n => some { p with main := .clearClose n }
  | .clear, .failed => some { p with main := .setup }
  | .clearClose _, .done | .clearClose _, .failed => some { p with main := .setup }
  | .setup, .done => some { p with main := if build = .file then .createStamp else .accept }
  | .setup, .failed => some { p with exited := true }
  | .createStamp, .done => some { p with stamp := some Stamp.start, main := .accept }
  | .createStamp, .failed => some { p with exited := true }
  | .accept, .fd n => some { p with main := .allocData n }
  | .accept, .failed => some p
  | .create _ tdata, .done => some ((p.create tdata).getD p.crash)
  | .create _ tdata, .failed => some ((p.giveUp tdata).getD p.crash)
  | .insert tdata, .done => some ((p.insert tdata).getD p.crash)
  | .loop none, .done => some { p with main := .accept }
  | .loop (some item), .done => some ((p.look item).getD p.crash)
  | .join item thread tmp, .done =>
    if (p.handlers[thread]?).map Conn.pc = some .returned then
      some ((p.unlink item tmp).getD p.crash)
    else none
  | _, _ => none

/-- A handler's step: what it knows of its record it reads there. -/
def resumeHandler (build : Build) (p : Process σ) (i : Nat) (call : Call) (a : Answer) :
    Option (Process σ) := do
  let c ← p.handlers[i]?
  let param ← p.params[i]?
  match p.activeThreads.data param with
  | none => if c.pc = .returned then none else some p.crash
  | some d =>
    let c ← Conn.step build
      { c with threadCompleteSuccess := d.threadCompleteSuccess, clientFd := d.clientFd } (call, a)
    match p.activeThreads.setData param { d with threadCompleteSuccess := c.threadCompleteSuccess } with
    | none => some p.crash
    | some q => some { p with
        handlers := p.handlers.set i c
        activeThreads := q
        exited := endsProcess call a }

def thread (build : Build) (p : Process σ) (e : Event) : Option (Process σ) :=
  match e.tid with
  | .main => if p.main.call = some e.call then p.resumeMain build e.answer else none
  | .stamp => p.stamp.bind fun s =>
    if s.call = e.call then (s.resume e.answer).map fun s => { p with stamp := some s } else none
  | .client i => p.resumeHandler build i e.call e.answer

def step (build : Build) (os : Os σ) (p : Process σ) (act : Act) : Option (Process σ) :=
  if p.exited || p.fault then none
  else
    match act with
    | .event e =>
      (os.respond p.os e.call e.answer).bind fun s =>
        (after p.mutex e.tid e.call.use).bind fun m =>
          (p.thread build e).map fun p => { p with os := s, mutex := m }
    | .mallocData answer =>
      match p.main with
      | .allocData newFd => p.mallocData newFd answer
      | _ => none
    | .mallocThread answer =>
      match p.main with
      | .allocThread newFd tdata => p.mallocThread newFd tdata answer
      | _ => none

variable {build : Build} {os : Os σ} {p p' : Process σ}

theorem step_running {act : Act} (h : p.step build os act = some p') :
    p.exited = false ∧ p.fault = false := by
  unfold step at h
  split_ifs at h with hgo
  simpa using hgo

theorem step_event {e : Event} (h : p.step build os (.event e) = some p') :
    ∃ s m u, p.thread build e = some u ∧ p' = { u with os := s, mutex := m } := by
  unfold step at h
  split_ifs at h
  obtain ⟨s, -, h⟩ := Option.bind_eq_some_iff.mp h
  obtain ⟨m, -, h⟩ := Option.bind_eq_some_iff.mp h
  obtain ⟨u, hu, rfl⟩ := Option.map_eq_some_iff.mp h
  exact ⟨s, m, u, hu, rfl⟩

theorem step_mallocData {tdata : Option (Addr × Node Addr ThreadData)}
    (h : p.step build os (.mallocData tdata) = some p') :
    ∃ fd, p.main = .allocData fd ∧ p.mallocData fd tdata = some p' := by
  unfold step at h
  split_ifs at h
  cases hmain : p.main <;> simp only [hmain, reduceCtorEq] at h
  exact ⟨_, rfl, h⟩

theorem step_mallocThread {thread : Option Addr} (h : p.step build os (.mallocThread thread) = some p') :
    ∃ fd tdata, p.main = .allocThread fd tdata ∧ p.mallocThread fd tdata thread = some p' := by
  unfold step at h
  split_ifs at h
  cases hmain : p.main <;> simp only [hmain, reduceCtorEq] at h
  exact ⟨_, _, rfl, h⟩

theorem thread_main {call : Call} {a : Answer} (h : p.thread build ⟨.main, call, a⟩ = some p') :
    p.main.call = some call ∧ p.resumeMain build a = some p' := by
  simp only [thread] at h
  split_ifs at h with hcall
  exact ⟨hcall, h⟩

theorem thread_stamp {call : Call} {a : Answer} (h : p.thread build ⟨.stamp, call, a⟩ = some p') :
    ∃ s s', p.stamp = some s ∧ s.call = call ∧ s.resume a = some s' ∧
      p' = { p with stamp := some s' } := by
  simp only [thread, Option.bind_eq_some_iff] at h
  obtain ⟨s, hs, h⟩ := h
  split_ifs at h with hcall
  obtain ⟨s', hs', rfl⟩ := Option.map_eq_some_iff.mp h
  exact ⟨s, s', hs, hcall, hs', rfl⟩

/-- A handler goes on, with what it finds in its record, or finds none and crashes. -/
theorem resumeHandler_cases {i : Nat} {call : Call} {a : Answer}
    (h : p.resumeHandler build i call a = some p') : p' = p.crash ∨
      ∃ c d c' param q, p.handlers[i]? = some c ∧ p.activeThreads.data param = some d ∧
        Conn.step build { c with threadCompleteSuccess := d.threadCompleteSuccess, clientFd := d.clientFd }
          (call, a) = some c' ∧
        p.activeThreads.setData param { d with threadCompleteSuccess := c'.threadCompleteSuccess } =
          some q ∧
        p' = { p with
          handlers := p.handlers.set i c'
          activeThreads := q
          exited := endsProcess call a } := by
  simp only [Process.resumeHandler, Option.bind_eq_bind, Option.bind_eq_some_iff] at h
  obtain ⟨c, hc, param, -, h⟩ := h
  cases hd : p.activeThreads.data param with
  | none =>
    simp only [hd] at h
    split_ifs at h
    exact Or.inl (Option.some.inj h).symm
  | some d =>
    simp only [hd, Option.bind_eq_some_iff] at h
    obtain ⟨c', hstep, h⟩ := h
    split at h
    · exact Or.inl (Option.some.inj h).symm
    · rename_i q hq
      exact Or.inr ⟨c, d, c', param, q, hc, hd, hstep, hq, (Option.some.inj h).symm⟩

end Process

/-- The calls among the acts. -/
def events (acts : List Act) : List Event :=
  acts.filterMap fun
    | .event e => some e
    | _ => none

theorem events_append (acts acts' : List Act) : events (acts ++ acts') = events acts ++ events acts' :=
  List.filterMap_append

/-- `malloc` has refused nothing. -/
def Act.granted : Act → Bool
  | .mallocData none | .mallocThread none => false
  | _ => true

end Aesd.Server
