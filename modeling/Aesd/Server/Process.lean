import Aesd.Lib.Exclusion
import Aesd.Server.Phase

/-!
# The server process

The threads of `aesdsocket` over one mutex: the connections, the timestamps,
and `main` with its list of threads. What the system answers is left to a
parameter, which may allow every answer or hold the contents of a file.
-/
namespace Aesd.Server

open PartialRun Exclusion

inductive Tid where
  | main
  | stamp
  | client (i : Nat)
  deriving DecidableEq, Repr

def decimal (n : Nat) : List UInt8 := (Nat.toDigits 10 n).map fun c => UInt8.ofNat c.toNat

def twoDigits (n : Nat) : List UInt8 := [48 + UInt8.ofNat (n / 10), 48 + UInt8.ofNat (n % 10)]

/-- `strftime` with `"timestamp:%Y-%m-%d %H:%M:%S\n"` -/
def timestamp (tm : Tm) : List UInt8 :=
  [116, 105, 109, 101, 115, 116, 97, 109, 112, 58] ++ decimal tm.year ++ [45] ++ twoDigits tm.mon ++
    [45] ++ twoDigits tm.mday ++ [32] ++ twoDigits tm.hour ++ [58] ++ twoDigits tm.min ++ [58] ++
    twoDigits tm.sec ++ [10]

/-- The points of `timestamp_thread`. -/
inductive StampPc where
  | sleep
  | lock
  | writing (w : WritePc)
  | unlock
  deriving DecidableEq, Repr

structure Stamp where
  pc : StampPc
  timeStr : List UInt8
  deriving DecidableEq, Repr

namespace Stamp

def start : Stamp := ⟨.sleep, []⟩

def call (s : Stamp) : Call :=
  match s.pc with
  | .sleep => .time
  | .lock => .lock s.timeStr
  | .writing w => w.call s.timeStr
  | .unlock => .unlock

/-- Whatever `write_to_file` returns, the thread unlocks once. -/
def resume (s : Stamp) (a : Answer) : Option Stamp :=
  match s.pc, a with
  | .sleep, .time tm => some ⟨.lock, timestamp tm⟩
  | .lock, .done => some { s with pc := .writing .openFile }
  | .writing w, a => (w.resume a).map fun
    | .inl w => { s with pc := .writing w }
    | .inr _ => { s with pc := .unlock }
  | .unlock, .done => some { s with pc := .sleep }
  | _, _ => none

end Stamp

/-- The points of `main`: clearing the file, the preparation of the socket, the start of the
timestamp thread, and the accept loop with the sweep over the list of threads. -/
inductive MainPc where
  | clear
  | clearClose (fd : Nat)
  | setup
  | createStamp
  | accept
  | create (fd : Nat)
  | insert (thread : Nat)
  | sweep (items : List Nat)
  | joining (item : Nat) (items : List Nat)
  deriving DecidableEq, Repr

def MainPc.call : MainPc → Call
  | .clear => .openFile .truncate
  | .clearClose fd => .closeFile fd
  | .setup => .setup
  | .createStamp | .create _ => .createThread
  | .accept => .accept
  | .insert _ | .sweep _ => .tau
  | .joining item _ => .join item

/-- The process. A thread is known by its place in `clients`, `active` is `active_threads`, and
`joined` lists the threads that have been joined, unlinked and freed. -/
structure World (σ : Type) where
  os : σ
  mutex : Option Tid
  clients : List Conn
  stamp : Option Stamp
  main : MainPc
  active : List Nat
  joined : List Nat
  exited : Bool

/-- The system: which answers it gives to a call, and what becomes of it. -/
structure Os (σ : Type) where
  respond : σ → Call → Answer → Option σ

structure Event where
  tid : Tid
  call : Call
  answer : Answer
  deriving DecidableEq, Repr

variable {σ : Type}

/-- What a call does with the mutex, which is of the default kind: nobody asks who unlocks it. -/
def Call.use : Call → Use
  | .lock _ => .acquire
  | .unlock => .release
  | _ => .other

/-- The calls and answers with which the process ends. -/
def endsProcess : Call → Answer → Bool
  | .exit, _ | _, .killed => true
  | _, _ => false

namespace World

def start (build : Build) (os : σ) : World σ :=
  ⟨os, none, [], none, if build = .file then .clear else .setup, [], [], false⟩

/-- `main` goes on with the answer of its call. -/
def resumeMain (build : Build) (w : World σ) (a : Answer) : Option (World σ) :=
  match w.main, a with
  | .clear, .fd n => some { w with main := .clearClose n }
  | .clear, .failed => some { w with main := .setup }
  | .clearClose _, .done | .clearClose _, .failed => some { w with main := .setup }
  | .setup, .done => some { w with main := if build = .file then .createStamp else .accept }
  | .setup, .failed => some { w with exited := true }
  | .createStamp, .done => some { w with stamp := some Stamp.start, main := .accept }
  | .createStamp, .failed => some { w with exited := true }
  | .accept, .fd n => some { w with main := .create n }
  | .accept, .failed => some w
  | .create fd, .done =>
    some { w with clients := w.clients ++ [Conn.start fd], main := .insert w.clients.length }
  | .create _, .failed => some { w with exited := true }
  | .insert thread, .done =>
    some { w with active := w.active ++ [thread], main := .sweep (w.active ++ [thread]) }
  | .sweep [], .done => some { w with main := .accept }
  | .sweep (item :: items), .done =>
    if (w.clients[item]?).map Conn.threadCompleteSuccess = some true then
      some { w with main := .joining item items }
    else some { w with main := .sweep items }
  -- `pthread_join` waits for the end of the handler.
  | .joining item items, .done =>
    if (w.clients[item]?).map Conn.pc = some .returned then
      some { w with
        main := .sweep items
        active := w.active.filter (· ≠ item)
        joined := w.joined ++ [item] }
    else none
  | _, _ => none

/-- What an event does to its thread. -/
def thread (build : Build) (w : World σ) (e : Event) : Option (World σ) :=
  match e.tid with
  | .main => if w.main.call = e.call then w.resumeMain build e.answer else none
  | .stamp => w.stamp.bind fun s =>
    if s.call = e.call then (s.resume e.answer).map fun s => { w with stamp := some s } else none
  | .client i => (w.clients[i]?).bind fun c =>
    (c.step build (e.call, e.answer)).map fun c => { w with
      clients := w.clients.set i c
      exited := endsProcess e.call e.answer }

/-- One call of one thread and its answer. -/
def step (build : Build) (os : Os σ) (w : World σ) (e : Event) : Option (World σ) :=
  if w.exited then none
  else
    (os.respond w.os e.call e.answer).bind fun s =>
      (after w.mutex e.tid e.call.use).bind fun m =>
        (w.thread build e).map fun w => { w with os := s, mutex := m }

theorem step_eq_some {build : Build} {os : Os σ} {w t : World σ} {e : Event} :
    w.step build os e = some t ↔ w.exited = false ∧ ∃ s m u, os.respond w.os e.call e.answer = some s ∧
      after w.mutex e.tid e.call.use = some m ∧ w.thread build e = some u ∧
      t = { u with os := s, mutex := m } := by
  unfold step
  cases w.exited with
  | true => simp
  | false =>
    simp only [Bool.false_eq_true, if_false, true_and, Option.bind_eq_some_iff,
      Option.map_eq_some_iff]
    constructor
    · rintro ⟨s, hs, m, hm, u, hu, rfl⟩
      exact ⟨s, m, u, hs, hm, hu, rfl⟩
    · rintro ⟨s, m, u, hs, hm, hu, rfl⟩
      exact ⟨s, hs, m, hm, u, hu, rfl⟩

theorem thread_client {build : Build} {w u : World σ} {i : Nat} {call : Call} {a : Answer} :
    w.thread build ⟨.client i, call, a⟩ = some u ↔ ∃ c c', w.clients[i]? = some c ∧
      c.step build (call, a) = some c' ∧ u = { w with
        clients := w.clients.set i c'
        exited := endsProcess call a } := by
  simp only [thread, Option.bind_eq_some_iff, Option.map_eq_some_iff]
  constructor
  · rintro ⟨c, hc, c', hc', rfl⟩
    exact ⟨c, c', hc, hc', rfl⟩
  · rintro ⟨c, c', hc, hc', rfl⟩
    exact ⟨c, hc, c', hc', rfl⟩

theorem thread_stamp {build : Build} {w u : World σ} {call : Call} {a : Answer} :
    w.thread build ⟨.stamp, call, a⟩ = some u ↔ ∃ s s', w.stamp = some s ∧ s.call = call ∧
      s.resume a = some s' ∧ u = { w with stamp := some s' } := by
  simp only [thread, Option.bind_eq_some_iff]
  constructor
  · rintro ⟨s, hs, h⟩
    split_ifs at h with hcall
    obtain ⟨s', hs', rfl⟩ := Option.map_eq_some_iff.mp h
    exact ⟨s, s', hs, hcall, hs', rfl⟩
  · rintro ⟨s, s', hs, hcall, hs', rfl⟩
    exact ⟨s, hs, by simp [hcall, hs']⟩

theorem thread_main {build : Build} {w u : World σ} {call : Call} {a : Answer} :
    w.thread build ⟨.main, call, a⟩ = some u ↔
      w.main.call = call ∧ w.resumeMain build a = some u := by
  simp only [thread]
  split_ifs with h <;> simp [h]

end World

/-- The calls one thread made, and their answers. -/
def project (tid : Tid) (tr : List Event) : Trace :=
  (tr.filter (·.tid = tid)).map fun e => (e.call, e.answer)

@[simp] theorem project_nil (tid : Tid) : project tid [] = [] := rfl

theorem project_append (tid : Tid) (tr tr' : List Event) :
    project tid (tr ++ tr') = project tid tr ++ project tid tr' := by simp [project]

theorem project_concat_self (tid : Tid) (tr : List Event) (call : Call) (a : Answer) :
    project tid (tr ++ [⟨tid, call, a⟩]) = project tid tr ++ [(call, a)] := by
  simp [project]

theorem project_concat_ne {tid tid' : Tid} (h : tid' ≠ tid) (tr : List Event) (call : Call)
    (a : Answer) : project tid (tr ++ [⟨tid', call, a⟩]) = project tid tr := by
  simp [project, h]

/-- `main` starts a connection, or leaves the connections alone; the timestamp thread starts
once, and nobody stops it. -/
theorem resumeMain_cases {build : Build} {w u : World σ} {a : Answer}
    (h : w.resumeMain build a = some u) :
    (u.clients = w.clients ∨ ∃ fd, w.main = .create fd ∧ u.clients = w.clients ++ [Conn.start fd]) ∧
      (u.stamp = w.stamp ∨ w.main = .createStamp ∧ u.stamp = some Stamp.start) := by
  cases hmain : w.main <;> cases a <;>
    simp only [World.resumeMain, hmain, Option.some.injEq, reduceCtorEq] at h
  case createStamp.done => exact h ▸ ⟨Or.inl rfl, Or.inr ⟨rfl, rfl⟩⟩
  case create.done fd => exact h ▸ ⟨Or.inr ⟨fd, rfl, rfl⟩, Or.inl rfl⟩
  case sweep.done items =>
    cases items with
    | nil => cases h; exact ⟨Or.inl rfl, Or.inl rfl⟩
    | cons item items =>
      simp only at h
      split_ifs at h <;> cases h <;> exact ⟨Or.inl rfl, Or.inl rfl⟩
  case joining.done item items =>
    split_ifs at h
    cases h
    exact ⟨Or.inl rfl, Or.inl rfl⟩
  all_goals exact h ▸ ⟨Or.inl rfl, Or.inl rfl⟩

/-- `main` never takes the mutex. -/
theorem main_use (pc : MainPc) : pc.call.use = .other := by
  cases pc <;> rfl

/-- The points of `main` before the first connection. -/
def MainPc.starting : MainPc → Bool
  | .clear | .clearClose _ | .setup | .createStamp => true
  | _ => false

/-- `main` gives up only on a failure: in its preparations, or when a thread cannot be created. -/
theorem resumeMain_exits {build : Build} {w u : World σ} {a : Answer}
    (h : w.resumeMain build a = some u) : u.exited = w.exited ∨
      a = .failed ∧ (u.main.starting = true ∨ ∃ fd, w.main = .create fd) := by
  cases hmain : w.main <;> cases a <;>
    simp only [World.resumeMain, hmain, Option.some.injEq, reduceCtorEq] at h
  case setup.failed | createStamp.failed =>
    subst h
    exact Or.inr ⟨rfl, Or.inl (by simp [MainPc.starting])⟩
  case create.failed fd => exact Or.inr ⟨rfl, Or.inr ⟨fd, rfl⟩⟩
  case sweep.done items =>
    cases items with
    | nil => cases h; exact Or.inl rfl
    | cons item items =>
      simp only at h
      split_ifs at h <;> cases h <;> exact Or.inl rfl
  case joining.done item items =>
    split_ifs at h
    cases h
    exact Or.inl rfl
  all_goals exact Or.inl (h ▸ rfl)

/-- `main` clears the file once, and prepares the socket before anything else runs. -/
theorem resumeMain_starting {build : Build} {w t : World σ} {a : Answer}
    (h : w.resumeMain build a = some t) : t.main ≠ .clear ∧
    (t.main.starting = true → w.main.starting = true ∧ t.clients = w.clients ∧ t.stamp = w.stamp) ∧
      (build = .driver → w.main ≠ .createStamp → t.main ≠ .createStamp ∧ t.stamp = w.stamp) := by
  cases hmain : w.main <;> cases a <;>
    simp only [World.resumeMain, hmain, Option.some.injEq, reduceCtorEq] at h
  case sweep.done items =>
    cases items with
    | nil =>
      cases h
      exact ⟨nofun, nofun, fun _ _ => ⟨nofun, rfl⟩⟩
    | cons item items =>
      simp only at h
      split_ifs at h <;> cases h <;> exact ⟨nofun, nofun, fun _ _ => ⟨nofun, rfl⟩⟩
  case joining.done item items =>
    split_ifs at h
    cases h
    exact ⟨nofun, nofun, fun _ _ => ⟨nofun, rfl⟩⟩
  all_goals
    subst h
    cases build <;> simp [MainPc.starting, hmain]

/-- A connection stays as it is while other threads go on. -/
theorem client_kept {build : Build} {os : Os σ} {w t : World σ} {e : Event} {i : Nat} {c : Conn}
    (h : w.step build os e = some t) (hne : e.tid ≠ .client i) (hc : w.clients[i]? = some c) :
    t.clients[i]? = some c := by
  obtain ⟨-, s, m, u, -, -, hu, rfl⟩ := World.step_eq_some.mp h
  obtain ⟨tid, call, a⟩ := e
  cases tid with
  | main =>
    rcases (resumeMain_cases (World.thread_main.mp hu).2).1 with heq | ⟨fd, -, heq⟩
    · exact (congrArg (·[i]?) heq).trans hc
    · have hi := (List.getElem?_eq_some_iff.mp hc).1
      simpa [heq, List.getElem?_append_left hi] using hc
  | stamp =>
    obtain ⟨s, s', -, -, -, rfl⟩ := World.thread_stamp.mp hu
    exact hc
  | client j =>
    obtain ⟨d, d', -, -, rfl⟩ := World.thread_client.mp hu
    have hij : j ≠ i := by
      rintro rfl
      exact hne rfl
    exact (List.getElem?_set_ne hij).trans hc

/-- A handler keeps its socket, and nobody takes its flag back. -/
theorem step_kept {build : Build} {c t : Conn} {e : Call × Answer}
    (h : c.step build e = some t) : t.clientFd = c.clientFd ∧
      (c.threadCompleteSuccess = true → t.threadCompleteSuccess = true) := by
  obtain ⟨call, a⟩ := e
  cases move_of_step h
  case dispatched => cases build <;> exact ⟨rfl, id⟩
  case finished c =>
    unfold Conn.finish
    cases c.packetBuf
    · exact ⟨rfl, id⟩
    · exact ⟨rfl, fun _ => rfl⟩
  all_goals exact ⟨rfl, id⟩

/-- Every connection runs as if it were alone. -/
theorem run_project {build : Build} {os : Os σ} {s : σ} {tr : List Event} {w : World σ}
    (h : run (World.step build os) (World.start build s) tr = some w) (i : Nat) :
    (w.clients[i]? = none → project (.client i) tr = []) ∧ ∀ c, w.clients[i]? = some c →
      run (Conn.step build) (Conn.start c.clientFd) (project (.client i) tr) = some c := by
  refine run_invariant (I := fun tr w => (w.clients[i]? = none → project (.client i) tr = []) ∧
    ∀ c, w.clients[i]? = some c →
      run (Conn.step build) (Conn.start c.clientFd) (project (.client i) tr) = some c) ?_ ?_ h
  · exact ⟨fun _ => rfl, fun c hc => by simp [World.start] at hc⟩
  · rintro es u ⟨tid, call, a⟩ t - ht ⟨hnone, hsome⟩
    obtain ⟨-, -, -, v, -, -, hv, rfl⟩ := World.step_eq_some.mp ht
    cases tid with
    | main =>
      rw [project_concat_ne (by simp)]
      obtain ⟨-, hres⟩ := World.thread_main.mp hv
      rcases (resumeMain_cases hres).1 with hcl | ⟨fd, -, hcl⟩
      · simp only [hcl]
        exact ⟨hnone, hsome⟩
      · simp only [hcl]
        rcases Nat.lt_trichotomy i u.clients.length with hi | hi | hi
        · rw [List.getElem?_append_left hi]
          exact ⟨hnone, hsome⟩
        · have hnew : u.clients[i]? = none := List.getElem?_eq_none (by omega)
          rw [hnone hnew, hi]
          refine ⟨fun _ => rfl, fun c hc => ?_⟩
          simp only [List.getElem?_concat_length, Option.some.injEq] at hc
          subst hc
          rfl
        · have hnew : u.clients[i]? = none := List.getElem?_eq_none (by omega)
          refine ⟨fun _ => hnone hnew, fun c hc => ?_⟩
          rw [List.getElem?_eq_none (by simp; omega)] at hc
          cases hc
    | stamp =>
      rw [project_concat_ne (by simp)]
      obtain ⟨s, s', -, -, -, rfl⟩ := World.thread_stamp.mp hv
      exact ⟨hnone, hsome⟩
    | client j =>
      obtain ⟨c, c', hc, hstep, rfl⟩ := World.thread_client.mp hv
      by_cases hij : j = i
      · subst hij
        have hj := (List.getElem?_eq_some_iff.mp hc).1
        rw [project_concat_self]
        simp only [List.getElem?_set_self hj, reduceCtorEq, false_implies, true_and,
          Option.some.injEq]
        rintro d rfl
        rw [(step_kept hstep).1]
        exact run_concat_eq_some.mpr ⟨c, hsome c hc, hstep⟩
      · rw [project_concat_ne (by simpa using hij)]
        simp only [List.getElem?_set_ne hij]
        exact ⟨hnone, hsome⟩

/-- A system that may give any answer. -/
def anyAnswer : Os Unit := ⟨fun _ _ _ => some ()⟩

/-- The file is cleared, and the first client connects. -/
def connected : List Event :=
  [(.openFile .truncate, .fd 3), (.closeFile 3, .done), (.setup, .done), (.createThread, .done),
    (.accept, .fd 4), (.createThread, .done)].map fun (call, a) => ⟨.main, call, a⟩

/-- The first client of the driver build connects. -/
def connectedDevice : List Event :=
  [(.setup, .done), (.accept, .fd 4), (.createThread, .done)].map fun (call, a) => ⟨.main, call, a⟩

/-- One client makes these calls. -/
def byClient (i : Nat) (tr : Trace) : List Event := tr.map fun (call, a) => ⟨.client i, call, a⟩

def byMain (tr : Trace) : List Event := tr.map fun (call, a) => ⟨.main, call, a⟩

def byStamp (tr : Trace) : List Event := tr.map fun (call, a) => ⟨.stamp, call, a⟩

/-- A line is recorded, and what can be read then is sent in two parts. -/
def recordAndSend (fd : Nat) (line file : List UInt8) : Trace :=
  [(.lock line, .done), (.openFile .append, .fd fd), (.write fd line, .count line.length),
    (.fsync fd, .done), (.closeFile fd, .done), (.openFile .readOnly, .fd fd), (.read fd, .bytes file),
    (.send file, .count 1), (.send (file.drop 1), .count (file.length - 1)), (.read fd, .bytes []),
    (.closeFile fd, .done), (.unlock, .done), (.tau, .done)]

/-- A leap day, to the second. -/
def leapDay : Tm := ⟨2024, 2, 29, 23, 59, 59⟩

/-- Two clients and the timestamp thread stand in front of the mutex. The line of the first client
has come in two parts. It hangs up when everybody has had the mutex, and the sweep after the next
connection joins its thread. -/
def inTurn : List Event :=
  connected ++
  byMain [(.tau, .done), (.tau, .done), (.tau, .done), (.accept, .fd 5), (.createThread, .done)] ++
  byClient 0 [(.recv, .bytes [97]), (.tau, .done), (.realloc 1024, .memory (List.replicate 1024 0)),
    (.tau, .done), (.tau, .done)] ++
  byClient 1 (lineIn [98, 10]) ++ byStamp [(.time, .time leapDay)] ++
  byClient 0 [(.recv, .bytes [10]), (.tau, .done), (.tau, .done), (.process [97, 10], .memory [])] ++
  byClient 0 (recordAndSend 6 [97, 10] [97, 10]) ++
  byStamp [(.lock (timestamp leapDay), .done), (.openFile .append, .fd 6),
    (.write 6 (timestamp leapDay), .count (timestamp leapDay).length), (.fsync 6, .done),
    (.closeFile 6, .done), (.unlock, .done)] ++
  byClient 1 (recordAndSend 6 [98, 10] ([97, 10] ++ timestamp leapDay ++ [98, 10])) ++
  byMain [(.tau, .done), (.tau, .done), (.tau, .done), (.tau, .done)] ++
  byClient 0 [(.recv, .bytes []), (.tau, .done), (.closeClient 4, .done)] ++
  byMain [(.accept, .fd 4), (.createThread, .done), (.tau, .done), (.tau, .done), (.join 0, .done),
    (.tau, .done), (.tau, .done), (.tau, .done)]

/-- Two clients of the driver build stand in front of the mutex. The first one records a line, and
the second one asks for it from its second byte on. -/
def twoServed : List Event :=
  connectedDevice ++
  byMain [(.tau, .done), (.tau, .done), (.tau, .done), (.accept, .fd 5), (.createThread, .done)] ++
  byClient 1 (lineIn (seekPrefix ++ [48, 44, 49, 10])) ++
  byClient 0 (lineIn [97, 98, 10] ++ recordAndSend 6 [97, 98, 10] [97, 98, 10]) ++
  byClient 1 [(.lock (seekPrefix ++ [48, 44, 49, 10]), .done), (.openFile .readWrite, .fd 6),
    (.ioctl 6 0 1, .done), (.read 6, .bytes [98, 10]), (.send [98, 10], .count 1),
    (.send [10], .count 1), (.read 6, .bytes []), (.closeFile 6, .done), (.unlock, .done),
    (.tau, .done)]

end Aesd.Server
