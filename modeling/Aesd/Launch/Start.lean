import Aesd.Server.Process
import Mathlib.Logic.Function.Basic

/-!
# Starting the server

What `main` of `aesdsocket.c` does before its accept loop, one call at a time:
the log, the data file, the handlers, the socket, the fork with `-d` and the
streams of the daemon. The process may be started with any descriptors and with
signals ignored, and a signal may come between any two calls.
-/
namespace Aesd.Launch

open PartialRun Server

/-- The access mode of an `open`. -/
inductive Access where
  | rdonly | wronly | rdwr
  deriving DecidableEq, Repr

/-- What a descriptor stands for; `inherited` came with the process, and `log` is the connection
the first `syslog` makes. -/
inductive File where
  | inherited (id : Nat)
  | log
  | data
  | socket
  | null (access : Access)
  deriving DecidableEq, Repr

abbrev Descriptors := Nat → Option File

/-- `open` and `socket` return the lowest descriptor that is free. -/
def LowestFree (table : Descriptors) (fd : Nat) : Prop :=
  table fd = none ∧ ∀ n < fd, (table n).isSome

instance (table : Descriptors) (fd : Nat) : Decidable (LowestFree table fd) :=
  inferInstanceAs (Decidable (_ ∧ _))

/-- The standard streams, in the order in which they are closed and opened. -/
inductive Stream where
  | stdin | stdout | stderr
  deriving DecidableEq, Repr

def Stream.fileno : Stream → Nat
  | .stdin => 0
  | .stdout => 1
  | .stderr => 2

def Stream.access : Stream → Access
  | .stdin => .rdonly
  | .stdout => .wronly
  | .stderr => .rdwr

/-- The signals `setup_signal_handlers` asks for. -/
inductive Signal where
  | sigint | sigterm
  deriving DecidableEq, Repr

/-- `handler` is `handle_signal`. -/
inductive Disposition where
  | default | ignored | handler
  deriving DecidableEq, Repr

/-- How a process ends. -/
inductive Ending where
  | exited (code : Nat)
  | signaled
  deriving DecidableEq, Repr

/-- The points of `main` up to the accept loop. -/
inductive Pc where
  | log
  | clear
  | clearClose (fd : Nat)
  | sigaction (signal : Signal)
  | getaddrinfo
  | socket
  | bind
  | fork
  | exitParent
  | setsid
  | chdir
  | close (stream : Stream)
  | openNull (stream : Stream)
  | listen
  | createStamp
  | accept
  deriving DecidableEq, Repr

/-- The driver build has no file to clear. -/
def Pc.afterLog : Build → Pc
  | .file => .clear
  | .driver => .sigaction .sigint

def Stream.afterClose : Stream → Pc
  | .stdin => .close .stdout
  | .stdout => .close .stderr
  | .stderr => .openNull .stdin

def Stream.afterOpen : Stream → Pc
  | .stdin => .openNull .stdout
  | .stdout => .openNull .stderr
  | .stderr => .listen

inductive Call where
  | syslog
  | openData
  | closeData (fd : Nat)
  | sigaction (signal : Signal)
  | getaddrinfo
  | socket
  | bind (fd : Int)
  | fork
  | exit
  | setsid
  | chdir
  | close (fd : Nat)
  | openNull (access : Access)
  | listen (fd : Int)
  | createThread
  deriving DecidableEq, Repr

/-- What the process finds when it is started; `stack` is what `main`'s own `sockfd` holds until
`socket` has returned. -/
structure Env where
  build : Build
  argv : List String
  descriptors : Descriptors
  dispositions : Signal → Disposition
  stack : Int

/-- `argc == 2 && strcmp(argv[1], "-d") == 0` -/
def Env.daemon (env : Env) : Bool := env.argv.length == 2 && env.argv[1]? == some "-d"

/-- A process. `main` has a `sockfd` of its own, and the handler looks at the global one. -/
structure Proc where
  pc : Pc
  descriptors : Descriptors
  dispositions : Signal → Disposition
  globalSockfd : Int
  sockfd : Int
  sessionLeader : Bool
  atRoot : Bool
  ending : Option Ending

/-- The file behind an `int`. -/
def lookup (table : Descriptors) (fd : Int) : Option File :=
  if 0 ≤ fd then table fd.toNat else none

namespace Proc

def start (env : Env) : Proc where
  pc := .log
  descriptors := env.descriptors
  dispositions := env.dispositions
  globalSockfd := -1
  sockfd := env.stack
  sessionLeader := false
  atRoot := false
  ending := none

def call (p : Proc) : Option Call :=
  match p.pc with
  | .log => some .syslog
  | .clear => some .openData
  | .clearClose fd => some (.closeData fd)
  | .sigaction signal => some (.sigaction signal)
  | .getaddrinfo => some .getaddrinfo
  | .socket => some .socket
  | .bind => some (.bind p.sockfd)
  | .fork => some .fork
  | .exitParent => some .exit
  | .setsid => some .setsid
  | .chdir => some .chdir
  | .close stream => some (.close stream.fileno)
  | .openNull stream => some (.openNull stream.access)
  | .listen => some (.listen p.sockfd)
  | .createStamp => some .createThread
  | .accept => none

/-- `exit(1)` and `exit(EXIT_FAILURE)` -/
def fail (p : Proc) : Proc := { p with ending := some (.exited 1) }

/-- A descriptor is gone whatever `close` returns. -/
def drop (p : Proc) (fd : Nat) : Proc :=
  { p with descriptors := Function.update p.descriptors fd none }

def install (p : Proc) (fd : Nat) (file : File) : Proc :=
  { p with descriptors := Function.update p.descriptors fd (some file) }

/-- The process goes on with the answer of its call. What `socket` and the opens of `/dev/null`
return is not checked; `bind` and `listen` succeed on a socket only. -/
def resume (env : Env) (p : Proc) (a : Answer) : Option Proc :=
  match p.pc, a with
  | .log, .fd n =>
    if LowestFree p.descriptors n then some { p.install n .log with pc := Pc.afterLog env.build }
    else none
  | .log, .failed => some { p with pc := Pc.afterLog env.build }
  | .clear, .fd n =>
    if LowestFree p.descriptors n then some { p.install n .data with pc := .clearClose n } else none
  | .clear, .failed => some { p with pc := .sigaction .sigint }
  | .clearClose fd, .done | .clearClose fd, .failed =>
    some { p.drop fd with pc := .sigaction .sigint }
  | .sigaction signal, .done =>
    some { p with
      dispositions := Function.update p.dispositions signal .handler
      pc := if signal = .sigint then .sigaction .sigterm else .getaddrinfo }
  | .getaddrinfo, .done => some { p with pc := .socket }
  | .socket, .fd n =>
    if LowestFree p.descriptors n then some { p.install n .socket with sockfd := n, pc := .bind }
    else none
  | .socket, .failed => some { p with sockfd := -1, pc := .bind }
  | .bind, .done =>
    if lookup p.descriptors p.sockfd = some .socket then
      some { p with pc := if env.daemon then .fork else .listen }
    else none
  | .exitParent, .done => some { p with ending := some (.exited 0) }
  | .setsid, .done => some { p with sessionLeader := true, pc := .chdir }
  | .chdir, .done => some { p with atRoot := true, pc := .close .stdin }
  | .close stream, .done | .close stream, .failed =>
    some { p.drop stream.fileno with pc := stream.afterClose }
  | .openNull stream, .fd n =>
    if LowestFree p.descriptors n then
      some { p.install n (.null stream.access) with pc := stream.afterOpen }
    else none
  | .openNull stream, .failed => some { p with pc := stream.afterOpen }
  | .listen, .done =>
    if lookup p.descriptors p.sockfd = some .socket then
      some { p with pc := if env.build = .file then .createStamp else .accept }
    else none
  | .createStamp, .done => some { p with pc := .accept }
  | .sigaction _, .failed | .getaddrinfo, .failed | .bind, .failed | .fork, .failed
  | .setsid, .failed | .chdir, .failed | .listen, .failed | .createStamp, .failed => some p.fail
  | _, _ => none

/-- `handle_signal` -/
def handleSignal (p : Proc) : Proc :=
  if p.globalSockfd ≠ -1 then { p.drop p.globalSockfd.toNat with ending := some (.exited 0) }
  else { p with ending := some (.exited 0) }

def deliver (p : Proc) (signal : Signal) : Proc :=
  match p.dispositions signal with
  | .default => { p with ending := some .signaled }
  | .ignored => p
  | .handler => p.handleSignal

end Proc

/-- Which of the two processes. -/
inductive Who where
  | parent | child
  deriving DecidableEq, Repr

/-- `kill` is a signal nobody handles. -/
inductive Event where
  | answer (who : Who) (call : Call) (a : Answer)
  | signal (who : Who) (signal : Signal)
  | kill (who : Who)
  deriving DecidableEq, Repr

def Event.who : Event → Who
  | .answer who _ _ | .signal who _ | .kill who => who

/-- What an event does to a process that has not ended, a `fork` that succeeds apart. -/
def Proc.react (env : Env) (p : Proc) : Event → Option Proc
  | .answer _ call a => if p.call = some call then p.resume env a else none
  | .signal _ signal => some (p.deliver signal)
  | .kill _ => some { p with ending := some .signaled }

/-- The process that was started, and the one it has forked. -/
structure World where
  parent : Proc
  child : Option Proc

namespace World

def start (env : Env) : World := ⟨Proc.start env, none⟩

def proc (w : World) : Who → Option Proc
  | .parent => some w.parent
  | .child => w.child

def setProc (w : World) : Who → Proc → World
  | .parent, p => { w with parent := p }
  | .child, p => { w with child := some p }

/-- The process that goes on to serve. -/
def server (w : World) : Proc := w.child.getD w.parent

def step (env : Env) (w : World) (e : Event) : Option World :=
  if e = .answer .parent .fork .done ∧ w.parent.pc = .fork ∧ w.parent.ending = none then
    some ⟨{ w.parent with pc := .exitParent }, some { w.parent with pc := .setsid }⟩
  else
    (w.proc e.who).bind fun p =>
      if p.ending.isSome then none else (p.react env e).map (w.setProc e.who)

end World

variable {env : Env} {w t : World} {p q : Proc} {e : Event}

theorem step_cases (h : w.step env e = some t) :
    (e = .answer .parent .fork .done ∧ w.parent.pc = .fork ∧ w.parent.ending = none ∧
      t = ⟨{ w.parent with pc := .exitParent }, some { w.parent with pc := .setsid }⟩) ∨
    ∃ p q, w.proc e.who = some p ∧ p.ending = none ∧ p.react env e = some q ∧
      t = w.setProc e.who q := by
  unfold World.step at h
  split_ifs at h with hfork
  · cases h
    exact Or.inl ⟨hfork.1, hfork.2.1, hfork.2.2, rfl⟩
  · obtain ⟨p, hp, h⟩ := Option.bind_eq_some_iff.mp h
    split_ifs at h with hended
    obtain ⟨q, hq, rfl⟩ := Option.map_eq_some_iff.mp h
    exact Or.inr ⟨p, q, hp, by simpa using hended, hq, rfl⟩

/-- The points whose call ends the process when it fails. -/
def Pc.checked : Pc → Bool
  | .sigaction _ | .getaddrinfo | .bind | .fork | .setsid | .chdir | .listen | .createStamp => true
  | _ => false

/-- What the answers of the calls do, one constructor a branch. -/
inductive Proc.Move (env : Env) (p : Proc) : Call → Answer → Proc → Prop where
  | logged {n : Nat} (hpc : p.pc = .log) (hfree : LowestFree p.descriptors n) :
    Move env p .syslog (.fd n) { p.install n .log with pc := Pc.afterLog env.build }
  | notLogged (hpc : p.pc = .log) :
    Move env p .syslog .failed { p with pc := Pc.afterLog env.build }
  | opened {n : Nat} (hpc : p.pc = .clear) (hfree : LowestFree p.descriptors n) :
    Move env p .openData (.fd n) { p.install n .data with pc := .clearClose n }
  | notOpened (hpc : p.pc = .clear) :
    Move env p .openData .failed { p with pc := .sigaction .sigint }
  | cleared {fd : Nat} {a : Answer} (hpc : p.pc = .clearClose fd) (ha : a = .done ∨ a = .failed) :
    Move env p (.closeData fd) a { p.drop fd with pc := .sigaction .sigint }
  | caught {signal : Signal} (hpc : p.pc = .sigaction signal) :
    Move env p (.sigaction signal) .done
      { p with
        dispositions := Function.update p.dispositions signal .handler
        pc := if signal = .sigint then .sigaction .sigterm else .getaddrinfo }
  | resolved (hpc : p.pc = .getaddrinfo) : Move env p .getaddrinfo .done { p with pc := .socket }
  | created {n : Nat} (hpc : p.pc = .socket) (hfree : LowestFree p.descriptors n) :
    Move env p .socket (.fd n) { p.install n .socket with sockfd := n, pc := .bind }
  | notCreated (hpc : p.pc = .socket) :
    Move env p .socket .failed { p with sockfd := -1, pc := .bind }
  | bound (hpc : p.pc = .bind) (hsocket : lookup p.descriptors p.sockfd = some .socket) :
    Move env p (.bind p.sockfd) .done { p with pc := if env.daemon then .fork else .listen }
  | left (hpc : p.pc = .exitParent) :
    Move env p .exit .done { p with ending := some (.exited 0) }
  | leads (hpc : p.pc = .setsid) :
    Move env p .setsid .done { p with sessionLeader := true, pc := .chdir }
  | moved (hpc : p.pc = .chdir) :
    Move env p .chdir .done { p with atRoot := true, pc := .close .stdin }
  | closed {stream : Stream} {a : Answer} (hpc : p.pc = .close stream) :
    Move env p (.close stream.fileno) a { p.drop stream.fileno with pc := stream.afterClose }
  | nulled {stream : Stream} {n : Nat} (hpc : p.pc = .openNull stream)
    (hfree : LowestFree p.descriptors n) :
    Move env p (.openNull stream.access) (.fd n)
      { p.install n (.null stream.access) with pc := stream.afterOpen }
  | notNulled {stream : Stream} (hpc : p.pc = .openNull stream) :
    Move env p (.openNull stream.access) .failed { p with pc := stream.afterOpen }
  | listening (hpc : p.pc = .listen) (hsocket : lookup p.descriptors p.sockfd = some .socket) :
    Move env p (.listen p.sockfd) .done
      { p with pc := if env.build = .file then .createStamp else .accept }
  | stamped (hpc : p.pc = .createStamp) :
    Move env p .createThread .done { p with pc := .accept }
  | failed {call : Call} (hcall : p.call = some call) (hchecked : p.pc.checked = true) :
    Move env p call .failed p.fail

theorem Proc.move_of_resume {call : Call} {a : Answer} (hcall : p.call = some call)
    (h : p.resume env a = some q) : p.Move env call a q := by
  cases hpc : p.pc <;> simp only [Proc.call, hpc, Option.some.injEq, reduceCtorEq] at hcall <;>
    subst hcall <;> cases a <;>
    simp only [Proc.resume, hpc, Option.ite_none_right_eq_some, Option.some.injEq,
      reduceCtorEq] at h
  case log.fd n => exact h.2 ▸ .logged hpc h.1
  case log.failed => exact h ▸ .notLogged hpc
  case clear.fd n => exact h.2 ▸ .opened hpc h.1
  case clear.failed => exact h ▸ .notOpened hpc
  case clearClose.done fd => exact h ▸ .cleared hpc (Or.inl rfl)
  case clearClose.failed fd => exact h ▸ .cleared hpc (Or.inr rfl)
  case sigaction.done signal => exact h ▸ .caught hpc
  case getaddrinfo.done => exact h ▸ .resolved hpc
  case socket.fd n => exact h.2 ▸ .created hpc h.1
  case socket.failed => exact h ▸ .notCreated hpc
  case bind.done => exact h.2 ▸ .bound hpc h.1
  case exitParent.done =>
    have hmove : p.Move env .exit .done { p with ending := some (.exited 0) } := .left hpc
    rw [hpc] at hmove
    exact h ▸ hmove
  case setsid.done => exact h ▸ .leads hpc
  case chdir.done => exact h ▸ .moved hpc
  case close.done stream | close.failed stream => exact h ▸ .closed hpc
  case openNull.fd stream n => exact h.2 ▸ .nulled hpc h.1
  case openNull.failed stream => exact h ▸ .notNulled hpc
  case listen.done => exact h.2 ▸ .listening hpc h.1
  case createStamp.done => exact h ▸ .stamped hpc
  all_goals exact h ▸ .failed (by simp [Proc.call, hpc]) (by simp [Pc.checked, hpc])

/-- With the global `sockfd` at -1, `handle_signal` closes nothing. -/
theorem deliver_eq (hglobal : p.globalSockfd = -1) (signal : Signal) :
    p.deliver signal = { p with ending := match p.dispositions signal with
      | .default => some .signaled
      | .ignored => p.ending
      | .handler => some (.exited 0) } := by
  unfold Proc.deliver
  cases p.dispositions signal with
  | default | ignored => rfl
  | handler => simp [Proc.handleSignal, hglobal]

/-- A signal leaves everything but the ending alone. -/
theorem react_cases (hglobal : p.globalSockfd = -1) (h : p.react env e = some q) :
    (∃ who call a, e = .answer who call a ∧ p.Move env call a q) ∨
      (∀ who call a, e ≠ .answer who call a) ∧
        ∃ ending, q = { p with ending := ending } ∧ (p.ending = none → ending ≠ some (.exited 1)) := by
  cases e with
  | answer who call a =>
    simp only [Proc.react] at h
    split_ifs at h with hcall
    exact Or.inl ⟨who, call, a, rfl, Proc.move_of_resume hcall h⟩
  | signal who signal =>
    cases h
    refine Or.inr ⟨fun _ _ _ h => (by cases h), _, deliver_eq hglobal signal, fun hlive => ?_⟩
    cases p.dispositions signal <;> simp [hlive]
  | kill who =>
    cases h
    exact Or.inr ⟨fun _ _ _ h => (by cases h), some .signaled, rfl, fun _ => by simp⟩

/-- The global `sockfd` is the one `main` hides: nobody ever sets it. -/
theorem react_globalSockfd (hglobal : p.globalSockfd = -1) (h : p.react env e = some q) :
    q.globalSockfd = -1 := by
  rcases react_cases hglobal h with ⟨who, call, a, -, hmove⟩ | ⟨-, ending, rfl, -⟩
  · cases hmove <;> exact hglobal
  · exact hglobal

end Aesd.Launch
