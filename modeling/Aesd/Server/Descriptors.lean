import Aesd.Lib.HandleTable
import Aesd.Server.Sections
import Mathlib.Data.Finset.Card
import Mathlib.Tactic.Abel

/-!
# Descriptors

The table of open descriptors along a run of the process. Every point of every
thread holds the descriptors it works with, and the table is the sum of them:
but for the one a failed `ioctl` leaves behind.
-/
namespace Aesd.Server

open PartialRun HandleTable

/-- What a call does with the table. A descriptor is gone also when `close` reports an error. -/
def tableUse : Call × Answer → HandleTable.Use Nat
  | (.openFile _, .fd n) | (.accept, .fd n) => .opened n
  | (.closeFile n, _) | (.closeClient n, _) => .closed n
  | _ => .other

/-- The open descriptors after these calls; `t` are the ones that were open before. -/
def descriptors (t : Multiset Nat) (tr : Trace) : Multiset Nat := table t (tr.map tableUse)

/-- The calls of all threads. -/
def calls (tr : List Event) : Trace := tr.map fun e => (e.call, e.answer)

/-- The descriptor nobody closes any more. -/
def lostBy : Call × Answer → Option Nat
  | (.ioctl fd _ _, .failed) => some fd
  | _ => none

def lost (tr : Trace) : Multiset Nat := tr.filterMap lostBy

def WritePc.file : WritePc → Option Nat
  | .openFile => none
  | .write fd | .writeFailed fd | .fsync fd | .fsyncFailed fd | .closeFile fd => some fd

/-- The file the handler works with. -/
def Pc.file : Pc → Option Nat
  | .seekIoctl fd _ _ | .reading _ fd | .sending _ fd _ | .closing _ fd | .sendFailed _ fd => some fd
  | .writing w => w.file
  | _ => none

def Conn.holds (c : Conn) : Multiset Nat :=
  match c.pc with
  | .returned => 0
  | pc => {c.clientFd} + (pc.file.toList : Multiset Nat)

def Stamp.holds (s : Stamp) : Multiset Nat :=
  match s.pc with
  | .writing w => w.file.toList
  | _ => 0

def MainPc.holds : MainPc → Multiset Nat
  | .clearClose fd | .create fd => {fd}
  | _ => 0

/-- The descriptors in the hands of all threads. -/
def World.holds {σ : Type} (w : World σ) : Multiset Nat :=
  (w.clients.map Conn.holds).sum + w.stamp.elim 0 Stamp.holds + w.main.holds

/-- In every state: what is open is what the threads hold. Between two packets a connection has
its socket open and nothing else, and behind its end nothing at all. -/
structure BalancedDescriptors {σ : Type} (open₀ : Finset Nat) (tr : List Event) (w : World σ) :
    Prop where
  exact : w.exited = false → descriptors open₀.val (calls tr) = open₀.val + w.holds
  distinct : (descriptors open₀.val (calls tr)).Nodup
  closed : ∀ pre e, calls tr = pre ++ [e] → Closable (descriptors open₀.val pre) (tableUse e)
  between : ∀ i c, w.clients[i]? = some c → c.pc.phase = .gathering →
    descriptors {c.clientFd} (project (.client i) tr) = {c.clientFd}
  returned : ∀ i c, w.clients[i]? = some c → c.pc = .returned →
    descriptors {c.clientFd} (project (.client i) tr) = 0
  bounded : w.exited = false → (descriptors open₀.val (calls tr)).card ≤
    open₀.card + 2 + 2 * w.clients.countP (·.pc ≠ .returned)

variable {σ : Type} {build : Build} {os : Os σ}

@[simp] theorem calls_concat (tr : List Event) (e : Event) :
    calls (tr ++ [e]) = calls tr ++ [(e.call, e.answer)] := by simp [calls]

@[simp] theorem descriptors_concat (t : Multiset Nat) (tr : Trace) (e : Call × Answer) :
    descriptors t (tr ++ [e]) = track (descriptors t tr) (tableUse e) := by simp [descriptors]

@[simp] theorem lost_concat (tr : Trace) (e : Call × Answer) :
    lost (tr ++ [e]) = lost tr + ((lostBy e).toList : Multiset Nat) := by
  simp only [lost, List.filterMap_append, Multiset.coe_add, List.filterMap_cons, List.filterMap_nil]
  cases lostBy e <;> rfl

/-- What one step does to the descriptors in the hands of its thread. -/
structure Exchange (e : Call × Answer) (before behind : Multiset Nat) : Prop where
  closable : Closable before (tableUse e)
  traded : track before (tableUse e) = behind + ((lostBy e).toList : Multiset Nat)

theorem write_exchange (data : List UInt8) {w : WritePc} {a : Answer} {next : WritePc ⊕ Bool}
    (h : w.resume a = some next) :
    Exchange (w.call data, a) w.file.toList (next.elim (fun w => w.file.toList) fun _ => 0) := by
  cases w <;> cases a <;> simp only [WritePc.resume, Option.some.injEq, reduceCtorEq] at h <;>
    subst h <;>
    constructor <;>
    simp [WritePc.call, WritePc.file, tableUse, lostBy, Closable, track]

theorem Exchange.kept {e : Call × Answer} {held : Multiset Nat} (huse : tableUse e = .other)
    (hlost : lostBy e = none) : Exchange e held held := by
  constructor <;> simp [huse, hlost, Closable, track]

theorem Exchange.opened {e : Call × Answer} {n : Nat} (huse : tableUse e = .opened n)
    (hlost : lostBy e = none) : Exchange e 0 {n} := by
  constructor <;> simp [huse, hlost, Closable, track]

theorem Exchange.closed {e : Call × Answer} {n : Nat} (huse : tableUse e = .closed n)
    (hlost : lostBy e = none) : Exchange e {n} 0 := by
  constructor <;> simp [huse, hlost, Closable, track]

/-- A thread that holds more. -/
theorem Exchange.add {e : Call × Answer} {before behind : Multiset Nat} (h : Exchange e before behind)
    (held : Multiset Nat) : Exchange e (held + before) (held + behind) where
  closable := h.closable.add held
  traded := by rw [track_add h.closable, h.traded, add_assoc]

theorem conn_exchange {c t : Conn} {e : Call × Answer} (h : c.step build e = some t)
    (hkilled : e.2 ≠ .killed) : Exchange e c.holds t.holds := by
  obtain ⟨call, a⟩ := e
  cases move_of_step h
  case writes c _ _ hw => exact (write_exchange _ hw).add {c.clientFd}
  case wrote c _ ok hw =>
    have hexchange := (write_exchange c.packet hw).add {c.clientFd}
    cases ok <;> exact hexchange
  case notPositioned c fd x y =>
    have hlost : Exchange (.ioctl fd x y, .failed) {fd} 0 := by
      constructor <;> simp [tableUse, lostBy, Closable, track]
    exact hlost.add {c.clientFd}
  case killed => exact absurd rfl hkilled
  case seekOpened c _ _ _ | opened c _ => exact (Exchange.opened rfl rfl).add {c.clientFd}
  case closed c _ _ _ => exact (Exchange.closed rfl rfl).add {c.clientFd}
  case closedUnsent c s _ _ => cases s <;> exact (Exchange.closed rfl rfl).add {c.clientFd}
  case closedClient => exact Exchange.closed rfl rfl
  case stored => split_ifs <;> exact .kept rfl rfl
  case dispatched => cases build <;> exact .kept rfl rfl
  case finished =>
    unfold Conn.finish
    split <;> exact .kept rfl rfl
  all_goals exact .kept rfl rfl

theorem stamp_exchange {s s' : Stamp} {a : Answer} (h : s.resume a = some s') :
    Exchange (s.call, a) s.holds s'.holds := by
  obtain ⟨pc, timeStr⟩ := s
  cases pc with
  | writing w =>
    obtain ⟨next, hnext, rfl⟩ := Option.map_eq_some_iff.mp h
    have hexchange := write_exchange timeStr hnext
    rcases next with w' | _ <;> exact hexchange
  | sleep | lock | unlock =>
    cases a <;> simp only [Stamp.resume, Option.some.injEq, reduceCtorEq] at h
    subst h
    exact .kept rfl rfl

/-- `main` hands the socket it has accepted over to the handler. -/
theorem main_exchange {w u : World σ} {a : Answer} (h : w.resumeMain build a = some u)
    (hstamp : w.main.starting = true → w.stamp = none) : Exchange (w.main.call, a) w.holds u.holds := by
  obtain ⟨os, mutex, clients, stamp, main, active, joined, exited⟩ := w
  cases main
  case sweep items =>
    cases items <;> cases a <;>
      simp only [World.resumeMain, Option.some.injEq, reduceCtorEq] at h
    case nil.done => exact h ▸ .kept rfl rfl
    case cons.done => split_ifs at h <;> cases h <;> exact .kept rfl rfl
  all_goals
    cases a <;> simp only [World.resumeMain, Option.some.injEq, reduceCtorEq] at h
  case clear.fd n | accept.fd n => exact h ▸ (Exchange.opened rfl rfl).add _
  case clearClose.done | clearClose.failed => exact h ▸ (Exchange.closed rfl rfl).add _
  case setup.done => cases build <;> subst h <;> exact .kept rfl rfl
  case createStamp.done =>
    obtain rfl : stamp = none := hstamp rfl
    exact h ▸ .kept rfl rfl
  case create.done fd =>
    subst h
    have hheld : (⟨os, mutex, clients, stamp, .create fd, active, joined, exited⟩ : World σ).holds =
        (⟨os, mutex, clients ++ [Conn.start fd], stamp, .insert clients.length, active, joined,
          exited⟩ : World σ).holds := by
      simp [World.holds, Conn.start, Conn.holds, Pc.file, MainPc.holds, add_right_comm]
    exact hheld ▸ .kept rfl rfl
  case joining.done =>
    split_ifs at h
    cases h
    exact .kept rfl rfl
  all_goals exact h ▸ .kept rfl rfl

variable {s : σ} {tr : List Event} {w : World σ}

theorem step_exchange {t : World σ} {e : Event} (h : w.step build os e = some t)
    (hstamp : w.main.starting = true → w.stamp = none) (hkilled : e.answer ≠ .killed) :
    Exchange (e.call, e.answer) w.holds t.holds := by
  obtain ⟨-, v, m, u, -, -, hu, rfl⟩ := World.step_eq_some.mp h
  obtain ⟨tid, call, a⟩ := e
  cases tid with
  | main =>
    obtain ⟨rfl, hres⟩ := World.thread_main.mp hu
    have hexchange : Exchange (w.main.call, a) w.holds u.holds := main_exchange hres hstamp
    exact hexchange
  | stamp =>
    obtain ⟨st, st', hst, rfl, hres, rfl⟩ := World.thread_stamp.mp hu
    have hexchange := (stamp_exchange hres).add ((w.clients.map Conn.holds).sum + w.main.holds)
    have hbefore : w.holds = (w.clients.map Conn.holds).sum + w.main.holds + st.holds := by
      rw [World.holds, hst, Option.elim_some, add_right_comm]
    have hbehind : (w.clients.map Conn.holds).sum + w.main.holds + st'.holds =
        (w.clients.map Conn.holds).sum + st'.holds + w.main.holds := add_right_comm _ _ _
    rw [hbehind, ← hbefore] at hexchange
    exact hexchange
  | client i =>
    obtain ⟨c, c', hc, hstep, rfl⟩ := World.thread_client.mp hu
    obtain ⟨rest, hsum, hset⟩ := sum_set Conn.holds hc c'
    have hexchange := (conn_exchange hstep hkilled).add (rest + (w.stamp.elim 0 Stamp.holds + w.main.holds))
    have hbefore : w.holds = rest + (w.stamp.elim 0 Stamp.holds + w.main.holds) + c.holds := by
      rw [World.holds, hsum]
      abel
    have hbehind : rest + (w.stamp.elim 0 Stamp.holds + w.main.holds) + c'.holds =
        ((w.clients.set i c').map Conn.holds).sum + w.stamp.elim 0 Stamp.holds + w.main.holds := by
      rw [hset]
      abel
    rw [← hbefore, hbehind] at hexchange
    exact hexchange

theorem write_killed (p : WritePc) : p.resume .killed = none := by
  cases p <;> rfl

/-- A signal comes only from a `send`. -/
theorem conn_killed {c t : Conn} {call : Call} (h : c.step build (call, .killed) = some t) :
    t.pc = .exiting ∧ ∃ data, call = .send data := by
  cases move_of_step h
  case killed rest => exact ⟨rfl, rest, rfl⟩
  case writes hw | wrote hw => simp [write_killed] at hw
  case hungUp ha | readEnds ha | closed ha | closedUnsent ha | closedClient ha =>
    rcases ha with ha | ha <;> cases ha

theorem killed_ends {t : World σ} {e : Event} (h : w.step build os e = some t)
    (hkilled : e.answer = .killed) : t.exited = true ∧ ∃ data, e.call = .send data := by
  obtain ⟨-, v, m, u, -, -, hu, rfl⟩ := World.step_eq_some.mp h
  obtain ⟨tid, call, a⟩ := e
  obtain rfl : a = .killed := hkilled
  cases tid with
  | main =>
    obtain ⟨-, hres⟩ := World.thread_main.mp hu
    cases hmain : w.main <;> simp [World.resumeMain, hmain] at hres
  | stamp =>
    obtain ⟨st, st', -, -, hres, -⟩ := World.thread_stamp.mp hu
    cases hpc : st.pc <;> simp [Stamp.resume, hpc, write_killed] at hres
  | client i =>
    obtain ⟨c, c', -, hstep, rfl⟩ := World.thread_client.mp hu
    obtain ⟨-, data, rfl⟩ := conn_killed hstep
    exact ⟨rfl, data, rfl⟩

theorem balanced_step {open₀ : Multiset Nat} {t : World σ} {e : Event}
    (h : w.step build os e = some t) (hstamp : w.main.starting = true → w.stamp = none)
    (hopen : descriptors open₀ (calls tr) = open₀ + w.holds + lost (calls tr)) :
    Closable (descriptors open₀ (calls tr)) (tableUse (e.call, e.answer)) ∧ (t.exited = false →
      descriptors open₀ (calls (tr ++ [e])) = open₀ + t.holds + lost (calls (tr ++ [e]))) := by
  by_cases hkilled : e.answer = .killed
  · obtain ⟨hexited, data, hcall⟩ := killed_ends h hkilled
    exact ⟨by simp [hcall, tableUse, Closable], by simp [hexited]⟩
  · obtain ⟨hclosable, htraded⟩ := (step_exchange h hstamp hkilled).add (open₀ + lost (calls tr))
    rw [add_right_comm] at hopen
    refine ⟨hopen ▸ hclosable, fun _ => ?_⟩
    rw [calls_concat, descriptors_concat, lost_concat, hopen, htraded]
    abel

/-- What is open is what the threads hold, and what failed commands have left behind. -/
theorem run_descriptors (open₀ : Multiset Nat)
    (h : run (World.step build os) (World.start build s) tr = some w) :
    (w.exited = false → descriptors open₀ (calls tr) = open₀ + w.holds + lost (calls tr)) ∧
      ∀ pre e, calls tr = pre ++ [e] → Closable (descriptors open₀ pre) (tableUse e) := by
  refine run_invariant (I := fun tr w => (w.exited = false →
      descriptors open₀ (calls tr) = open₀ + w.holds + lost (calls tr)) ∧
    ∀ pre e, calls tr = pre ++ [e] → Closable (descriptors open₀ pre) (tableUse e)) ?_ ?_ h
  · refine ⟨fun _ => ?_, fun pre e hcalls => by simp [calls] at hcalls⟩
    cases build <;> simp [World.holds, World.start, MainPc.holds, calls, lost, descriptors]
  · rintro es u e t hu ht ⟨hexact, -⟩
    have hopen := hexact (World.step_eq_some.mp ht).1
    obtain ⟨hclosable, hnext⟩ := balanced_step ht (run_stamp_recorded hu).1 hopen
    refine ⟨hnext, fun pre e' hsplit => ?_⟩
    rw [calls_concat] at hsplit
    obtain ⟨rfl, he⟩ := List.append_inj' hsplit rfl
    exact List.singleton_inj.mp he ▸ hclosable

/-- One connection: its socket, its file and what its failed commands have left behind. -/
theorem conn_descriptors {fd : Nat} {tr : Trace} {c : Conn}
    (h : run (Conn.step build) (Conn.start fd) tr = some c) (hpc : c.pc.phase ≠ .leaving) :
    descriptors {fd} tr = c.holds + lost tr := by
  revert hpc
  refine run_invariant (I := fun tr c => c.pc.phase ≠ .leaving →
    descriptors {fd} tr = c.holds + lost tr) (fun _ => rfl) ?_ h
  intro es u e t _ ht ih hpc
  have hbefore : u.pc.phase ≠ .leaving := fun hu => hpc (leaving_step hu ht).2
  have hkilled : e.2 ≠ .killed := by
    obtain ⟨call, a⟩ := e
    rintro rfl
    rw [(conn_killed ht).1] at hpc
    exact hpc rfl
  obtain ⟨hclosable, htraded⟩ := conn_exchange ht hkilled
  rw [descriptors_concat, lost_concat, ih hbefore, add_comm, track_add hclosable, htraded]
  abel

theorem lost_eq_zero {tr : Trace} : lost tr = 0 ↔ ∀ e ∈ tr, lostBy e = none := by
  simp [lost, Multiset.coe_eq_zero, List.filterMap_eq_nil_iff]

theorem lost_project {tr : List Event} (h : lost (calls tr) = 0) (tid : Tid) :
    lost (project tid tr) = 0 := by
  rw [lost_eq_zero] at h ⊢
  intro e he
  obtain ⟨e', he', rfl⟩ := List.mem_map.mp he
  exact h _ (List.mem_map.mpr ⟨e', List.mem_of_mem_filter he', rfl⟩)

theorem lostBy_eq_none {e : Call × Answer} :
    lostBy e = none ↔ ∀ fd x y, ¬ (e.1 = .ioctl fd x y ∧ e.2 = .failed) := by
  obtain ⟨call, a⟩ := e
  cases call <;> cases a <;> simp [lostBy]

theorem card_file (file : Option Nat) : (file.toList : Multiset Nat).card ≤ 1 := by
  cases file <;> simp

/-- No descriptor in the hands of the threads is one too many: `main` and the timestamp thread
have one at most, a connection has two until it ends. -/
theorem card_holds (w : World σ) : w.holds.card ≤ 2 + 2 * w.clients.countP (·.pc ≠ .returned) := by
  have hclients : ∀ l : List Conn, ((l.map Conn.holds).sum).card ≤ 2 * l.countP (·.pc ≠ .returned) := by
    intro l
    induction l with
    | nil => simp
    | cons c l ih =>
      have hc : c.holds.card ≤ if c.pc ≠ .returned then 2 else 0 := by
        have hfile := card_file c.pc.file
        unfold Conn.holds
        split <;> simp_all
      rw [List.map_cons, List.sum_cons, Multiset.card_add, List.countP_cons]
      split_ifs at hc ⊢ <;> simp_all
      omega
  have hmain : w.main.holds.card ≤ 1 := by
    cases w.main <;> simp [MainPc.holds]
  have hstamp : (w.stamp.elim 0 Stamp.holds).card ≤ 1 := by
    cases w.stamp with
    | none => simp
    | some st =>
      cases hpc : st.pc <;> simp [Stamp.holds, hpc]
  have := hclients w.clients
  simp only [World.holds, Multiset.card_add]
  omega

/-- A refused command is not the end. -/
theorem refused_going {t : World σ} {e : Event} (h : w.step build os e = some t) {fd x y : Nat}
    (hcall : e.call = .ioctl fd x y) (hfail : e.answer = .failed) : t.exited = false := by
  obtain ⟨-, v, m, u, -, -, hu, rfl⟩ := World.step_eq_some.mp h
  obtain ⟨tid, call, a⟩ := e
  obtain rfl : call = .ioctl fd x y := hcall
  obtain rfl : a = .failed := hfail
  cases tid with
  | main => cases hmain : w.main <;> simp [World.thread, MainPc.call, hmain] at hu
  | stamp =>
    obtain ⟨st, st', -, hcall, -⟩ := World.thread_stamp.mp hu
    cases hpc : st.pc <;> simp [Stamp.call, hpc] at hcall
    case writing p => cases p <;> cases hcall
  | client i =>
    obtain ⟨c, c', -, -, rfl⟩ := World.thread_client.mp hu
    rfl

/-- However the system answers: in every state of a run the open descriptors are those the threads
hold if and only if no command was refused by the device. -/
theorem descriptors_balanced_iff (build : Build) (os : Os σ) (s : σ) (open₀ : Finset Nat)
    (tr : List Event) (w : World σ) (h : run (World.step build os) (World.start build s) tr = some w)
    (hfresh : Fresh open₀.val ((calls tr).map tableUse)) :
    (∀ pre u, pre <+: tr → run (World.step build os) (World.start build s) pre = some u →
        BalancedDescriptors open₀ pre u) ↔
      ∀ e ∈ tr, ∀ fd x y, ¬ (e.call = .ioctl fd x y ∧ e.answer = .failed) := by
  constructor
  · intro hall e he fd x y hfail
    obtain ⟨pre, post, rfl⟩ := List.append_of_mem he
    have hpre : pre ++ [e] <+: pre ++ e :: post := ⟨post, by simp⟩
    obtain ⟨u, hu⟩ := run_prefix h hpre
    have hgoing : u.exited = false := by
      obtain ⟨v, -, hv⟩ := run_concat_eq_some.mp hu
      exact refused_going hv hfail.1 hfail.2
    have hexact := (hall _ u hpre hu).exact hgoing
    rw [(run_descriptors _ hu).1 hgoing] at hexact
    have hnone : lost (calls (pre ++ [e])) = 0 := by simpa using hexact
    rw [lost_eq_zero] at hnone
    exact lostBy_eq_none.mp (hnone (e.call, e.answer) (by simp)) fd x y hfail
  · intro hnone pre u hpre hu
    obtain ⟨post, rfl⟩ := hpre
    have hlost : lost (calls pre) = 0 := lost_eq_zero.mpr fun e he => by
      obtain ⟨e', he', rfl⟩ := List.mem_map.mp he
      exact lostBy_eq_none.mpr (hnone e' (List.mem_append_left _ he'))
    have hfresh' : Fresh open₀.val ((calls pre).map tableUse) := by
      rw [calls, List.map_append, List.map_append] at hfresh
      exact fresh_append hfresh
    obtain ⟨hexact, hclosed⟩ := run_descriptors open₀.val hu
    have hexact' : u.exited = false → descriptors open₀.val (calls pre) = open₀.val + u.holds :=
      fun hgoing => by rw [hexact hgoing, hlost, add_zero]
    have hconn : ∀ i c, u.clients[i]? = some c → c.pc.phase ≠ .leaving →
        descriptors {c.clientFd} (project (.client i) pre) = c.holds := fun i c hc hpc => by
      rw [conn_descriptors ((run_project hu i).2 c hc) hpc, lost_project hlost, add_zero]
    refine ⟨hexact', table_nodup open₀.nodup hfresh', hclosed, fun i c hc hpc => ?_,
      fun i c hc hpc => ?_, fun hgoing => ?_⟩
    · rw [hconn i c hc (by simp [hpc])]
      cases hq : c.pc <;> simp [hq, Pc.phase] at hpc <;> simp [Conn.holds, hq, Pc.file]
    · rw [hconn i c hc (by simp [hpc, Pc.phase])]
      simp [Conn.holds, hpc]
    · have := card_holds u
      rw [hexact' hgoing, Multiset.card_add, Finset.card_val]
      omega

theorem descriptors_balanced_served : ∃ w,
    run (World.step .driver anyAnswer) (World.start .driver ()) twoServed = some w ∧
      BalancedDescriptors {0, 1, 2, 3} twoServed w := by
  obtain ⟨w, hw⟩ := Option.isSome_iff_exists.mp (show
    (run (World.step .driver anyAnswer) (World.start .driver ()) twoServed).isSome = true by
      decide +kernel)
  refine ⟨w, hw, (descriptors_balanced_iff .driver anyAnswer () {0, 1, 2, 3} twoServed w hw
    (by decide +kernel)).2 ?_ _ _ List.prefix_rfl hw⟩
  have hnone : ∀ e ∈ twoServed, lostBy (e.call, e.answer) = none := by decide +kernel
  exact fun e he => lostBy_eq_none.mp (hnone e he)

/-- The device refuses a command, and its file stays open. -/
def refusedCommand : List Event :=
  connectedDevice ++ byClient 0 (lineIn (seekPrefix ++ [48, 44, 48, 10]) ++
    ([(.lock (seekPrefix ++ [48, 44, 48, 10]), .done), (.openFile .readWrite, .fd 5),
      (.ioctl 5 0 0, .failed), (.unlock, .done)] : Trace))

theorem refused_command_leaks : ¬ ∀ (build : Build) (os : Os Unit) (s : Unit) (open₀ : Finset Nat)
    (tr : List Event) (w : World Unit), run (World.step build os) (World.start build s) tr = some w →
      Fresh open₀.val ((calls tr).map tableUse) → BalancedDescriptors open₀ tr w := by
  intro hall
  obtain ⟨w, hw, hview⟩ := Option.map_eq_some_iff.mp (show
    (run (World.step .driver anyAnswer) (World.start .driver ()) refusedCommand).map
      (fun w => (w.clients[0]?).map fun c => (c.clientFd, c.pc.phase)) = some (some (4, .gathering)) by
    decide +kernel)
  obtain ⟨c, hc, hview⟩ := Option.map_eq_some_iff.mp hview
  obtain ⟨hfd, hphase⟩ := Prod.mk.inj hview
  have hbalanced := hall .driver anyAnswer () {0, 1, 2} refusedCommand w hw (by decide +kernel)
  have hbetween := hbalanced.between 0 c hc hphase
  rw [hfd] at hbetween
  exact absurd hbetween (by decide +kernel)

end Aesd.Server
