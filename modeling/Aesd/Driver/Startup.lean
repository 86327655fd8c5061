import Aesd.Driver.Stream
import Aesd.Lib.PartialRun

/-!
# Loading the module

`cdev_add` makes the device live before `aesd_init_module` has set it up. The
statements behind it take no lock, and calls of user programs may come between
any two of them. The log keeps every call that has done its work, with the
session it found.
-/
namespace Aesd.Startup

open BlockHeap BlockHeap.Heap Kernel CircularBuffer CharDevice WriteEffect Ownership Position Pending
open Aesd.Stream Segments CyclicSlots PartialRun

/-- The next statement of `aesd_init_module` behind `aesd_setup_cdev`, by what it sets. -/
inductive InitPc where
  | lock | buffer | bufferSize | circBuffer | workingEntry | workingSize | finished
  deriving DecidableEq, Repr

/-- `a` answers the one allocation, whose result is not checked. -/
def InitPc.exec (a : Alloc) (s : State) : InitPc → State
  | .lock => initLock s
  | .buffer =>
    let (p, h) := kmalloc a aesdBufferSize s.heap
    ⟨h, { s.dev with buffer := p }⟩
  | .bufferSize => { s with dev := { s.dev with bufferSize := 0 } }
  | .circBuffer => initCircBuffer s
  | .workingEntry => { s with dev := { s.dev with workingEntry := .null } }
  | .workingSize => { s with dev := { s.dev with workingSize := 0 } }
  | .finished => s

def InitPc.next : InitPc → InitPc
  | .lock => .buffer
  | .buffer => .bufferSize
  | .bufferSize => .circBuffer
  | .circBuffer => .workingEntry
  | .workingEntry => .workingSize
  | .workingSize | .finished => .finished

/-- The call reaches `mutex_lock_interruptible` and is not interrupted there. -/
def takesLock : Op → Bool
  | .write _ env _ => !env.interrupted
  | .read _ interrupted _ _ => !interrupted
  | .llseek _ interrupted _ _ => !interrupted
  | .ioctl _ copyFails interrupted cmd writeCmd _ =>
    cmd == aesdcharIocSeekTo && !copyFails && writeCmd < maxWriteOperationsSupported && !interrupted

/-- A call that has passed `mutex_lock_interruptible` and has not yet unlocked. -/
structure Call where
  op : Op
  worked : Bool

/-- The session as a call finds it that holds the lock. -/
def found (x : Session) : Session := { x with state := mutexUnlock x.state }

/-- What the call does between its lock and its unlock; the lock is left as it is. -/
def work (x : Session) (op : Op) : Session :=
  let y := (found x).apply op
  { y with state := { y.state with dev := { y.state.dev with lock := x.state.dev.lock } } }

structure Boot where
  session : Session
  pc : InitPc
  inside : List Call
  log : List (Session × Op)

inductive Event where
  | init (a : Alloc)
  | opens (file : Nat)
  | enter (op : Op)
  | work (k : Nat)
  | leave (k : Nat)

/-- A call that is turned away before it has the lock does nothing. -/
def step (b : Boot) : Event → Option Boot
  | .init a =>
    if b.pc = .finished then none
    else some { b with
      session := { b.session with state := b.pc.exec a b.session.state }, pc := b.pc.next }
  | .opens file =>
    some { b with session := { b.session with fPos := Function.update b.session.fPos file 0 } }
  | .enter op =>
    if takesLock op = false then some b
    else if b.session.state.dev.lock then none
    else some { b with
      session := { b.session with state := (mutexLockInterruptible false b.session.state).2 },
      inside := b.inside ++ [⟨op, false⟩] }
  | .work k =>
    match b.inside[k]? with
    | some ⟨op, false⟩ =>
      some { b with
        session := work b.session op, inside := b.inside.set k ⟨op, true⟩,
        log := b.log ++ [(found b.session, op)] }
    | _ => none
  | .leave k =>
    match b.inside[k]? with
    | some ⟨_, true⟩ =>
      some { b with
        session := { b.session with state := mutexUnlock b.session.state },
        inside := b.inside.eraseIdx k }
    | _ => none

/-- `cdev_add` has just returned, on the device the `memset` has cleared. -/
def live (dev : AesdDev) : Boot :=
  ⟨⟨clearDevice ⟨Heap.empty, dev⟩, fun _ => 0⟩, .lock, [], []⟩

/-- The commands the logged calls stored. -/
def committed (log : List (Session × Op)) : List (List (Cell UInt8)) :=
  log.flatMap fun (x, op) => x.added op

/-- The bytes of the logged writes that returned success. -/
def accepted (log : List (Session × Op)) : List UInt8 :=
  log.flatMap fun (x, op) => x.accepted op

/-- The pending bytes as the last logged write left them. -/
def leftPending (log : List (Session × Op)) : List (Cell UInt8) :=
  log.foldl (fun left (x, op) => match op with
    | .write .. => pending (x.apply op).state
    | _ => left) []

/-- The loop of the call, if it is a write, gets the memory it asks for. -/
def OpGranted : Op → Prop
  | .write _ env _ => LoopGranted env
  | _ => True

/-- Nothing a call stored has been lost but the commands older than the newest ten. -/
structure Kept (b : Boot) : Prop where
  lines : ∀ entry ∈ committed b.log, IsLine newline (entry.map Cell.val)
  commands : contents b.session.state = (committed b.log).rtake 10
  left : pending b.session.state = leftPending b.log
  conserved : (∀ e ∈ b.log, OpGranted e.2) →
    (committed b.log).flatten ++ pending b.session.state = writtenCells (accepted b.log)

/-- What the next statement of `aesd_init_module` overwrites is as it leaves it. -/
def Spared (b : Boot) : Prop :=
  match b.pc with
  | .lock => b.session.state.dev.lock = false
  | .circBuffer => contents b.session.state = []
  | .workingEntry | .workingSize => pending b.session.state = []
  | .buffer | .bufferSize | .finished => True

/-- From the moment the device is live nothing is lost, and no call holds the lock when
`mutex_init` runs. -/
structure NothingLost (dev : AesdDev) (tr : List Event) : Prop where
  kept : ∀ pre b, pre <+: tr → run step (live dev) pre = some b → Kept b
  lock : ∀ pre a b, pre ++ [.init a] <+: tr → run step (live dev) pre = some b → b.pc = .lock →
    b.inside = []

def Undisturbed (dev : AesdDev) (tr : List Event) : Prop :=
  ∀ pre a b, pre ++ [.init a] <+: tr → run step (live dev) pre = some b → Spared b

/-- With no call in between the statements are `aesd_init_module`. -/
theorem run_init (dev : AesdDev) (a : Alloc) :
    run step (live dev) (List.replicate 6 (.init a)) =
      some ⟨Session.start a dev, .finished, [], []⟩ := by
  cases h : a.granted <;>
    simp [run_cons, List.replicate, step, live, InitPc.exec, InitPc.next, Session.start,
      aesdInitModule, initBuffer, initWorkingEntry, kmalloc, h, aesdBufferSize, initLock,
      initCircBuffer]

variable {x : Session}

theorem contents_apply (hs : Sound x.state) (op : Op) :
    contents (x.apply op).state = (contents x.state ++ x.added op).rtake 10 := by
  rw [apply_state hs]
  cases op with
  | write _ env buf => exact hs.contents_write (aesdWrite_effect env buf hs.releasable)
  | read | llseek | ioctl =>
    simp [Session.added, List.rtake, Nat.sub_eq_zero_of_le hs.contents_length]

theorem isLine_of_mem_added (hs : Sound x.state) {op : Op} {entry : List (Cell UInt8)}
    (he : entry ∈ x.added op) : IsLine newline (entry.map Cell.val) := by
  cases op with
  | write _ env buf => exact isLine_added (aesdWrite_effect env buf hs.releasable) he
  | read | llseek | ioctl => cases he

theorem not_loses_of_granted {op : Op} (hg : OpGranted op) : ¬ Loses x op := by
  cases op with
  | write _ env buf => exact not_loses_granted hg buf _
  | read | llseek | ioctl => exact not_false

theorem conserved_apply (hs : Sound x.state) (hr : Represented x.state) {op : Op}
    (hg : OpGranted op) : (x.added op).flatten ++ pending (x.apply op).state =
      pending x.state ++ writtenCells (x.accepted op) := by
  have hr' := represented_apply hs hr (not_loses_of_granted hg)
  rw [pending_eq hs hr, pending_eq (apply_sound hs op) hr', apply_state hs]
  cases op with
  | write _ env buf => exact conserved_write hs hr hg (aesdWrite_effect env buf hs.releasable)
  | read | llseek | ioctl => simp [Session.added, Session.accepted, writtenCells]

/-- What a call leaves, but for the lock. -/
theorem unlock_work {x : Session} (hs : Sound (found x).state) (op : Op) :
    mutexUnlock (work x op).state = ((found x).apply op).state := by
  have hfree := (apply_sound hs op).lock_free
  simp only [work, mutexUnlock, ← hfree]

section Statements

variable {s : State}

/-- A statement that loses nothing. -/
structure Carried (s t : State) : Prop where
  sound : Sound t
  contents_eq : contents t = contents s
  pending_eq : pending t = pending s
  represented : Represented s → Represented t

theorem workingEntry_of_nothing_pending (hs : Sound s) (hp : pending s = []) (b : Nat) :
    s.dev.workingEntry ≠ .block b := by
  intro hb
  obtain ⟨cs, hcs, hlen, hne⟩ := hs.working b hb
  apply hne
  rwa [pending, load, hb, cells_block hcs, List.drop_zero, ← hlen, List.take_length] at hp

theorem nodup_behind_buffer (hs : Sound s) :
    (ptrBlocks s.dev.workingEntry ++ slotBlocks s.dev.circBuffer).Nodup := by
  have hnd := hs.nodup
  rw [owned, List.append_assoc] at hnd
  exact hnd.of_append_right

theorem carried_buffer (hs : Sound s) (a : Alloc) : Carried s (InitPc.exec a s .buffer) := by
  have hsize : aesdBufferSize ≠ 0 := by decide
  have hrest := nodup_behind_buffer hs
  cases ha : a.granted with
  | false =>
    simp only [InitPc.exec, kmalloc_refused hsize ha]
    refine ⟨⟨hs.lock_free, hs.ring, hs.slot, hs.working, ?_, hrest, hs.faults⟩, rfl, rfl, id⟩
    intro b hb
    cases hb
  | true =>
    simp only [InitPc.exec, kmalloc_granted hsize ha]
    generalize junkCells a.junk 0 aesdBufferSize = cs
    have hkept : ∀ n ∈ owned s, (s.heap.alloc cs).block n = s.heap.block n := by
      intro n hn
      have := hs.lt_of_mem_owned hn
      rw [block_alloc, Function.update_of_ne (by omega)]
    have hslot : ∀ e ∈ occupied s.dev.circBuffer, GoodEntry (s.heap.alloc cs) e ∧
        entryCells (s.heap.alloc cs) e = entryCells s.heap e := fun e he =>
      (hs.slot e he).congr fun n hn =>
        hkept n (mem_owned.mpr (Or.inr (Or.inr (mem_slotBlocks.mpr ⟨e, he, hn⟩))))
    have hworking : ∀ n, s.dev.workingEntry = .block n →
        (s.heap.alloc cs).block n = s.heap.block n :=
      fun n hn => hkept n (mem_owned.mpr (Or.inr (Or.inl hn)))
    have hcells : (s.heap.alloc cs).cells s.dev.workingEntry = s.heap.cells s.dev.workingEntry := by
      cases hw : s.dev.workingEntry with
      | null | emptyToken => rfl
      | block n => simp only [cells, hworking n hw]
    constructor
    case contents_eq => exact List.map_congr_left fun e he => (hslot e he).2
    case pending_eq => simp only [pending, load, hcells]
    case represented =>
      rintro (hzero | ⟨n, cells, hn, hcells⟩)
      · exact Or.inl hzero
      · exact Or.inr ⟨n, cells, hn, by rw [hworking n hn]; exact hcells⟩
    case sound =>
      refine ⟨hs.lock_free, hs.ring, fun e he => (hslot e he).1, ?_, ?_, ?_, hs.faults⟩
      · intro n hn
        rw [hworking n hn]
        exact hs.working n hn
      · intro n hn
        cases hn
        exact ⟨cs, by rw [block_alloc, Function.update_self]⟩
      · rw [owned, List.append_assoc]
        refine List.nodup_cons.mpr ⟨fun hmem => ?_, hrest⟩
        have hmem : s.heap.next ∈ owned s := by
          rw [owned, List.append_assoc]
          exact List.mem_append_right _ hmem
        have := hs.lt_of_mem_owned hmem
        omega

theorem carried_circBuffer (hs : Sound s) (hc : contents s = []) :
    Carried s (initCircBuffer s) := by
  have hring := init_holds s.dev.circBuffer
  have hempty : occupied (aesdCircularBufferInit s.dev.circBuffer) = [] := hring.occupied_eq
  constructor
  case contents_eq =>
    rw [hc]
    simp [contents, initCircBuffer, hempty]
  case pending_eq => rfl
  case represented => exact id
  case sound =>
    refine ⟨hs.lock_free, ⟨[], hring⟩, ?_, hs.working, hs.buffer, ?_, hs.faults⟩
    · simp [initCircBuffer, hempty]
    · refine hs.nodup.sublist ?_
      simp [owned, initCircBuffer, slotBlocks, hempty]

theorem carried_workingEntry (hs : Sound s) (a : Alloc) (hp : pending s = []) :
    Carried s (InitPc.exec a s .workingEntry) := by
  constructor
  case contents_eq => rfl
  case pending_eq =>
    rw [hp]
    simp [pending, InitPc.exec, load, cells]
  case represented =>
    rintro (hzero | ⟨b, _, hb, -⟩)
    · exact Or.inl hzero
    · exact absurd hb (workingEntry_of_nothing_pending hs hp b)
  case sound =>
    refine ⟨hs.lock_free, hs.ring, hs.slot, fun b hb => ?_, hs.buffer, ?_, hs.faults⟩
    · cases hb
    · refine hs.nodup.sublist ?_
      simp [owned, InitPc.exec, ptrBlocks]

theorem carried_workingSize (hs : Sound s) (a : Alloc) (hp : pending s = []) :
    Carried s (InitPc.exec a s .workingSize) := by
  constructor
  case contents_eq => rfl
  case pending_eq =>
    rw [hp]
    simp [pending, InitPc.exec, load]
  case represented => exact fun _ => Or.inl rfl
  case sound =>
    exact ⟨hs.lock_free, hs.ring, hs.slot,
      fun b hb => absurd hb (workingEntry_of_nothing_pending hs hp b), hs.buffer, hs.nodup, hs.faults⟩

/-- A statement does the same whether or not the lock is held. -/
theorem unlock_exec (a : Alloc) (s : State) (pc : InitPc) :
    mutexUnlock (pc.exec a s) = pc.exec a (mutexUnlock s) := by
  cases pc with
  | buffer =>
    simp only [InitPc.exec, mutexUnlock]
  | lock | bufferSize | circBuffer | workingEntry | workingSize | finished => rfl

theorem lock_exec (a : Alloc) (s : State) {pc : InitPc} (hpc : pc ≠ .lock) :
    (pc.exec a s).dev.lock = s.dev.lock := by
  cases pc with
  | lock => exact absurd rfl hpc
  | buffer | bufferSize | circBuffer | workingEntry | workingSize | finished => rfl

end Statements

/-- What holds as long as no statement overwrites anything; the lock keeps the calls apart. -/
structure Inv (b : Boot) : Prop where
  sound : Sound (found b.session).state
  lock : (b.inside = [] ∧ b.session.state.dev.lock = false) ∨
    ∃ c, b.inside = [c] ∧ b.session.state.dev.lock = true
  represented : (∀ e ∈ b.log, OpGranted e.2) → Represented b.session.state
  kept : Kept b

variable {b t : Boot}

theorem live_inv (dev : AesdDev) : Inv (live dev) := by
  have hs := start_sound refuse dev
  have hc := (start_showsStream refuse dev).1
  rw [start_state] at hs hc
  constructor
  case sound => exact hs
  case lock => exact Or.inl ⟨rfl, rfl⟩
  case represented => exact fun _ => Or.inl rfl
  case kept =>
    exact ⟨by simp [live, committed], hc, rfl, fun _ => rfl⟩

/-- What is kept depends on the log, the stored commands and the pending bytes. -/
theorem Kept.congr (hk : Kept b) (hlog : t.log = b.log)
    (hcontents : contents t.session.state = contents b.session.state)
    (hpending : pending t.session.state = pending b.session.state) : Kept t where
  lines := by simpa only [hlog] using hk.lines
  commands := by rw [hcontents, hlog, hk.commands]
  left := by rw [hpending, hlog, hk.left]
  conserved := by
    rw [hpending, hlog]
    exact hk.conserved

theorem carried_init (hi : Inv b) (hsp : Spared b) (a : Alloc) :
    Carried (found b.session).state (b.pc.exec a (found b.session).state) := by
  have hs := hi.sound
  unfold Spared at hsp
  cases hpc : b.pc with
  | lock | finished => exact ⟨hs, rfl, rfl, id⟩
  | bufferSize =>
    exact ⟨⟨hs.lock_free, hs.ring, hs.slot, hs.working, hs.buffer, hs.nodup, hs.faults⟩, rfl, rfl, id⟩
  | buffer => exact carried_buffer hs a
  | circBuffer =>
    rw [hpc] at hsp
    exact carried_circBuffer hs hsp
  | workingEntry =>
    rw [hpc] at hsp
    exact carried_workingEntry hs a hsp
  | workingSize =>
    rw [hpc] at hsp
    exact carried_workingSize hs a hsp

theorem inv_init (hi : Inv b) (hsp : Spared b) {a : Alloc} (h : step b (.init a) = some t) :
    Inv t := by
  have hc := carried_init hi hsp a
  rw [found, ← unlock_exec] at hc
  simp only [step] at h
  split_ifs at h
  cases h
  constructor
  case sound => exact hc.sound
  case lock =>
    by_cases hpc : b.pc = .lock
    · have hfree : b.session.state.dev.lock = false := by simpa only [Spared, hpc] using hsp
      rcases hi.lock with ⟨hnone, -⟩ | ⟨-, -, hheld⟩
      · exact Or.inl ⟨hnone, by simp only [hpc]; rfl⟩
      · simp [hfree] at hheld
    · simpa only [lock_exec a _ hpc] using hi.lock
  case represented => exact fun hg => hc.represented (hi.represented hg)
  case kept => exact hi.kept.congr rfl hc.contents_eq hc.pending_eq

/-- A call that is inside is the only one. -/
theorem Inv.alone (hi : Inv b) {k : Nat} {c : Call} (hk : b.inside[k]? = some c) :
    k = 0 ∧ b.inside = [c] ∧ b.session.state.dev.lock = true := by
  rcases hi.lock with ⟨hnone, -⟩ | ⟨c', hone, hheld⟩
  · simp [hnone] at hk
  · have hlt := (List.getElem?_eq_some_iff.mp hk).1
    rw [hone, List.length_singleton] at hlt
    obtain rfl : k = 0 := by omega
    rw [hone, List.getElem?_cons_zero, Option.some.injEq] at hk
    exact ⟨rfl, by rw [hone, hk], hheld⟩

theorem inv_enter (hi : Inv b) {op : Op} (h : step b (.enter op) = some t) : Inv t := by
  simp only [step] at h
  split_ifs at h with htakes hlock
  · cases h
    exact hi
  · cases h
    refine ⟨hi.sound, Or.inr ⟨⟨op, false⟩, ?_, rfl⟩, hi.represented, hi.kept.congr rfl rfl rfl⟩
    rcases hi.lock with ⟨hnone, -⟩ | ⟨-, -, hheld⟩
    · simp [hnone]
    · exact absurd hheld hlock

theorem inv_leave (hi : Inv b) {k : Nat} (h : step b (.leave k) = some t) : Inv t := by
  simp only [step] at h
  split at h
  · cases h
    rename_i hk
    refine ⟨hi.sound, Or.inl ⟨?_, rfl⟩, hi.represented, hi.kept.congr rfl rfl rfl⟩
    obtain ⟨rfl, hone, -⟩ := hi.alone hk
    simp [hone]
  · cases h

theorem kept_work (hi : Inv b) (op : Op) (inside : List Call) :
    Kept { b with
      session := work b.session op, inside := inside, log := b.log ++ [(found b.session, op)] } := by
  have hs := hi.sound
  have hcontents : contents (work b.session op).state =
      (contents b.session.state ++ (found b.session).added op).rtake 10 := contents_apply hs op
  have hlog : committed (b.log ++ [(found b.session, op)]) =
      committed b.log ++ (found b.session).added op := by
    simp [committed]
  constructor
  case lines =>
    intro entry he
    rw [hlog] at he
    exact (List.mem_append.mp he).elim (hi.kept.lines entry) (isLine_of_mem_added hs)
  case commands => rw [hcontents, hi.kept.commands, rtake_rtake_append, hlog]
  case left =>
    have hstate := apply_state hs op
    simp only [leftPending, List.foldl_append, List.foldl_cons, List.foldl_nil]
    cases op with
    | write => rfl
    | read | llseek | ioctl => exact (congrArg pending hstate).trans hi.kept.left
  case conserved =>
    intro hg
    have hlogged : ∀ e ∈ b.log, OpGranted e.2 := fun e he => hg e (List.mem_append_left _ he)
    have hop : OpGranted op := hg (found b.session, op) (by simp)
    have hstep : _ ++ pending (work b.session op).state = pending b.session.state ++ _ :=
      conserved_apply hs (hi.represented hlogged) hop
    rw [hlog, List.flatten_append, List.append_assoc, hstep, ← List.append_assoc,
      hi.kept.conserved hlogged, ← writtenCells_append]
    simp [accepted]

theorem inv_work (hi : Inv b) {k : Nat} (h : step b (.work k) = some t) : Inv t := by
  simp only [step] at h
  split at h
  · cases h
    rename_i op hk
    have hs := hi.sound
    have hnext := apply_sound hs op
    obtain ⟨rfl, hone, hheld⟩ := hi.alone hk
    constructor
    case sound =>
      rw [← unlock_work hs op] at hnext
      exact hnext
    case lock => exact Or.inr ⟨⟨op, true⟩, by simp [hone], hheld⟩
    case represented =>
      intro hg
      have hlogged := hi.represented fun e he => hg e (List.mem_append_left _ he)
      exact represented_apply hs hlogged
        (not_loses_of_granted (hg (found b.session, op) (by simp)))
    case kept => exact kept_work hi op _
  · cases h

theorem inv_step {e : Event} (hi : Inv b) (hsp : ∀ a, e = .init a → Spared b)
    (h : step b e = some t) : Inv t := by
  cases e with
  | init a => exact inv_init hi (hsp a rfl) h
  | enter => exact inv_enter hi h
  | work => exact inv_work hi h
  | leave => exact inv_leave hi h
  | opens =>
    cases h
    exact ⟨hi.sound, hi.lock, hi.represented, hi.kept.congr rfl rfl rfl⟩

theorem run_inv {dev : AesdDev} {tr : List Event} (hu : Undisturbed dev tr)
    (h : run step (live dev) tr = some b) : Inv b := by
  induction tr using List.reverseRecOn generalizing b with
  | nil =>
    cases h
    exact live_inv dev
  | append_singleton tr e ih =>
    obtain ⟨u, hrun, hstep⟩ := run_concat_eq_some.mp h
    have hu' : Undisturbed dev tr := fun pre a s hp => hu pre a s (hp.trans (List.prefix_append _ _))
    exact inv_step (ih hu' hrun) (fun a he => hu tr a u (by rw [he]) hrun) hstep

/-- Whoever has set the lock is inside. -/
theorem lock_held {dev : AesdDev} {tr : List Event} (h : run step (live dev) tr = some b) :
    b.session.state.dev.lock = true → b.inside ≠ [] := by
  induction tr using List.reverseRecOn generalizing b with
  | nil =>
    cases h
    intro hheld
    cases hheld
  | append_singleton tr e ih =>
    obtain ⟨u, hrun, hstep⟩ := run_concat_eq_some.mp h
    have hbefore := ih hrun
    intro hheld
    cases e with
    | init a =>
      simp only [step] at hstep
      split_ifs at hstep
      cases hstep
      by_cases hpc : u.pc = .lock
      · simp [hpc, InitPc.exec, initLock] at hheld
      · simp only [lock_exec a _ hpc] at hheld
        exact hbefore hheld
    | opens =>
      cases hstep
      exact hbefore hheld
    | enter op =>
      simp only [step] at hstep
      split_ifs at hstep
      · cases hstep
        exact hbefore hheld
      · cases hstep
        simp
    | work k =>
      simp only [step] at hstep
      split at hstep
      · cases hstep
        simpa using hbefore hheld
      · cases hstep
    | leave k =>
      simp only [step] at hstep
      split at hstep
      · cases hstep
        cases hheld
      · cases hstep

/-- Start-up loses nothing exactly when each statement finds what it overwrites as it leaves
it: the lock free, no command stored, and nothing pending. -/
theorem nothingLost_iff_undisturbed (dev : AesdDev) (tr : List Event) :
    NothingLost dev tr ↔ Undisturbed dev tr := by
  constructor
  · intro h pre a u hp hrun
    have hbefore := h.kept pre u ((List.prefix_append _ _).trans hp) hrun
    have hnext : u.pc ≠ .finished → Kept { u with
        session := { u.session with state := u.pc.exec a u.session.state }, pc := u.pc.next } := by
      intro hpc
      refine h.kept _ _ hp (run_concat_eq_some.mpr ⟨u, hrun, ?_⟩)
      simp only [step, if_neg hpc]
    unfold Spared
    cases hpc : u.pc with
    | lock =>
      have hnone := h.lock pre a u hp hrun hpc
      rw [← Bool.not_eq_true]
      exact fun hheld => lock_held hrun hheld hnone
    | circBuffer =>
      have hafter := (hnext (by simp [hpc])).commands
      rw [hbefore.commands, ← hafter]
      have hempty := (init_holds u.session.state.dev.circBuffer).occupied_eq
      simp [hpc, InitPc.exec, initCircBuffer, contents, hempty, List.rtake]
    | workingEntry =>
      have hafter := (hnext (by simp [hpc])).left
      rw [hbefore.left, ← hafter]
      simp [hpc, InitPc.exec, pending, load, cells]
    | workingSize =>
      have hafter := (hnext (by simp [hpc])).left
      rw [hbefore.left, ← hafter]
      simp [hpc, InitPc.exec, pending, load]
    | buffer | bufferSize | finished => trivial
  · intro hu
    have hinv : ∀ pre u, pre <+: tr → run step (live dev) pre = some u → Inv u :=
      fun pre u hp hrun => run_inv (fun pre' a s hp' => hu pre' a s (hp'.trans hp)) hrun
    refine ⟨fun pre u hp hrun => (hinv pre u hp hrun).kept, fun pre a u hp hrun hpc => ?_⟩
    have hfree := hu pre a u hp hrun
    simp only [Spared, hpc] at hfree
    rcases (hinv pre u ((List.prefix_append _ _).trans hp) hrun).lock with ⟨hnone, -⟩ | ⟨-, -, hheld⟩
    · exact hnone
    · simp [hfree] at hheld

/-- A whole write of `buf` to the device, before the module is set up. -/
def earlyWrite (buf : List UInt8) : List Event :=
  ([.enter (.write 0 fine buf), .work 0, .leave 0] : List Event) ++ List.replicate 6 (.init grant)

/-- A write right behind `cdev_add` loses its command, another one its pending bytes, and
`mutex_init` may run while a third one holds the lock. -/
theorem early_calls_lose :
    (¬ ∀ dev tr b, run step (live dev) tr = some b → b.pc = .finished →
      contents b.session.state = (committed b.log).rtake 10) ∧
    (¬ ∀ dev tr b, run step (live dev) tr = some b → b.pc = .finished →
      pending b.session.state = leftPending b.log) ∧
    ¬ ∀ dev pre a b t, run step (live dev) pre = some b → b.pc = .lock →
      step b (.init a) = some t → b.inside = [] := by
  refine ⟨fun h => ?_, fun h => ?_, fun h => ?_⟩
  · have hkept := h blank (earlyWrite [97, 10]) _ (Option.some_get (by decide)).symm (by decide)
    revert hkept
    decide
  · have hkept := h blank (earlyWrite [97]) _ (Option.some_get (by decide)).symm (by decide)
    revert hkept
    decide
  · have hnone := h blank [.enter (.write 0 fine [97])] grant _ _ rfl rfl rfl
    cases hnone

/-- Behind the initialisation of the ring a command stays. -/
example : (run step (live blank) (List.replicate 4 (.init grant) ++
    ([.enter (.write 0 fine [97, 10]), .work 0, .leave 0] : List Event) ++
    List.replicate 2 (.init grant))).map
      (fun b => contents b.session.state) = some [writtenCells [97, 10]] := by decide

end Aesd.Startup
