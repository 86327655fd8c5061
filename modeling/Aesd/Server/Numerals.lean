import Aesd.Driver.Seeking
import Aesd.Server.Sections

/-!
# The numbers of a seek command

From the decimal text through `sscanf` and the `ioctl` to the range checks of
the driver. A number of 2^32 or more reaches the driver as another one, and
whether that is rejected depends on what is stored.
-/
namespace Aesd.Server

open PartialRun CharDevice Ownership Position Kernel Seeking

/-- The command a handler is about to give, or waits for the mutex with. -/
def Pc.command : Pc → Option (Nat × Nat)
  | .lock seekto => seekto
  | .seekOpen x y | .seekIoctl _ x y => some (x, y)
  | _ => none

/-- The packet `X,Y` is a command, and the `ioctl` for it goes to the byte that it names or nowhere. -/
structure NumbersSurvive (X Y x y : Nat) (s : State) : Prop where
  carried : X < 2 ^ 32 → Y < 2 ^ 32 → x = X ∧ y = Y
  rejected : ¬ (X < 2 ^ 32 ∧ Y < 2 ^ 32) → ∀ copyFails interrupted fPos,
    (aesdIoctl copyFails interrupted aesdcharIocSeekTo x y fPos s).retval ≠ 0
  named : ∀ copyFails interrupted fPos,
    (aesdIoctl copyFails interrupted aesdcharIocSeekTo x y fPos s).retval = 0 → x = X ∧ y = Y

variable {c t : Conn} {e : Call × Answer} {tr : Trace}

/-- A command comes from the test of a packet, and is carried on unchanged or given up. -/
theorem command_step {build : Build} (h : c.step build e = some t) :
    t.pc.command = none ∨ (∃ past, t = c.dispatch build past) ∨
      t = { c with pc := t.pc } ∧ t.pc.command = c.pc.command := by
  obtain ⟨call, a⟩ := e
  cases move_of_step h
  case dispatched past => exact Or.inr (Or.inl ⟨past, rfl⟩)
  case lockedSeek | seekOpened => exact Or.inr (Or.inr ⟨rfl, rfl⟩)
  all_goals refine Or.inl ?_
  case stored =>
    simp only
    split_ifs <;> rfl
  case wrote ok _ => cases ok <;> rfl
  case finished =>
    unfold Conn.finish
    split <;> rfl
  case closedUnsent s _ _ => cases s <;> rfl
  all_goals rfl

/-- The command in a handler's hands was read from its packet, with whatever lies behind it. -/
theorem run_command {fd x y : Nat} (h : run (Conn.step .driver) (Conn.start fd) tr = some c)
    (hc : c.pc.command = some (x, y)) : ∃ past, seekCommand (c.packet ++ past) = some (x, y) := by
  revert hc
  refine run_invariant (I := fun _ c => c.pc.command = some (x, y) →
    ∃ past, seekCommand (c.packet ++ past) = some (x, y)) (by simp [Conn.start, Pc.command]) ?_ h
  intro es u e t _ ht ih hc
  rcases command_step ht with hnone | ⟨past, rfl⟩ | ⟨hkept, hsame⟩
  · simp [hnone] at hc
  · refine ⟨u.memory.drop u.packetLen ++ past, ?_⟩
    have hmem : u.packet ++ u.memory.drop u.packetLen = u.memory := List.take_append_drop _ _
    rw [← List.append_assoc]
    exact (congrArg (fun mem => seekCommand (mem ++ past)) hmem).trans hc
  · obtain ⟨past, hpast⟩ := ih (hsame ▸ hc)
    rw [hkept]
    exact ⟨past, hpast⟩

theorem accepted_plain {copyFails interrupted : Bool} {cmd x y : Nat} {fPos : Int} {s : State}
    (h : (aesdIoctl copyFails interrupted cmd x y fPos s).retval = 0) :
    copyFails = false ∧ interrupted = false := by
  cases copyFails <;> cases interrupted
  case false.false => exact ⟨rfl, rfl⟩
  all_goals
    unfold aesdIoctl at h
    split_ifs at h <;> simp_all [mutexLockInterruptible, eFault, eInval, eRestartSys, eNoTty]

theorem accepted_iff {s : State} (hs : Sound s) (x y : Nat) (fPos : Int) :
    (aesdIoctl false false aesdcharIocSeekTo x y fPos s).retval = 0 ↔ Names s.dev.circBuffer x y := by
  rw [aesdIoctl_eq hs, named_iff hs]
  split_ifs with hin <;> simp [hin, eInval]

/-- An exact text is never taken for data. On every device that calls of a program can lead to, its
command goes to the byte that the text names or is rejected, unless one of the numbers does not fit
32 bits and what is carried of them names a stored byte all the same. -/
theorem numbers_survive_iff {fd X Y : Nat} (h : run (Conn.step .driver) (Conn.start fd) tr = some c)
    (htext : IsSeekText c.packet X Y) :
    (∀ seekto, c.pc = .lock seekto → seekto = some (carried X, carried Y)) ∧
      ∀ fdIoctl x y, c.pc = .seekIoctl fdIoctl x y →
        ∀ (buffer : Kernel.Alloc) (dev : AesdDev) (ops : List Op),
          NumbersSurvive X Y x y ((Session.start buffer dev).run ops).state ↔
            (X < 2 ^ 32 ∧ Y < 2 ^ 32) ∨
              ¬ Names ((Session.start buffer dev).run ops).state.dev.circBuffer (carried X) (carried Y) := by
  constructor
  · intro seekto hpc
    obtain ⟨past, hpast⟩ := (run_dispatched h hpc).2 rfl
    rw [hpast, seekCommand_carried htext]
  · intro fdIoctl x y hpc buffer dev ops
    have hs : Sound ((Session.start buffer dev).run ops).state := run_sound (start_sound buffer dev) ops
    obtain ⟨past, hpast⟩ := run_command h (x := x) (y := y) (by rw [hpc]; rfl)
    rw [seekCommand_carried htext] at hpast
    obtain ⟨rfl, rfl⟩ := Prod.mk.inj (Option.some.inj hpast)
    constructor
    · rintro ⟨-, hrejected, -⟩
      by_cases hfit : X < 2 ^ 32 ∧ Y < 2 ^ 32
      · exact Or.inl hfit
      · exact Or.inr fun hnamed => hrejected hfit false false 0 ((accepted_iff hs _ _ 0).mpr hnamed)
    · rintro (⟨hX, hY⟩ | hnamed)
      · rw [carried_of_lt hX, carried_of_lt hY]
        exact ⟨fun _ _ => ⟨rfl, rfl⟩, fun hfit => absurd ⟨hX, hY⟩ hfit, fun _ _ _ _ => ⟨rfl, rfl⟩⟩
      · have hnever : ∀ copyFails interrupted fPos, (aesdIoctl copyFails interrupted aesdcharIocSeekTo
            (carried X) (carried Y) fPos ((Session.start buffer dev).run ops).state).retval ≠ 0 := by
          intro copyFails interrupted fPos hret
          obtain ⟨rfl, rfl⟩ := accepted_plain hret
          exact hnamed ((accepted_iff hs _ _ fPos).mp hret)
        exact ⟨fun hX hY => ⟨carried_of_lt hX, carried_of_lt hY⟩, fun _ => hnever,
          fun copyFails interrupted fPos hret => absurd hret (hnever copyFails interrupted fPos)⟩

/-- A handler about to give the command of its packet. -/
def commandTrace (packet : List UInt8) : Trace :=
  lineIn packet ++ ([(.lock packet, .done), (.openFile .readWrite, .fd 5)] : Trace)

/-- The second byte of the only line. -/
theorem numbers_survive_line : ∃ c,
    run (Conn.step .driver) (Conn.start 4) (commandTrace (seekPrefix ++ [48, 44, 49, 10])) = some c ∧
      NumbersSurvive 0 1 0 1
        ((Session.start Pending.grant Pending.blank).run [.write 0 Pending.fine [97, 10]]).state := by
  obtain ⟨c, hc, hview⟩ := Option.map_eq_some_iff.mp (show
    (run (Conn.step .driver) (Conn.start 4) (commandTrace (seekPrefix ++ [48, 44, 49, 10]))).map
      (fun c => (c.pc, c.packet)) = some (.seekIoctl 5 0 1, seekPrefix ++ [48, 44, 49, 10]) by
    decide +kernel)
  obtain ⟨hpc, hpacket⟩ := Prod.mk.inj hview
  have htext : IsSeekText c.packet 0 1 := by
    rw [hpacket]
    exact ⟨[48], [49], by decide, by decide, rfl⟩
  exact ⟨c, hc, ((numbers_survive_iff hc htext).2 5 0 1 hpc Pending.grant Pending.blank
    [.write 0 Pending.fine [97, 10]]).mpr (Or.inl (by decide))⟩

/-- `4294967296` goes for 0, and the seek to the first byte of the only line succeeds. -/
theorem numbers_alias : ¬ ∀ (fd fdIoctl X Y x y : Nat) (tr : Trace) (c : Conn),
    run (Conn.step .driver) (Conn.start fd) tr = some c → IsSeekText c.packet X Y →
      c.pc = .seekIoctl fdIoctl x y → ∀ (buffer : Kernel.Alloc) (dev : AesdDev) (ops : List Op),
        NumbersSurvive X Y x y ((Session.start buffer dev).run ops).state := by
  intro hall
  obtain ⟨c, hc, hview⟩ := Option.map_eq_some_iff.mp (show
    (run (Conn.step .driver) (Conn.start 4)
      (commandTrace (seekPrefix ++ [52, 50, 57, 52, 57, 54, 55, 50, 57, 54, 44, 48, 10]))).map
        (fun c => (c.pc, c.packet)) =
      some (.seekIoctl 5 0 0, seekPrefix ++ [52, 50, 57, 52, 57, 54, 55, 50, 57, 54, 44, 48, 10]) by
    decide +kernel)
  obtain ⟨hpc, hpacket⟩ := Prod.mk.inj hview
  have htext : IsSeekText c.packet (2 ^ 32) 0 := by
    rw [hpacket]
    exact ⟨[52, 50, 57, 52, 57, 54, 55, 50, 57, 54], [48], by decide, by decide, rfl⟩
  have hsurvive := hall 4 5 (2 ^ 32) 0 0 0 _ c hc htext hpc Pending.grant Pending.blank
    [.write 0 Pending.fine [97, 10]]
  exact hsurvive.rejected (by decide) false false 0 (by decide)

end Aesd.Server
