import Aesd.Lib.PartialRun
import Aesd.Server.Moves

/-!
# The handler's loop, phase by phase

What one step of `handle_connection` can do in each part of its loop: to the
bytes it has received and not yet gone through, to the packet it is collecting,
and to the packets it has completed. Proofs about runs need no more than that.
-/
namespace Aesd.Server

open PartialRun

/-- The parts of the handler's loop: collecting a packet, having completed one, working on it,
leaving that work on an error, leaving the process, and having ended. -/
inductive Phase where
  | gathering | dispatching | handling | givingUp | leaving | ended
  deriving DecidableEq, Repr

def Pc.phase : Pc → Phase
  | .recv | .nextByte | .grow | .store => .gathering
  | .dispatch => .dispatching
  | .lock _ | .seekOpen _ _ | .seekIoctl _ _ _ | .writing _ | .writeGiveUp | .sendOpen | .reading _ _
  | .sending _ _ _ | .closing _ _ | .unlocking _ => .handling
  | .seekGiveUp | .sendGiveUp => .givingUp
  | .sendFailed _ _ | .sendFailedUnlock | .exiting => .leaving
  | .clientDone | .closeClient | .returned => .ended

abbrev Trace := List (Call × Answer)

/-- The first line of a connection arrives and is collected. -/
def lineIn (line : List UInt8) : Trace :=
  ([(.recv, .bytes line), (.tau, .done), (.realloc 1024, .memory (List.replicate 1024 0))] : Trace) ++
    (List.replicate (2 * line.length - 1) (.tau, .done) : Trace) ++
    ([(.process line, .memory [])] : Trace)

/-- The bytes a call receives from the client. -/
def taken : Call × Answer → List UInt8
  | (.recv, .bytes l) => l
  | _ => []

/-- The packet a call processes. -/
def completed : Call × Answer → Option (List UInt8)
  | (.process p, _) => some p
  | _ => none

def receivedBytes (tr : Trace) : List UInt8 := tr.flatMap taken

def processed (tr : Trace) : List (List UInt8) := tr.filterMap completed

/-- The failures on which the handler leaves a packet without resetting `packet_len`. -/
def errorExit : Call × Answer → Bool
  | (.openFile .readWrite, .failed) | (.openFile .readOnly, .failed) | (.ioctl _ _ _, .failed) => true
  | _ => false

/-- The failures on which the handler ends: no memory for the packet, or an answer that cannot
be sent, which ends the process. -/
def endsHandler : Call × Answer → Bool
  | (.realloc _, .failed) | (.send _, .failed) | (.send _, .killed) => true
  | _ => false

@[simp] theorem receivedBytes_concat (tr : Trace) (e : Call × Answer) :
    receivedBytes (tr ++ [e]) = receivedBytes tr ++ taken e := by simp [receivedBytes]

theorem processed_concat (tr : Trace) (e : Call × Answer) :
    processed (tr ++ [e]) = processed tr ++ (completed e).toList := by
  simp only [processed, List.filterMap_append, List.filterMap_cons, List.filterMap_nil]
  cases completed e <;> rfl

variable {build : Build} {c t : Conn} {e : Call × Answer}

/-- `write_to_file` opens the file for appending only. -/
theorem writing_call (w : WritePc) (data : List UInt8) (a : Answer) :
    taken (w.call data, a) = [] ∧ completed (w.call data, a) = none ∧
      errorExit (w.call data, a) = false := by
  cases w <;> exact ⟨rfl, rfl, rfl⟩

/-- Work on a packet leaves the packet alone until the section is left. -/
theorem handling_step (hp : c.pc.phase = .handling) (h : c.step build e = some t) :
    taken e = [] ∧ completed e = none ∧
      ((t = { c with pc := t.pc } ∧ (t.pc.phase = .handling ∧ errorExit e = false ∨
          t.pc.phase = .givingUp ∧ errorExit e = true ∨
          t.pc.phase = .leaving ∧ endsHandler e = true)) ∨
        (t = { c with pc := .nextByte, packetLen := 0 } ∧ errorExit e = false)) := by
  obtain ⟨call, a⟩ := e
  cases move_of_step h <;> cases hp
  case writes c w w' hw =>
    obtain ⟨htaken, hcompleted, hexit⟩ := writing_call w c.packet a
    exact ⟨htaken, hcompleted, Or.inl ⟨rfl, Or.inl ⟨rfl, hexit⟩⟩⟩
  case wrote c w ok hw =>
    obtain ⟨htaken, hcompleted, hexit⟩ := writing_call w c.packet a
    cases ok <;> exact ⟨htaken, hcompleted, Or.inl ⟨rfl, Or.inl ⟨rfl, hexit⟩⟩⟩
  case unlocked => exact ⟨rfl, rfl, Or.inr ⟨rfl, rfl⟩⟩
  case seekNotOpened | notPositioned | notOpened =>
    exact ⟨rfl, rfl, Or.inl ⟨rfl, Or.inr (Or.inl ⟨rfl, rfl⟩)⟩⟩
  case notSent | killed => exact ⟨rfl, rfl, Or.inl ⟨rfl, Or.inr (Or.inr ⟨rfl, rfl⟩)⟩⟩
  all_goals exact ⟨rfl, rfl, Or.inl ⟨rfl, Or.inl ⟨rfl, rfl⟩⟩⟩

/-- What the points of the byte loop know about the bytes still to come and the room for them. -/
def Pc.Ready (pc : Pc) (c : Conn) : Prop :=
  match pc with
  | .recv => c.buf = []
  | .grow => c.buf ≠ [] ∧ c.packetLen = c.packetSize
  | .store => c.buf ≠ [] ∧ c.packetLen < c.packetSize
  | _ => True

/-- `packet_size` is the size of the block, and `packet_len` lies inside. -/
structure Fits (c : Conn) : Prop where
  size : c.memory.length = c.packetSize
  len : c.packetLen ≤ c.packetSize
  ready : c.pc.Ready c

theorem start_fits (fd : Nat) : Fits (Conn.start fd) := ⟨rfl, Nat.le_refl _, rfl⟩

theorem take_set_succ {l : List UInt8} {n : Nat} (b : UInt8) (h : n < l.length) :
    (l.set n b).take (n + 1) = l.take n ++ [b] := by
  induction l generalizing n with
  | nil => simp at h
  | cons a l ih =>
    cases n with
    | zero => simp
    | succ n => simpa using ih (by simpa using h)

/-- Collecting: bytes come in, or one byte moves from `buf` to the packet. -/
theorem gathering_step (hp : c.pc.phase = .gathering) (hf : Fits c) (h : c.step build e = some t)
    (hends : endsHandler e = false) : Fits t ∧ completed e = none ∧ errorExit e = false ∧
      ((t.packet = c.packet ∧ t.buf = c.buf ++ taken e ∧
          (t.pc.phase = .gathering ∨ t.pc.phase = .ended ∧ t.buf = [])) ∨
        (taken e = [] ∧ ∃ b, c.buf = b :: t.buf ∧ t.packet = c.packet ++ [b] ∧
          (b ≠ newline ∧ t.pc.phase = .gathering ∨ b = newline ∧ t.pc.phase = .dispatching))) := by
  obtain ⟨call, a⟩ := e
  obtain ⟨hsize, hlen, hready⟩ := hf
  cases move_of_step h <;> cases hp
  case received c l hbig hne =>
    have hbuf : c.buf = [] := hready
    exact ⟨⟨hsize, hlen, trivial⟩, rfl, rfl, Or.inl ⟨rfl, by rw [hbuf]; rfl, Or.inl rfl⟩⟩
  case hungUp c ha =>
    have hbuf : c.buf = [] := hready
    refine ⟨⟨hsize, hlen, trivial⟩, rfl, rfl, Or.inl ⟨rfl, ?_, Or.inr ⟨rfl, hbuf⟩⟩⟩
    rcases ha with rfl | rfl <;> simp [taken]
  case drained c hbuf =>
    exact ⟨⟨hsize, hlen, hbuf⟩, rfl, rfl, Or.inl ⟨rfl, by simp [taken], Or.inl rfl⟩⟩
  case full c hbuf hfull =>
    exact ⟨⟨hsize, hlen, hbuf, by simp only at hlen hfull ⊢; omega⟩, rfl, rfl,
      Or.inl ⟨rfl, by simp [taken], Or.inl rfl⟩⟩
  case room c hbuf hroom =>
    exact ⟨⟨hsize, hlen, hbuf, hroom⟩, rfl, rfl, Or.inl ⟨rfl, by simp [taken], Or.inl rfl⟩⟩
  case grown c junk hnew =>
    obtain ⟨hne, hfull⟩ := hready
    have hmore : c.packetLen < c.newSize := by
      simp only [Conn.newSize] at hfull ⊢
      split_ifs <;> omega
    exact ⟨⟨hnew, hmore.le, hne, hmore⟩, rfl, rfl,
      Or.inl ⟨List.take_append_of_le_length (hsize ▸ hlen), by simp [taken], Or.inl rfl⟩⟩
  case refused => cases hends
  case stored c b rest mem hbuf hblock =>
    obtain ⟨-, hroom⟩ := hready
    have hmem : c.packetLen < mem.length := by
      simp only [Conn.memory, hblock, Option.getD_some] at hsize
      simp only at hroom
      omega
    refine ⟨⟨?_, hroom, ?_⟩, rfl, rfl, Or.inr ⟨rfl, b, hbuf, ?_, ?_⟩⟩
    · simpa [Conn.memory, hblock] using hsize
    · simp only
      split_ifs <;> trivial
    · simpa [Conn.packet, Conn.memory, hblock] using take_set_succ b hmem
    · by_cases hb : b = newline <;> simp [hb, Pc.phase]

theorem dispatching_step (hp : c.pc.phase = .dispatching) (h : c.step build e = some t) :
    taken e = [] ∧ completed e = some c.packet ∧ errorExit e = false ∧ t = { c with pc := t.pc } ∧
      t.pc.phase = .handling := by
  obtain ⟨call, a⟩ := e
  cases move_of_step h <;> cases hp
  case dispatched => cases build <;> exact ⟨rfl, rfl, rfl, rfl, rfl⟩

/-- On an error the handler goes on with the bytes it has, or with none of them. -/
theorem givingUp_step (hp : c.pc.phase = .givingUp) (h : c.step build e = some t) :
    taken e = [] ∧ completed e = none ∧ errorExit e = false ∧
      (t = { c with pc := .nextByte } ∨ t = { c with pc := .recv, buf := [] }) := by
  obtain ⟨call, a⟩ := e
  cases move_of_step h <;> cases hp
  case seekGivenUp => exact ⟨rfl, rfl, rfl, Or.inl rfl⟩
  case sendGivenUp => exact ⟨rfl, rfl, rfl, Or.inr rfl⟩

theorem over_step (hp : c.pc.phase = .ended) (h : c.step build e = some t) :
    taken e = [] ∧ completed e = none ∧ errorExit e = false ∧ t.pc.phase = .ended ∧ t.buf = c.buf := by
  obtain ⟨call, a⟩ := e
  cases move_of_step h <;> cases hp
  case finished c =>
    unfold Conn.finish
    cases c.packetBuf <;> exact ⟨rfl, rfl, rfl, rfl, rfl⟩
  case closedClient => exact ⟨rfl, rfl, rfl, rfl, rfl⟩

theorem leaving_step (hp : c.pc.phase = .leaving) (h : c.step build e = some t) :
    t = { c with pc := t.pc } ∧ t.pc.phase = .leaving := by
  obtain ⟨call, a⟩ := e
  cases move_of_step h <;> cases hp
  case closedUnsent c s fd ha => cases s <;> exact ⟨rfl, rfl⟩
  all_goals exact ⟨rfl, rfl⟩

/-- The run so far has met neither of the two ends. -/
def Alive (tr : Trace) : Prop := ∀ e ∈ tr, endsHandler e = false

theorem Alive.init {tr : Trace} {e : Call × Answer} (h : Alive (tr ++ [e])) :
    Alive tr ∧ endsHandler e = false :=
  ⟨fun e' he => h e' (List.mem_append_left _ he), h e (by simp)⟩

/-- A handler that has not met its end stays out of the exit path, and its packet fits. -/
theorem run_fits {fd : Nat} {tr : Trace} (h : run (Conn.step build) (Conn.start fd) tr = some c)
    (halive : Alive tr) : c.pc.phase ≠ .leaving ∧ (c.pc.phase ≠ .ended → Fits c) := by
  revert halive
  refine run_invariant (I := fun tr c => Alive tr → c.pc.phase ≠ .leaving ∧
    (c.pc.phase ≠ .ended → Fits c)) (fun _ => ⟨by simp [Conn.start, Pc.phase], fun _ => start_fits fd⟩) ?_ h
  intro es u e t _ ht ih halive
  obtain ⟨hes, he⟩ := halive.init
  obtain ⟨hleave, hfits⟩ := ih hes
  cases hp : u.pc.phase with
  | gathering =>
    obtain ⟨hf, -, -, hcases⟩ := gathering_step hp (hfits (by simp [hp])) ht he
    refine ⟨?_, fun _ => hf⟩
    rcases hcases with ⟨-, -, hq | ⟨hq, -⟩⟩ | ⟨-, b, -, -, ⟨-, hq⟩ | ⟨-, hq⟩⟩ <;> simp [hq]
  | dispatching =>
    obtain ⟨hsize, hlen, -⟩ := hfits (by simp [hp])
    obtain ⟨-, -, -, hq, hphase⟩ := dispatching_step hp ht
    rw [hq]
    refine ⟨by simp [hphase], fun _ => ⟨hsize, hlen, ?_⟩⟩
    cases hpc : t.pc <;> simp [hpc, Pc.phase] at hphase <;> trivial
  | handling =>
    obtain ⟨hsize, hlen, -⟩ := hfits (by simp [hp])
    obtain ⟨-, -, ⟨hq, hphase⟩ | ⟨hq, -⟩⟩ := handling_step hp ht
    · rw [hq]
      have hnot : t.pc.phase = .handling ∨ t.pc.phase = .givingUp := by
        rcases hphase with ⟨h, -⟩ | ⟨h, -⟩ | ⟨-, h⟩
        · exact Or.inl h
        · exact Or.inr h
        · simp [he] at h
      refine ⟨by rcases hnot with h | h <;> simp [h], fun _ => ⟨hsize, hlen, ?_⟩⟩
      cases hpc : t.pc <;> simp [hpc, Pc.phase] at hnot <;> trivial
    · rw [hq]
      exact ⟨nofun, fun _ => ⟨hsize, Nat.zero_le _, trivial⟩⟩
  | givingUp =>
    obtain ⟨hsize, hlen, -⟩ := hfits (by simp [hp])
    obtain ⟨-, -, -, hq | hq⟩ := givingUp_step hp ht
    · rw [hq]
      exact ⟨nofun, fun _ => ⟨hsize, hlen, trivial⟩⟩
    · rw [hq]
      exact ⟨nofun, fun _ => ⟨hsize, hlen, rfl⟩⟩
  | leaving => exact absurd hp hleave
  | ended =>
    obtain ⟨-, -, -, hphase, -⟩ := over_step hp ht
    exact ⟨by simp [hphase], fun hne => absurd hphase hne⟩

/-- Behind a refused block or a failed answer the handler has ended or is leaving the process. -/
theorem ends_step (h : c.step build e = some t) (hends : endsHandler e = true) :
    t.pc.phase = .ended ∨ t.pc.phase = .leaving := by
  obtain ⟨call, a⟩ := e
  cases move_of_step h
  case refused => exact Or.inl rfl
  case notSent | killed => exact Or.inr rfl
  case writes c w w' hw | wrote c w ok hw => cases w <;> cases hends
  all_goals cases hends

theorem run_alive {fd : Nat} {tr : Trace} (h : run (Conn.step build) (Conn.start fd) tr = some c)
    (hended : c.pc.phase ≠ .ended) (hleave : c.pc.phase ≠ .leaving) : Alive tr := by
  revert hended hleave
  refine run_invariant (I := fun tr c => c.pc.phase ≠ .ended → c.pc.phase ≠ .leaving → Alive tr)
    (fun _ _ => by simp [Alive]) ?_ h
  intro es u e t _ ht ih hended hleave e' he'
  have hu : u.pc.phase ≠ .ended := fun hp => hended (over_step hp ht).2.2.2.1
  have hu' : u.pc.phase ≠ .leaving := fun hp => hleave (leaving_step hp ht).2
  rcases List.mem_append.mp he' with he' | he'
  · exact ih hu hu' e' he'
  · rw [List.mem_singleton.mp he']
    exact Bool.eq_false_iff.mpr fun hends => (ends_step ht hends).elim hended hleave

end Aesd.Server
