import Aesd.Lib.Segments
import Aesd.Server.Phase

/-!
# Packets of a connection

The packets a handler completes against the lines of the bytes it received. As
long as no error exit leaves a packet behind, `packet_buf` starts with the
unfinished end of the stream, and every completed packet is one line. After
such an exit the next newline does the damage.
-/
namespace Aesd.Server

open Segments PartialRun

/-- The handler waits for the client or has ended. -/
def Resting (c : Conn) : Prop := c.pc = .recv ∨ c.pc.phase = .ended

/-- The packet for which the mutex is taken, or which is written to the file. -/
def worksOn : Call → Option (List UInt8)
  | .lock p | .write _ p => some p
  | _ => none

/-- The completed packets are the first lines of the stream, at rest all of them; only the last
one is worked on, and the byte about to be stored has its place in the block. -/
structure Framed (tr : Trace) (c : Conn) : Prop where
  ordered : processed tr <+: segments newline (receivedBytes tr)
  all : Resting c → processed tr = segments newline (receivedBytes tr)
  handed : ∀ pre e post p, tr = pre ++ e :: post → worksOn e.1 = some p →
    (processed pre).getLast? = some p
  inBounds : c.pc = .store →
    ∃ mem, c.packetBuf = some mem ∧ mem.length = c.packetSize ∧ c.packetLen < mem.length

/-- What the variables hold when the stream `s` has been gone through. -/
def Pc.Holds (pc : Pc) (tr : Trace) (c : Conn) (s : List UInt8) : Prop :=
  match pc.phase with
  | .gathering => processed tr = segments newline s ∧ c.packet = remainder newline s
  | .dispatching => processed tr ++ [c.packet] = segments newline s ∧ remainder newline s = []
  | .handling => processed tr = segments newline s ∧ remainder newline s = [] ∧
      (processed tr).getLast? = some c.packet
  | .ended => processed tr = segments newline s ∧ c.buf = []
  | .givingUp | .leaving => False

/-- No packet has been left behind. -/
def Clean (tr : Trace) (c : Conn) : Prop :=
  ∃ s, receivedBytes tr = s ++ c.buf ∧ c.pc.Holds tr c s

/-- A packet has been left behind, but no newline is to come. -/
def Spoiled (tr : Trace) (c : Conn) : Prop :=
  newline ∉ c.buf ∧ processed tr = segments newline (receivedBytes tr) ∧
    (c.pc.phase = .gathering ∨ c.pc.phase = .givingUp ∨ c.pc.phase = .ended)

variable {build : Build} {c t : Conn} {e : Call × Answer} {tr : Trace}

theorem clean_step (hc : Clean tr c) (hfits : c.pc.phase ≠ .ended → Fits c)
    (h : c.step build e = some t) (hends : endsHandler e = false) :
    errorExit e = false ∧ Clean (tr ++ [e]) t ∨
      errorExit e = true ∧ t.buf = c.buf ∧ t.pc.phase = .givingUp ∧
        (newline ∉ c.buf → Spoiled (tr ++ [e]) t) := by
  obtain ⟨s, hs, hold⟩ := hc
  unfold Pc.Holds at hold
  cases hp : c.pc.phase with
  | gathering =>
    simp only [hp] at hold
    obtain ⟨-, hcomp, hexit, hcases⟩ := gathering_step hp (hfits (by simp [hp])) h hends
    refine Or.inl ⟨hexit, ?_⟩
    have hproc : processed (tr ++ [e]) = processed tr := by simp [processed_concat, hcomp]
    rcases hcases with ⟨hpacket, hbuf, hq⟩ | ⟨htaken, b, hbuf, hpacket, hq⟩
    · refine ⟨s, by rw [receivedBytes_concat, hs, hbuf, List.append_assoc], ?_⟩
      rcases hq with hq | ⟨hq, hnil⟩
      · simp only [Pc.Holds, hq, hproc, hpacket]
        exact hold
      · simp only [Pc.Holds, hq, hproc]
        exact ⟨hold.1, hnil⟩
    · refine ⟨s ++ [b], by rw [receivedBytes_concat, hs, hbuf, htaken]; simp, ?_⟩
      rcases hq with ⟨hb, hq⟩ | ⟨rfl, hq⟩
      · simp only [Pc.Holds, hq, hproc, hpacket, segments_concat_ne hb, remainder_concat_ne hb, hold.2]
        exact ⟨hold.1, trivial⟩
      · simp [Pc.Holds, hq, hproc, hpacket, hold.1, hold.2]
  | dispatching =>
    simp only [hp] at hold
    obtain ⟨htaken, hcomp, hexit, ht, hq⟩ := dispatching_step hp h
    have hpacket : t.packet = c.packet := by rw [ht]; rfl
    refine Or.inl ⟨hexit, s, by rw [receivedBytes_concat, hs, htaken, List.append_nil, ht], ?_⟩
    simp only [Pc.Holds, hq, processed_concat, hcomp, Option.toList_some, hpacket]
    exact ⟨hold.1, hold.2, by simp⟩
  | handling =>
    simp only [hp] at hold
    obtain ⟨htaken, hcomp, hcases⟩ := handling_step hp h
    have hproc : processed (tr ++ [e]) = processed tr := by simp [processed_concat, hcomp]
    have hrecv : receivedBytes (tr ++ [e]) = s ++ c.buf := by
      rw [receivedBytes_concat, hs, htaken, List.append_nil]
    rcases hcases with ⟨ht, ⟨hq, hexit⟩ | ⟨hq, hexit⟩ | ⟨-, hend⟩⟩ | ⟨ht, hexit⟩
    · have hpacket : t.packet = c.packet := by rw [ht]; rfl
      refine Or.inl ⟨hexit, s, by rw [hrecv, ht], ?_⟩
      simp only [Pc.Holds, hq, hproc, hpacket]
      exact hold
    · have hbuf : t.buf = c.buf := by rw [ht]
      refine Or.inr ⟨hexit, hbuf, hq, fun hnl => ⟨by rwa [hbuf], ?_, Or.inr (Or.inl hq)⟩⟩
      rw [hproc, hrecv, (split_append_of_not_mem hnl s).1]
      exact hold.1
    · simp [hends] at hend
    · have hbuf : t.buf = c.buf := by rw [ht]
      refine Or.inl ⟨hexit, s, by rw [hrecv, hbuf], ?_⟩
      rw [Pc.Holds, ht]
      simp only [Pc.phase, hproc, Conn.packet, List.take_zero]
      exact ⟨hold.1, hold.2.1.symm⟩
  | givingUp => simp [hp] at hold
  | leaving => simp [hp] at hold
  | ended =>
    simp only [hp] at hold
    obtain ⟨htaken, hcomp, hexit, hq, hbuf⟩ := over_step hp h
    refine Or.inl ⟨hexit, s, by rw [receivedBytes_concat, hs, htaken, List.append_nil, hbuf], ?_⟩
    simp only [Pc.Holds, hq, hbuf, processed_concat, hcomp, Option.toList_none, List.append_nil]
    exact hold

theorem spoiled_step (hc : Spoiled tr c) (hfits : c.pc.phase ≠ .ended → Fits c)
    (h : c.step build e = some t) (hends : endsHandler e = false) (hnl : newline ∉ taken e) :
    errorExit e = false ∧ Spoiled (tr ++ [e]) t := by
  obtain ⟨hbuf, hproc, hphase⟩ := hc
  have hsame : completed e = none →
      processed (tr ++ [e]) = segments newline (receivedBytes (tr ++ [e])) := by
    intro hcomp
    rw [processed_concat, hcomp, receivedBytes_concat, (split_append_of_not_mem hnl _).1]
    simpa using hproc
  rcases hphase with hp | hp | hp
  · obtain ⟨-, hcomp, hexit, hcases⟩ := gathering_step hp (hfits (by simp [hp])) h hends
    refine ⟨hexit, ?_⟩
    rcases hcases with ⟨-, hb, hq⟩ | ⟨-, b, hb, -, hq⟩
    · refine ⟨?_, hsame hcomp, hq.imp_right fun hq => Or.inr hq.1⟩
      rw [hb, List.mem_append]
      exact fun h => h.elim hbuf hnl
    · rw [hb, List.mem_cons, not_or] at hbuf
      rcases hq with ⟨-, hq⟩ | ⟨hb', -⟩
      · exact ⟨hbuf.2, hsame hcomp, Or.inl hq⟩
      · exact absurd hb'.symm hbuf.1
  · obtain ⟨-, hcomp, hexit, ht | ht⟩ := givingUp_step hp h
    · refine ⟨hexit, ?_, hsame hcomp, Or.inl (by rw [ht]; rfl)⟩
      rw [ht]
      exact hbuf
    · refine ⟨hexit, ?_, hsame hcomp, Or.inl (by rw [ht]; rfl)⟩
      rw [ht]
      simp
  · obtain ⟨-, hcomp, hexit, hq, hb⟩ := over_step hp h
    exact ⟨hexit, by rwa [hb], hsame hcomp, Or.inr (Or.inr hq)⟩

/-- No newline follows an error exit: neither in what the handler has received by then nor in
what it receives later. -/
def QuietAfterErrors (build : Build) (fd : Nat) (tr : Trace) : Prop :=
  ∀ pre e post c, tr = pre ++ e :: post → run (Conn.step build) (Conn.start fd) pre = some c →
    errorExit e = true → newline ∉ c.buf ∧ newline ∉ receivedBytes post

theorem run_clean {fd : Nat} (h : run (Conn.step build) (Conn.start fd) tr = some c)
    (halive : Alive tr) {post : Trace} (hquiet : QuietAfterErrors build fd (tr ++ post)) :
    (Clean tr c ∧ ∀ e ∈ tr, errorExit e = false) ∨ Spoiled tr c ∧ newline ∉ receivedBytes post := by
  revert halive post
  refine run_invariant (I := fun tr c => Alive tr → ∀ {post : Trace},
    QuietAfterErrors build fd (tr ++ post) → (Clean tr c ∧ ∀ e ∈ tr, errorExit e = false) ∨
      Spoiled tr c ∧ newline ∉ receivedBytes post) ?_ ?_ h
  · intro _ post _
    exact Or.inl ⟨⟨[], rfl, rfl, rfl⟩, by simp⟩
  · intro es u e t hu ht ih halive post hquiet
    obtain ⟨hes, he⟩ := halive.init
    have hsplit : es ++ [e] ++ post = es ++ e :: post := by simp
    have hpost : newline ∉ receivedBytes (e :: post) →
        newline ∉ taken e ∧ newline ∉ receivedBytes post := by
      simp [receivedBytes]
    have hfits := (run_fits hu hes).2
    rcases ih hes (hsplit ▸ hquiet) with ⟨hclean, hnone⟩ | ⟨hspoiled, hnl⟩
    · rcases clean_step hclean hfits ht he with ⟨hexit, hc⟩ | ⟨hexit, hbuf, -, hs⟩
      · refine Or.inl ⟨hc, fun e' he' => ?_⟩
        rcases List.mem_append.mp he' with he' | he'
        · exact hnone e' he'
        · rwa [List.mem_singleton.mp he']
      · obtain ⟨hb, hp⟩ := hquiet es e post u hsplit hu hexit
        exact Or.inr ⟨hs hb, hp⟩
    · exact Or.inr ⟨(spoiled_step hspoiled hfits ht he (hpost hnl).1).2, (hpost hnl).2⟩

theorem works_on {p : List UInt8} (h : c.step build e = some t) (hw : worksOn e.1 = some p) :
    c.pc.phase = .handling ∧ c.packet = p := by
  obtain ⟨hcall, -⟩ := Conn.step_eq_some.mp h
  cases hpc : c.pc <;> simp only [Conn.call, hpc, Option.some.injEq, reduceCtorEq] at hcall
  case lock seekto =>
    rw [← hcall] at hw
    exact ⟨rfl, Option.some.inj hw⟩
  case writing w =>
    rw [← hcall] at hw
    cases w <;> cases hw
    exact ⟨rfl, rfl⟩
  all_goals simp [← hcall, worksOn] at hw

/-- The packet completed last is the one in `packet_buf` while it is worked on. -/
theorem run_working {fd : Nat} (h : run (Conn.step build) (Conn.start fd) tr = some c)
    (halive : Alive tr) (hp : c.pc.phase = .handling) : (processed tr).getLast? = some c.packet := by
  revert halive hp
  refine run_invariant (I := fun tr c => Alive tr → c.pc.phase = .handling →
    (processed tr).getLast? = some c.packet) (fun _ hp => by simp [Conn.start, Pc.phase] at hp) ?_ h
  intro es u e t hu ht ih halive hq
  obtain ⟨hes, he⟩ := halive.init
  obtain ⟨hleave, hfits⟩ := run_fits hu hes
  cases hp : u.pc.phase with
  | gathering =>
    obtain ⟨-, -, -, ⟨-, -, hq' | ⟨hq', -⟩⟩ | ⟨-, b, -, -, ⟨-, hq'⟩ | ⟨-, hq'⟩⟩⟩ :=
      gathering_step hp (hfits (by simp [hp])) ht he <;> simp [hq'] at hq
  | dispatching =>
    obtain ⟨-, hcomp, -, hq', -⟩ := dispatching_step hp ht
    rw [processed_concat, hcomp, hq']
    exact List.getLast?_concat
  | handling =>
    obtain ⟨-, hcomp, ⟨hq', -⟩ | ⟨hq', -⟩⟩ := handling_step hp ht
    · rw [processed_concat, hcomp, hq', Option.toList_none, List.append_nil]
      exact ih hes hp
    · simp [hq', Pc.phase] at hq
  | givingUp =>
    obtain ⟨-, -, -, hq' | hq'⟩ := givingUp_step hp ht <;> simp [hq', Pc.phase] at hq
  | leaving => exact absurd hp hleave
  | ended => simp [(over_step hp ht).2.2.2.1] at hq

theorem run_handed {fd : Nat} (h : run (Conn.step build) (Conn.start fd) tr = some c)
    (halive : Alive tr) {pre post : Trace} {p : List UInt8} (hsplit : tr = pre ++ e :: post)
    (hw : worksOn e.1 = some p) : (processed pre).getLast? = some p := by
  subst hsplit
  obtain ⟨u, hu, hpost⟩ := run_append_eq_some.mp h
  rw [run_cons, Option.bind_eq_some_iff] at hpost
  obtain ⟨v, hv, -⟩ := hpost
  obtain ⟨hp, rfl⟩ := works_on hv hw
  exact run_working hu (fun e he => halive e (List.mem_append_left _ he)) hp

theorem framed_of_clean {fd : Nat} (h : run (Conn.step build) (Conn.start fd) tr = some c)
    (halive : Alive tr) (hc : Clean tr c ∨ Spoiled tr c) : Framed tr c := by
  obtain ⟨-, hfits⟩ := run_fits h halive
  have hhanded : ∀ pre e post p, tr = pre ++ e :: post → worksOn e.1 = some p →
      (processed pre).getLast? = some p := fun _ _ _ _ => run_handed h halive
  have hbounds : c.pc = .store →
      ∃ mem, c.packetBuf = some mem ∧ mem.length = c.packetSize ∧ c.packetLen < mem.length := by
    intro hpc
    obtain ⟨hsize, -, hready⟩ := hfits (by simp [hpc, Pc.phase])
    simp only [hpc, Pc.Ready] at hready
    cases hb : c.packetBuf with
    | none =>
      simp only [Conn.memory, hb, Option.getD_none, List.length_nil] at hsize
      omega
    | some mem =>
      simp only [Conn.memory, hb, Option.getD_some] at hsize
      exact ⟨mem, rfl, hsize, hsize ▸ hready.2⟩
  rcases hc with ⟨s, hs, hold⟩ | ⟨-, hproc, -⟩
  · have hpre := segments_prefix newline s c.buf
    rw [← hs] at hpre
    unfold Pc.Holds at hold
    cases hp : c.pc.phase with
    | gathering =>
      simp only [hp] at hold
      refine ⟨hold.1 ▸ hpre, ?_, hhanded, hbounds⟩
      rintro (hrecv | hover)
      · have hnil := (hfits (by simp [hp])).ready
        simp only [hrecv, Pc.Ready] at hnil
        rw [hs, hnil, List.append_nil]
        exact hold.1
      · simp [hp] at hover
    | dispatching =>
      simp only [hp] at hold
      refine ⟨(List.prefix_append _ [c.packet]).trans (hold.1 ▸ hpre), ?_, hhanded, hbounds⟩
      rintro (hrecv | hover)
      · simp [hrecv, Pc.phase] at hp
      · simp [hp] at hover
    | handling =>
      simp only [hp] at hold
      refine ⟨hold.1 ▸ hpre, ?_, hhanded, hbounds⟩
      rintro (hrecv | hover)
      · simp [hrecv, Pc.phase] at hp
      · simp [hp] at hover
    | givingUp | leaving => simp [hp] at hold
    | ended =>
      simp only [hp] at hold
      refine ⟨hold.1 ▸ hpre, fun _ => ?_, hhanded, hbounds⟩
      rw [hs, hold.2, List.append_nil]
      exact hold.1
  · exact ⟨hproc ▸ List.prefix_rfl, fun _ => hproc, hhanded, hbounds⟩

/-- How many newlines are accounted for: by completed packets and by bytes still to come. -/
def accounted (tr : Trace) (c : Conn) : Nat :=
  (processed tr).length + (if c.pc.phase = .dispatching then 1 else 0) + c.buf.count newline

theorem accounted_step (hfits : c.pc.phase ≠ .ended → Fits c) (hleave : c.pc.phase ≠ .leaving)
    (h : c.step build e = some t) (hends : endsHandler e = false) :
    accounted (tr ++ [e]) t ≤ accounted tr c + (taken e).count newline := by
  unfold accounted
  rw [processed_concat]
  cases hp : c.pc.phase with
  | gathering =>
    obtain ⟨-, hcomp, -, hcases⟩ := gathering_step hp (hfits (by simp [hp])) h hends
    rcases hcases with ⟨-, hbuf, hq⟩ | ⟨htaken, b, hbuf, -, ⟨hb, hq⟩ | ⟨rfl, hq⟩⟩
    · have hnot : t.pc.phase ≠ .dispatching := by rcases hq with hq | ⟨hq, -⟩ <;> simp [hq]
      simp [hcomp, hbuf, hnot]
      omega
    · simp [hcomp, hbuf, htaken, hq, hb]
    · simp [hcomp, hbuf, htaken, hq]
      omega
  | dispatching =>
    obtain ⟨htaken, hcomp, -, ht, hq⟩ := dispatching_step hp h
    have hbuf : t.buf = c.buf := by rw [ht]
    simp [hcomp, hbuf, htaken, hq]
  | handling =>
    obtain ⟨htaken, hcomp, hcases⟩ := handling_step hp h
    have hbuf : t.buf = c.buf := by rcases hcases with ⟨ht, -⟩ | ⟨ht, -⟩ <;> rw [ht]
    have hnot : t.pc.phase ≠ .dispatching := by
      rcases hcases with ⟨-, ⟨hq, -⟩ | ⟨hq, -⟩ | ⟨hq, -⟩⟩ | ⟨ht, -⟩
      · simp [hq]
      · simp [hq]
      · simp [hq]
      · simp [ht, Pc.phase]
    simp [hcomp, hbuf, htaken, hnot]
  | givingUp =>
    obtain ⟨htaken, hcomp, -, ht | ht⟩ := givingUp_step hp h <;>
      simp [hcomp, ht, htaken, Pc.phase]
  | leaving => exact absurd hp hleave
  | ended =>
    obtain ⟨htaken, hcomp, -, hq, hbuf⟩ := over_step hp h
    simp [hcomp, hbuf, htaken, hq]

/-- From a damaged history no list of lines comes back: a packet holds two newlines, or a
newline got lost. -/
def Damaged (tr : Trace) (c : Conn) : Prop :=
  (∃ p ∈ processed tr, 2 ≤ p.count newline) ∨
    (c.pc.phase = .dispatching ∧ 2 ≤ c.packet.count newline) ∨
      accounted tr c < (receivedBytes tr).count newline

theorem damaged_step (hc : Damaged tr c) (hfits : c.pc.phase ≠ .ended → Fits c)
    (hleave : c.pc.phase ≠ .leaving) (h : c.step build e = some t) (hends : endsHandler e = false) :
    Damaged (tr ++ [e]) t := by
  rcases hc with ⟨p, hp, hcount⟩ | ⟨hp, hcount⟩ | hlt
  · exact Or.inl ⟨p, by rw [processed_concat]; exact List.mem_append_left _ hp, hcount⟩
  · obtain ⟨-, hcomp, -⟩ := dispatching_step hp h
    exact Or.inl ⟨c.packet, by simp [processed_concat, hcomp], hcount⟩
  · have hle : accounted (tr ++ [e]) t ≤ accounted tr c + (taken e).count newline :=
      accounted_step hfits hleave h hends
    rw [Damaged, receivedBytes_concat, List.count_append]
    exact Or.inr (Or.inr (by omega))

/-- A damaged history shows as soon as the handler rests. -/
theorem not_framed_of_damaged (hc : Damaged tr c) (hrest : Resting c) : ¬ Framed tr c := by
  intro hf
  have hall := hf.all hrest
  rcases hc with ⟨p, hp, hcount⟩ | ⟨hp, -⟩ | hlt
  · rw [hall] at hp
    have := (isLine_of_mem_segments hp).count
    omega
  · rcases hrest with hr | hr
    · simp [hr, Pc.phase] at hp
    · simp [hr] at hp
  · unfold accounted at hlt
    rw [hall, length_segments] at hlt
    omega

/-- While a packet is worked on, its newline is in it. -/
theorem run_marked {fd : Nat} (h : run (Conn.step build) (Conn.start fd) tr = some c)
    (halive : Alive tr) (hp : c.pc.phase = .dispatching ∨ c.pc.phase = .handling ∨
      c.pc.phase = .givingUp) : newline ∈ c.packet := by
  revert halive hp
  refine run_invariant (I := fun tr c => Alive tr → (c.pc.phase = .dispatching ∨
    c.pc.phase = .handling ∨ c.pc.phase = .givingUp) → newline ∈ c.packet) ?_ ?_ h
  · intro _ hp
    simp [Conn.start, Pc.phase] at hp
  · intro es u e t hu ht ih halive hq
    obtain ⟨hes, he⟩ := halive.init
    obtain ⟨hleave, hfits⟩ := run_fits hu hes
    cases hp : u.pc.phase with
    | gathering =>
      obtain ⟨-, -, -, ⟨-, -, hq'⟩ | ⟨-, b, -, hpacket, ⟨-, hq'⟩ | ⟨rfl, -⟩⟩⟩ :=
        gathering_step hp (hfits (by simp [hp])) ht he
      · rcases hq' with hq' | ⟨hq', -⟩ <;> simp [hq'] at hq
      · simp [hq'] at hq
      · simp [hpacket]
    | dispatching =>
      obtain ⟨-, -, -, hq', -⟩ := dispatching_step hp ht
      rw [hq']
      exact ih hes (Or.inl hp)
    | handling =>
      obtain ⟨-, -, ⟨hq', -⟩ | ⟨hq', -⟩⟩ := handling_step hp ht
      · rw [hq']
        exact ih hes (Or.inr (Or.inl hp))
      · simp [hq', Pc.phase] at hq
    | givingUp =>
      obtain ⟨-, -, -, hq' | hq'⟩ := givingUp_step hp ht <;> simp [hq', Pc.phase] at hq
    | leaving => exact absurd hp hleave
    | ended =>
      obtain ⟨-, -, -, hq', -⟩ := over_step hp ht
      simp [hq'] at hq

/-- Every newline that comes in is accounted for, or lost. -/
theorem run_accounted {fd : Nat} (h : run (Conn.step build) (Conn.start fd) tr = some c)
    (halive : Alive tr) : accounted tr c ≤ (receivedBytes tr).count newline := by
  revert halive
  refine run_invariant (I := fun tr c => Alive tr →
    accounted tr c ≤ (receivedBytes tr).count newline) ?_ ?_ h
  · intro _
    simp [accounted, processed, Conn.start, Pc.phase]
  · intro es u e t hu ht ih halive
    obtain ⟨hes, he⟩ := halive.init
    obtain ⟨hleave, hfits⟩ := run_fits hu hes
    have hle : accounted (es ++ [e]) t ≤ accounted es u + (taken e).count newline :=
      accounted_step hfits hleave ht he
    have := ih hes
    rw [receivedBytes_concat, List.count_append]
    omega

/-- A packet was left behind: its newline is in `packet_buf`, and `n` newlines have come in
since that are still to be gone through. -/
def LeftBehind (n : Nat) (c : Conn) : Prop :=
  ((c.pc.phase = .gathering ∨ c.pc.phase = .givingUp) ∧ newline ∈ c.packet ∨
      c.pc.phase = .ended ∧ c.buf = []) ∧ c.buf.count newline = n

theorem leftBehind_step {n : Nat} (hc : LeftBehind n c) (hfits : c.pc.phase ≠ .ended → Fits c)
    (hacc : accounted tr c ≤ (receivedBytes tr).count newline)
    (h : c.step build e = some t) (hends : endsHandler e = false) :
    LeftBehind (n + (taken e).count newline) t ∨ Damaged (tr ++ [e]) t := by
  obtain ⟨hphase, hcount⟩ := hc
  rcases hphase with ⟨hp | hp, hmark⟩ | ⟨hp, hnil⟩
  · obtain ⟨-, hcomp, -, hcases⟩ := gathering_step hp (hfits (by simp [hp])) h hends
    rcases hcases with ⟨hpacket, hbuf, hq⟩ | ⟨htaken, b, hbuf, hpacket, ⟨hb, hq⟩ | ⟨rfl, hq⟩⟩
    · refine Or.inl ⟨?_, by rw [hbuf, List.count_append, hcount]⟩
      rcases hq with hq | hq
      · exact Or.inl ⟨Or.inl hq, by rwa [hpacket]⟩
      · exact Or.inr hq
    · refine Or.inl ⟨Or.inl ⟨Or.inl hq, by rw [hpacket]; exact List.mem_append_left _ hmark⟩, ?_⟩
      rw [hbuf, List.count_cons_of_ne hb] at hcount
      rw [htaken, hcount]
      rfl
    · refine Or.inr (Or.inr (Or.inl ⟨hq, ?_⟩))
      have := List.count_pos_iff.mpr hmark
      rw [hpacket, List.count_append, List.count_singleton_self]
      omega
  · obtain ⟨htaken, hcomp, -, ht | ht⟩ := givingUp_step hp h
    · refine Or.inl ⟨Or.inl ⟨Or.inl (by rw [ht]; rfl), by rw [ht]; exact hmark⟩, ?_⟩
      rw [ht, htaken]
      simpa using hcount
    · by_cases hzero : n = 0
      · refine Or.inl ⟨Or.inl ⟨Or.inl (by rw [ht]; rfl), by rw [ht]; exact hmark⟩, ?_⟩
        simp [ht, htaken, hzero]
      · refine Or.inr (Or.inr (Or.inr ?_))
        rw [receivedBytes_concat, htaken, List.append_nil]
        simp only [accounted, processed_concat, hcomp, ht, Pc.phase] at hacc ⊢
        simp at hacc ⊢
        omega
  · obtain ⟨htaken, hcomp, -, hq, hbuf⟩ := over_step hp h
    refine Or.inl ⟨Or.inr ⟨hq, by rw [hbuf, hnil]⟩, ?_⟩
    rw [hbuf, hcount, htaken]
    rfl

/-- Error exits leave the work on a packet. -/
theorem errorExit_step (hfits : c.pc.phase ≠ .ended → Fits c) (hleave : c.pc.phase ≠ .leaving)
    (h : c.step build e = some t) (hends : endsHandler e = false) (hexit : errorExit e = true) :
    c.pc.phase = .handling ∧ t = { c with pc := t.pc } ∧ t.pc.phase = .givingUp := by
  cases hp : c.pc.phase with
  | gathering =>
    obtain ⟨-, -, hexit', -⟩ := gathering_step hp (hfits (by simp [hp])) h hends
    simp [hexit] at hexit'
  | dispatching =>
    obtain ⟨-, -, hexit', -⟩ := dispatching_step hp h
    simp [hexit] at hexit'
  | handling =>
    obtain ⟨-, -, ⟨ht, ⟨-, h'⟩ | ⟨hq, -⟩ | ⟨-, h'⟩⟩ | ⟨-, h'⟩⟩ := handling_step hp h
    · simp [hexit] at h'
    · exact ⟨rfl, ht, hq⟩
    · simp [hends] at h'
    · simp [hexit] at h'
  | givingUp =>
    obtain ⟨-, -, hexit', -⟩ := givingUp_step hp h
    simp [hexit] at hexit'
  | leaving => exact absurd hp hleave
  | ended =>
    obtain ⟨-, -, hexit', -⟩ := over_step hp h
    simp [hexit] at hexit'

/-- Once a packet has been left behind, the next newline damages the history. -/
theorem leftBehind_run {fd : Nat} {pre post : Trace} {u : Conn}
    (hu : run (Conn.step build) (Conn.start fd) pre = some u)
    (h : run (Conn.step build) u post = some c) (halive : Alive (pre ++ post)) {n : Nat}
    (hleft : LeftBehind n u) :
    LeftBehind (n + (receivedBytes post).count newline) c ∨ Damaged (pre ++ post) c := by
  revert halive
  refine run_invariant (I := fun post c => Alive (pre ++ post) →
    LeftBehind (n + (receivedBytes post).count newline) c ∨ Damaged (pre ++ post) c)
    (fun _ => Or.inl hleft) ?_ h
  intro es v e t hv ht ih halive
  rw [← List.append_assoc] at halive ⊢
  obtain ⟨hes, he⟩ := halive.init
  have hrun : run (Conn.step build) (Conn.start fd) (pre ++ es) = some v :=
    run_append_eq_some.mpr ⟨u, hu, hv⟩
  obtain ⟨hleave, hfits⟩ := run_fits hrun hes
  rcases ih hes with hl | hd
  · rw [receivedBytes_concat, List.count_append, ← Nat.add_assoc]
    exact leftBehind_step hl hfits (run_accounted hrun hes) ht he
  · exact Or.inr (damaged_step hd hfits hleave ht he)

theorem quiet_of_framed {fd : Nat} (h : run (Conn.step build) (Conn.start fd) tr = some c)
    (halive : Alive tr) (hrest : Resting c) (hf : Framed tr c) : QuietAfterErrors build fd tr := by
  rintro pre e post c₁ rfl hpre hexit
  rw [List.append_cons] at h halive hf
  obtain ⟨c₂, h₂, hpost⟩ := run_append_eq_some.mp h
  obtain ⟨c₁', h₁', hstep⟩ := run_concat_eq_some.mp h₂
  rw [hpre] at h₁'
  cases h₁'
  have hes : Alive (pre ++ [e]) := fun e' he' => halive e' (List.mem_append_left _ he')
  obtain ⟨hleave, hfits⟩ := run_fits hpre hes.init.1
  obtain ⟨hp, ht, hq⟩ := errorExit_step hfits hleave hstep hes.init.2 hexit
  have hleft : LeftBehind (c₁.buf.count newline) c₂ := by
    have hmark := run_marked hpre hes.init.1 (Or.inr (Or.inl hp))
    refine ⟨Or.inl ⟨Or.inr hq, ?_⟩, by rw [ht]⟩
    rw [ht]
    exact hmark
  rcases leftBehind_run h₂ hpost halive hleft with ⟨hphase, hcount⟩ | hd
  · have hnil : c.buf = [] := by
      rcases hrest with hr | hr
      · have hready := ((run_fits h halive).2 (by simp [hr, Pc.phase])).ready
        rwa [hr] at hready
      · rcases hphase with ⟨hg | hg, -⟩ | ⟨-, hnil⟩
        · simp [hr] at hg
        · simp [hr] at hg
        · exact hnil
    rw [hnil, List.count_nil] at hcount
    exact ⟨List.count_eq_zero.mp (by omega), List.count_eq_zero.mp (by omega)⟩
  · exact absurd hf (not_framed_of_damaged hd hrest)

/-- In both builds, whatever the calls of the handler answer: the packets are the lines of the
stream, in every state of the run, as long as no newline follows an error exit; and a handler
that has come to rest has seen none follow one, if its packets are those lines. -/
theorem packets_are_lines_iff (build : Build) (fd : Nat) (tr : Trace) (c : Conn)
    (h : run (Conn.step build) (Conn.start fd) tr = some c) (halive : Alive tr) :
    (QuietAfterErrors build fd tr → ∀ pre c', pre <+: tr →
        run (Conn.step build) (Conn.start fd) pre = some c' → Framed pre c') ∧
      (Resting c → ((∀ pre c', pre <+: tr →
        run (Conn.step build) (Conn.start fd) pre = some c' → Framed pre c') ↔
          QuietAfterErrors build fd tr)) := by
  have hforward : QuietAfterErrors build fd tr → ∀ pre c', pre <+: tr →
      run (Conn.step build) (Conn.start fd) pre = some c' → Framed pre c' := by
    rintro hquiet pre c' ⟨post, rfl⟩ hpre
    have hes : Alive pre := fun e he => halive e (List.mem_append_left _ he)
    exact framed_of_clean hpre hes ((run_clean hpre hes hquiet).imp And.left And.left)
  exact ⟨hforward, fun hrest =>
    ⟨fun hf => quiet_of_framed h halive hrest (hf tr c List.prefix_rfl h), hforward⟩⟩

/-- Two lines come in three parts. The file cannot be opened to answer the second one, and the
client leaves in the middle of a third. -/
def linesIn : Trace :=
  [(.recv, .bytes [97, 10, 98]), (.tau, .done), (.realloc 1024, .memory (List.replicate 1024 0)),
    (.tau, .done), (.tau, .done), (.tau, .done), (.process [97, 10], .memory []),
    (.lock [97, 10], .done), (.openFile .append, .fd 5), (.write 5 [97, 10], .count 2),
    (.fsync 5, .done), (.closeFile 5, .done), (.openFile .readOnly, .fd 5),
    (.read 5, .bytes [97, 10]), (.send [97, 10], .count 2), (.read 5, .bytes []),
    (.closeFile 5, .done), (.unlock, .done), (.tau, .done), (.tau, .done), (.tau, .done),
    (.recv, .bytes [99, 10]), (.tau, .done), (.tau, .done), (.tau, .done), (.tau, .done),
    (.process [98, 99, 10], .memory []), (.lock [98, 99, 10], .done), (.openFile .append, .fd 5),
    (.write 5 [98, 99, 10], .count 3), (.fsync 5, .done), (.closeFile 5, .done),
    (.openFile .readOnly, .failed), (.unlock, .done), (.recv, .bytes [100]), (.tau, .done),
    (.tau, .done), (.tau, .done), (.recv, .bytes [])]

theorem linesIn_framed :
    ∃ c, run (Conn.step .file) (Conn.start 4) linesIn = some c ∧ Framed linesIn c := by
  obtain ⟨c, hc⟩ := Option.isSome_iff_exists.mp
    (show (run (Conn.step .file) (Conn.start 4) linesIn).isSome = true by decide +kernel)
  have halive : Alive linesIn := by
    unfold Alive
    decide +kernel
  refine ⟨c, hc, (packets_are_lines_iff .file 4 linesIn c hc halive).1 ?_ _ _ List.prefix_rfl hc⟩
  intro pre e post u hsplit hu hexit
  have hquiet : ∀ n < linesIn.length, (linesIn[n]?).any errorExit = true →
      (run (Conn.step .file) (Conn.start 4) (linesIn.take n)).all (newline ∉ ·.buf) = true ∧
        newline ∉ receivedBytes (linesIn.drop (n + 1)) := by decide +kernel
  have hat := hquiet pre.length (by simp [hsplit]) (by simp [hsplit, hexit])
  have htake : linesIn.take pre.length = pre := by simp [hsplit]
  have hdrop : linesIn.drop (pre.length + 1) = post := by simp [hsplit]
  rw [htake, hdrop, hu] at hat
  simpa using hat

/-- Two lines arrive at once, and the file cannot be opened to answer the first. -/
def lostLineTrace : Trace :=
  [(.recv, .bytes [97, 10, 98, 10]), (.tau, .done),
    (.realloc 1024, .memory (List.replicate 1024 0)), (.tau, .done), (.tau, .done), (.tau, .done),
    (.process [97, 10], .memory []), (.lock [97, 10], .done), (.openFile .append, .fd 5),
    (.write 5 [97, 10], .count 2), (.fsync 5, .done), (.closeFile 5, .done),
    (.openFile .readOnly, .failed), (.unlock, .done)]

/-- The second line is dropped with the rest of the receive buffer. -/
theorem second_line_dropped : ¬ ∀ (build : Build) (fd : Nat) (tr : Trace) (c : Conn),
    run (Conn.step build) (Conn.start fd) tr = some c → Alive tr → ∀ pre c', pre <+: tr →
      run (Conn.step build) (Conn.start fd) pre = some c' → Framed pre c' := by
  intro hall
  obtain ⟨c, hc, hpc⟩ := Option.map_eq_some_iff.mp (show
    (run (Conn.step .file) (Conn.start 4) lostLineTrace).map Conn.pc = some .recv by decide +kernel)
  have halive : Alive lostLineTrace := by
    unfold Alive
    decide +kernel
  have hf := (hall .file 4 lostLineTrace c hc halive _ _ List.prefix_rfl hc).all (Or.inl hpc)
  revert hf
  decide +kernel

end Aesd.Server
