import Aesd.Driver.Landed
import Aesd.Server.Framing

/-!
# Recorded before answered

How much of a packet `write_to_file` appended, against what the handler makes
of it: whether it returns 0, and whether the contents of the file go out as an
answer. To a file the count of `write` says what was appended; on the device it
is the driver that appends, whatever it returns.
-/
namespace Aesd.Server

open PartialRun CharDevice WriteEffect Landed

/-- What a `write` meets behind `fileName`: the file, or the device with the state it is in, the
kernel's answers to the driver, and how many of the bytes the kernel hands on to it. -/
inductive Medium where
  | file
  | device (state : CharDevice.State) (env : WriteEnv) (passed : Nat)

/-- A call with its answer, and what it meets if it is a `write`. -/
structure Deed where
  medium : Medium
  event : Call × Answer

def traceOf (tr : List Deed) : Trace := tr.map Deed.event

/-- The bytes that a `write` appends. -/
def Medium.appends : Medium → List UInt8 → Answer → List UInt8
  | .file, data, .count n => data.take n
  | .file, _, _ => []
  | .device state env passed, data, _ => landed state (aesdWrite env (data.take passed) state)

/-- What `write` returns for the result of the driver. -/
def writeAnswer (retval : Int) : Answer := if retval < 0 then .failed else .count retval.toNat

/-- The device is in a state that calls of programs can have led to. -/
def Reached (state : CharDevice.State) : Prop :=
  ∃ buffer dev ops, state = ((Session.start buffer dev).run ops).state

/-- The build decides about the medium, and the driver about the answers of the device. -/
def Deed.Allowed : Build → Deed → Prop
  | .file, ⟨.file, _⟩ => True
  | .driver, ⟨.device state env passed, e⟩ => Reached state ∧ ∀ fd data, e.1 = .write fd data →
      e.2 = writeAnswer (aesdWrite env (data.take passed) state).retval
  | _, _ => False

/-- Taking the mutex begins a new packet. -/
def appendedBy : List UInt8 → Deed → List UInt8
  | _, ⟨_, (.lock _, _)⟩ => []
  | l, ⟨medium, (.write _ data, a)⟩ => l ++ medium.appends data a
  | l, _ => l

/-- What was appended since the mutex was taken. -/
def appended (tr : List Deed) : List UInt8 := tr.foldl appendedBy []

/-- Nothing keeps the bytes of a `write` from being appended. -/
def Medium.Takes : Medium → List UInt8 → Answer → Prop
  | .file, data, .count n => data.length ≤ n
  | .file, _, _ => False
  | .device state env passed, data, _ => data.length ≤ passed ∧ Lands env data state

instance (medium : Medium) (data : List UInt8) (a : Answer) : Decidable (medium.Takes data a) :=
  match medium, a with
  | .file, .count n => inferInstanceAs (Decidable (data.length ≤ n))
  | .device state env _, _ => inferInstanceAs (Decidable (_ ∧ Lands env data state))
  | .file, .done | .file, .failed | .file, .fd _ | .file, .bytes _ | .file, .memory _
  | .file, .time _ | .file, .killed => inferInstanceAs (Decidable False)

/-- What the calls of `write_to_file` say about the packet: nothing yet, that all of it was taken,
that `write` returned a count for less, and that it is not recorded, with `write_to_file` over or
on an error exit. -/
inductive Record where
  | pending | full | short | missed
  deriving DecidableEq, Repr

def Record.next : Record → Deed → Record
  | _, ⟨_, (.lock _, _)⟩ => .pending
  | _, ⟨_, (.openFile .append, .failed)⟩ => .missed
  | _, ⟨medium, (.write _ data, a)⟩ =>
    if medium.Takes data a then .full else if a = .failed then .missed else .short
  | .short, ⟨_, (.fsync _, .failed)⟩ | .short, ⟨_, (.closeFile _, _)⟩ => .missed
  | r, _ => r

def record (tr : List Deed) : Record := tr.foldl Record.next .pending

/-- A packet that is not recorded is taken for one that is: contents are read for its answer, or
the `close` behind a short `write` succeeds. -/
def Record.slips : Record → Call × Answer → Bool
  | .missed, (.read _, .bytes (_ :: _)) | .short, (.closeFile _, .done) => true
  | _, _ => false

/-- A packet is answered, and `write_to_file` returns 0, only when all of it was appended. -/
structure Acknowledged (build : Build) (fd : Nat) (tr : List Deed) (c : Conn) : Prop where
  answered : ∀ fdSend rest, c.pc = .sending .data fdSend rest → appended tr = c.packet
  returned : ∀ pre d u w, tr = pre ++ [d] →
    run (Conn.step build) (Conn.start fd) (traceOf pre) = some u → u.pc = .writing w →
      w.resume d.event.2 = some (.inr true) → appended tr = u.packet

@[simp] theorem appended_concat (tr : List Deed) (d : Deed) :
    appended (tr ++ [d]) = appendedBy (appended tr) d := by simp [appended]

@[simp] theorem record_concat (tr : List Deed) (d : Deed) :
    record (tr ++ [d]) = (record tr).next d := by simp [record]

theorem traceOf_concat (tr : List Deed) (d : Deed) : traceOf (tr ++ [d]) = traceOf tr ++ [d.event] := by
  simp [traceOf]

/-- What the points of a section know about the packet `p`, of which `l` was appended. -/
def Pc.Founded (pc : Pc) (r : Record) (l p : List UInt8) : Prop :=
  match pc with
  | .seekOpen _ _ | .seekIoctl _ _ _ | .reading .seek _ | .sending .seek _ _ | .closing .seek _
  | .sendFailed .seek _ => r = .pending
  | .writing .openFile | .writing (.write _) => r = .pending ∧ l = []
  | .writing (.fsync _) | .writing (.closeFile _) => r = .full ∧ l = p ∨ r = .short ∧ l ≠ p
  | .writing (.writeFailed _) | .writing (.fsyncFailed _) | .writeGiveUp | .sendOpen
  | .reading .data _ | .sending .data _ _ | .closing .data _ | .sendFailed .data _ =>
    r = .full ∧ l = p ∨ r = .missed ∧ l ≠ p
  | _ => True

variable {build : Build} {c t : Conn} {d : Deed} {tr : List Deed}

/-- A `write` appends the whole packet exactly when nothing keeps its bytes from it. -/
theorem appends_iff {medium : Medium} {fd : Nat} {p : List UInt8} {a : Answer} (hp : p ≠ [])
    (hallowed : Deed.Allowed build ⟨medium, (.write fd p, a)⟩) :
    medium.appends p a = p ↔ medium.Takes p a := by
  cases medium with
  | file =>
    cases a with
    | count n => exact List.take_eq_self_iff p
    | _ => exact iff_of_false hp.symm not_false
  | device state env passed =>
    cases build with
    | file => exact hallowed.elim
    | driver =>
      obtain ⟨⟨buffer, dev, ops, rfl⟩, -⟩ := hallowed
      have hs := Position.run_sound (Ownership.start_sound buffer dev) ops
      exact landed_take_iff hs hp (aesdWrite_effect env _ hs.releasable)

theorem write_founded {w : WritePc} {r : Record} {l p : List UInt8} {medium : Medium} {a : Answer}
    {next : WritePc ⊕ Bool} (hw : (Pc.writing w).Founded r l p) (hp : p ≠ [])
    (hallowed : Deed.Allowed build ⟨medium, (w.call p, a)⟩) (h : w.resume a = some next) :
    (next.elim Pc.writing fun ok => if ok then .sendOpen else .writeGiveUp).Founded
      (r.next ⟨medium, (w.call p, a)⟩) (appendedBy l ⟨medium, (w.call p, a)⟩) p := by
  cases w <;> cases a <;> simp only [WritePc.resume, Option.some.injEq, reduceCtorEq] at h <;> subst h
  case write.count fd n =>
    obtain ⟨rfl, rfl⟩ := hw
    have hiff := appends_iff hp hallowed
    simp only [WritePc.call, Record.next, appendedBy, List.nil_append, reduceCtorEq, if_false]
    split_ifs with htakes
    · exact Or.inl ⟨rfl, hiff.mpr htakes⟩
    · exact Or.inr ⟨rfl, mt hiff.mp htakes⟩
  case write.failed fd =>
    obtain ⟨rfl, rfl⟩ := hw
    have hiff := appends_iff hp hallowed
    simp only [WritePc.call, Record.next, appendedBy, List.nil_append, if_true]
    split_ifs with htakes
    · exact Or.inl ⟨rfl, hiff.mpr htakes⟩
    · exact Or.inr ⟨rfl, mt hiff.mp htakes⟩
  case openFile.fd n =>
    obtain ⟨rfl, rfl⟩ := hw
    exact ⟨rfl, rfl⟩
  case openFile.failed =>
    obtain ⟨rfl, rfl⟩ := hw
    exact Or.inr ⟨rfl, hp.symm⟩
  all_goals
    obtain ⟨rfl, hl⟩ | ⟨rfl, hl⟩ := hw
    · exact Or.inl ⟨rfl, hl⟩
    · exact Or.inr ⟨rfl, hl⟩

theorem founded_step (h : c.step build d.event = some t) (hallowed : d.Allowed build)
    (hp : c.pc.phase = .handling → c.packet ≠ [])
    (hc : c.pc.Founded (record tr) (appended tr) c.packet) :
    t.pc.Founded (record (tr ++ [d])) (appended (tr ++ [d])) t.packet := by
  rw [record_concat, appended_concat]
  obtain ⟨medium, call, a⟩ := d
  cases move_of_step h
  case writes hw => exact write_founded hc (hp rfl) hallowed hw
  case wrote ok hw =>
    have hfounded := write_founded hc (hp rfl) hallowed hw
    cases ok <;> exact hfounded
  case locked => exact ⟨rfl, rfl⟩
  case lockedSeek => exact rfl
  case stored =>
    simp only
    split_ifs <;> trivial
  case dispatched => cases build <;> trivial
  case finished c =>
    unfold Conn.finish
    split <;> trivial
  case read s _ _ _ _ | readEnds s _ _ | sentPart s _ _ _ _ _ | sentAll s _ _ _ _ _ | notSent s _ _ =>
    cases s <;> exact hc
  case closedUnsent s _ _ => cases s <;> trivial
  all_goals first | exact hc | trivial

/-- A packet at work is not empty. -/
theorem run_packet_ne_nil {fd : Nat} {tr : Trace}
    (h : run (Conn.step build) (Conn.start fd) tr = some c) (hp : c.pc.phase = .handling) :
    c.packet ≠ [] := by
  have halive := run_alive h (by simp [hp]) (by simp [hp])
  exact List.ne_nil_of_mem (run_marked h halive (Or.inr (Or.inl hp)))

/-- What a run of deeds keeps. -/
theorem run_deeds {fd : Nat} {I : List Deed → Conn → Prop} (init : I [] (Conn.start fd))
    (last : ∀ es u d t, run (Conn.step build) (Conn.start fd) (traceOf es) = some u →
      u.step build d.event = some t → (∀ d' ∈ es ++ [d], d'.Allowed build) → I es u → I (es ++ [d]) t)
    (h : run (Conn.step build) (Conn.start fd) (traceOf tr) = some c)
    (hallowed : ∀ d ∈ tr, d.Allowed build) : I tr c := by
  rw [traceOf, ← run_map] at h
  revert hallowed
  refine run_invariant (I := fun es u => (∀ d ∈ es, d.Allowed build) → I es u) (fun _ => init) ?_ h
  intro es u d t hu ht ih hallowed
  rw [run_map] at hu
  exact last es u d t hu ht hallowed (ih fun d' hd' => hallowed d' (List.mem_append_left _ hd'))

theorem run_founded {fd : Nat} (h : run (Conn.step build) (Conn.start fd) (traceOf tr) = some c)
    (hallowed : ∀ d ∈ tr, d.Allowed build) :
    c.pc.Founded (record tr) (appended tr) c.packet :=
  run_deeds (I := fun tr c => c.pc.Founded (record tr) (appended tr) c.packet) trivial
    (fun _ _ d _ hu ht hd ih => founded_step ht (hd d (by simp)) (run_packet_ne_nil hu) ih) h hallowed

/-- Only contents that were read, or the rest of them, are sent. -/
theorem sending_of_step {s : Section} {fd : Nat} {rest : List UInt8} {e : Call × Answer}
    (h : c.step build e = some t)
    (ht : t.pc = .sending s fd rest) : (c.pc = .reading s fd ∧ e = (.read fd, .bytes rest) ∧ rest ≠ []) ∨
      ∃ rest' n, c.pc = .sending s fd rest' ∧ e = (.send rest', .count n) := by
  obtain ⟨call, a⟩ := e
  cases move_of_step h
  case read hne =>
    cases ht
    exact Or.inl ⟨rfl, rfl, hne⟩
  case sentPart n rest' _ _ =>
    cases ht
    exact Or.inr ⟨rest', n, rfl, rfl⟩
  case wrote ok _ => cases ok <;> cases ht
  case stored =>
    simp only at ht
    split_ifs at ht
  case dispatched =>
    unfold Conn.dispatch at ht
    split at ht <;> cases ht
  case finished =>
    unfold Conn.finish at ht
    split at ht <;> cases ht
  case closedUnsent s' _ _ => cases s' <;> cases ht
  all_goals cases ht

/-- No call of the run makes an unrecorded packet pass for a recorded one. -/
def NoSlip (tr : List Deed) : Prop :=
  ∀ pre d post, tr = pre ++ d :: post → (record pre).slips d.event = false

theorem noSlip_concat (h : NoSlip (tr ++ [d])) : NoSlip tr ∧ (record tr).slips d.event = false :=
  ⟨fun pre d' post htr => h pre d' (post ++ [d]) (by simp [htr]), h tr d [] rfl⟩

/-- Without a slip only a recorded packet gets as far as its answer. -/
theorem run_answered {fd fdSend : Nat} {rest : List UInt8}
    (h : run (Conn.step build) (Conn.start fd) (traceOf tr) = some c)
    (hallowed : ∀ d ∈ tr, d.Allowed build) (hnone : NoSlip tr)
    (hpc : c.pc = .sending .data fdSend rest) : record tr = .full := by
  revert hnone fdSend rest
  refine run_deeds (I := fun tr c => ∀ {fdSend : Nat} {rest : List UInt8}, NoSlip tr →
    c.pc = .sending .data fdSend rest → record tr = .full) (by simp [Conn.start]) ?_ h hallowed
  intro es u d t hu ht hd ih fdSend rest hnone hpc
  obtain ⟨hnone', hslip⟩ := noSlip_concat hnone
  have hfounded := run_founded hu fun d' hd' => hd d' (List.mem_append_left _ hd')
  obtain ⟨medium, e⟩ := d
  rw [record_concat]
  rcases sending_of_step ht hpc with ⟨hq, rfl, hrest⟩ | ⟨rest', n, hq, rfl⟩
  · rw [hq] at hfounded
    obtain ⟨hfull, -⟩ | ⟨hmissed, -⟩ := hfounded
    · rw [hfull]
      rfl
    · obtain ⟨b, l, rfl⟩ := List.exists_cons_of_ne_nil hrest
      rw [hmissed] at hslip
      cases hslip
  · rw [ih hnone' hq]
    rfl

/-- Where `write_to_file` returns 0. -/
theorem write_returns {w : WritePc} {a : Answer} (h : w.resume a = some (.inr true)) :
    (∃ fd, w = .closeFile fd) ∧ a = .done := by
  cases w <;> cases a <;> simp [WritePc.resume] at h
  exact ⟨⟨_, rfl⟩, rfl⟩

/-- Which points close a file behind a short count. -/
theorem short_closes {fd : Nat} (hcall : c.call = some (.closeFile fd))
    (hc : c.pc.Founded .short (appended tr) c.packet) :
    (∃ fd', c.pc = .writing (.closeFile fd')) ∧ appended tr ≠ c.packet := by
  cases hpc : c.pc <;> simp only [Conn.call, hpc, Option.some.injEq, reduceCtorEq] at hcall
  case writing w =>
    cases w <;> simp only [WritePc.call, reduceCtorEq] at hcall <;> simp [hpc, Pc.Founded] at hc
    exact ⟨⟨_, rfl⟩, hc⟩
  case closing s _ | sendFailed s _ => cases s <;> simp [hpc, Pc.Founded] at hc

theorem missed_reads {fd : Nat} (hcall : c.call = some (.read fd))
    (hc : c.pc.Founded .missed (appended tr) c.packet) :
    c.pc = .reading .data fd ∧ appended tr ≠ c.packet := by
  cases hpc : c.pc <;> simp only [Conn.call, hpc, Option.some.injEq, reduceCtorEq] at hcall
  case writing w => cases w <;> cases hcall
  case reading s fd' =>
    cases hcall
    cases s <;> simp [hpc, Pc.Founded] at hc
    exact ⟨rfl, hc⟩

/-- A slip shows at once. -/
theorem slip_shows {fd : Nat} (hu : run (Conn.step build) (Conn.start fd) (traceOf tr) = some c)
    (hallowed : ∀ d ∈ tr, d.Allowed build) (h : c.step build d.event = some t)
    (hslip : (record tr).slips d.event = true) : ¬ Acknowledged build fd (tr ++ [d]) t := by
  intro hack
  have hfounded := run_founded hu hallowed
  obtain ⟨hcall, hres⟩ := Conn.step_eq_some.mp h
  obtain ⟨medium, call, a⟩ := d
  dsimp only at hslip hcall hres
  unfold Record.slips at hslip
  split at hslip
  · rename_i hmissed he
    cases he
    rw [hmissed] at hfounded
    obtain ⟨hpc, hlack⟩ := missed_reads hcall hfounded
    simp only [Conn.resume, hpc, Conn.readBack, reduceCtorEq, if_false] at hres
    split_ifs at hres
    cases hres
    have happended := hack.answered _ _ rfl
    rw [appended_concat] at happended
    exact hlack happended
  · rename_i hshort he
    cases he
    rw [hshort] at hfounded
    obtain ⟨⟨fd', hpc⟩, hlack⟩ := short_closes hcall hfounded
    have happended := hack.returned tr _ c _ rfl hu hpc rfl
    rw [appended_concat] at happended
    exact hlack happended
  · cases hslip

/-- Whatever the calls answer, and whatever the device has been through: a handler answers only
what it has recorded, and takes only that for recorded, in every state of a run in which no call
slips, and in no other run. -/
theorem acknowledged_iff (build : Build) (fd : Nat) (tr : List Deed) (c : Conn)
    (h : run (Conn.step build) (Conn.start fd) (traceOf tr) = some c)
    (hallowed : ∀ d ∈ tr, d.Allowed build) :
    (∀ pre u, pre <+: tr → run (Conn.step build) (Conn.start fd) (traceOf pre) = some u →
        Acknowledged build fd pre u) ↔ NoSlip tr := by
  constructor
  · rintro hall pre d post rfl
    have hpre : pre ++ [d] <+: pre ++ d :: post := ⟨post, by simp⟩
    obtain ⟨t, ht⟩ := run_prefix h (hpre.map Deed.event)
    have hstep := ht
    rw [← traceOf, traceOf_concat] at hstep
    obtain ⟨u, hu, hstep⟩ := run_concat_eq_some.mp hstep
    refine Bool.eq_false_iff.mpr fun hslip => ?_
    exact slip_shows hu (fun d' hd' => hallowed d' (List.mem_append_left _ hd')) hstep hslip
      (hall _ t hpre ht)
  · rintro hnone pre u ⟨post, rfl⟩ hu
    have hnone' : NoSlip pre := fun pre' d post' htr => hnone pre' d (post' ++ post) (by simp [htr])
    have hallowed' : ∀ d ∈ pre, d.Allowed build := fun d hd => hallowed d (List.mem_append_left _ hd)
    refine ⟨fun fdSend rest hpc => ?_, fun pre' d v w htr hv hpc hw => ?_⟩
    · have hfounded := run_founded hu hallowed'
      rw [hpc, run_answered hu hallowed' hnone' hpc] at hfounded
      simpa [Pc.Founded] using hfounded
    · subst htr
      obtain ⟨⟨fdWrite, rfl⟩, ha⟩ := write_returns hw
      have hslip := (noSlip_concat hnone').2
      rw [traceOf_concat] at hu
      obtain ⟨v', hv', hstep⟩ := run_concat_eq_some.mp hu
      obtain rfl : v' = v := Option.some.inj (hv'.symm.trans hv)
      obtain ⟨hcall, -⟩ := Conn.step_eq_some.mp hstep
      obtain ⟨medium, call, a⟩ := d
      obtain rfl : a = .done := ha
      simp only [Conn.call, hpc, WritePc.call, Option.some.injEq] at hcall
      subst hcall
      have hfounded := run_founded hv fun d' hd' => hallowed' d' (List.mem_append_left _ hd')
      rw [hpc] at hfounded
      rw [appended_concat]
      obtain ⟨-, happended⟩ | ⟨hshort, -⟩ := hfounded
      · exact happended
      · rw [hshort] at hslip
        cases hslip

/-- All these calls meet the same. -/
def onMedium (medium : Medium) (tr : Trace) : List Deed := tr.map fun e => ⟨medium, e⟩

/-- The driver's results are the answers of a `write`. -/
def answersOf (state : CharDevice.State) (env : WriteEnv) (passed : Nat) : Call × Answer → Bool
  | (.write _ data, a) => a = writeAnswer (aesdWrite env (data.take passed) state).retval
  | _ => true

theorem onMedium_allowed {state : CharDevice.State} {env : WriteEnv} {passed : Nat} {tr : Trace}
    (hstate : Reached state) (hanswers : tr.all (answersOf state env passed) = true) :
    ∀ d ∈ onMedium (.device state env passed) tr, d.Allowed .driver := by
  intro d hd
  obtain ⟨⟨call, a⟩, he, rfl⟩ := List.mem_map.mp hd
  refine ⟨hstate, ?_⟩
  rintro fd data rfl
  exact of_decide_eq_true (List.all_eq_true.mp hanswers _ he)

/-- The device after a line. -/
def deviceWithLine : CharDevice.State :=
  ((Session.start Pending.grant Pending.blank).run [.write 0 Pending.fine [97, 10]]).state

/-- One line is recorded and answered. -/
def lineRecorded : Trace :=
  lineIn [97, 10] ++ ([(.lock [97, 10], .done), (.openFile .append, .fd 5),
    (.write 5 [97, 10], .count 2), (.fsync 5, .done), (.closeFile 5, .done),
    (.openFile .readOnly, .fd 5), (.read 5, .bytes [97, 10]), (.send [97, 10], .count 1),
    (.send [10], .count 1), (.read 5, .bytes []), (.closeFile 5, .done), (.unlock, .done)] : Trace)

/-- The next one comes in two parts. There is no memory for its entry, and it is answered although
`write` has failed. -/
def lineKept : Trace :=
  [(.tau, .done), (.recv, .bytes [98]), (.tau, .done), (.tau, .done), (.tau, .done),
    (.recv, .bytes [10]), (.tau, .done), (.tau, .done), (.process [98, 10], .memory []),
    (.lock [98, 10], .done), (.openFile .append, .fd 5), (.write 5 [98, 10], .failed),
    (.closeFile 5, .done), (.unlock, .done), (.openFile .readOnly, .fd 5),
    (.read 5, .bytes [97, 10])]

def linesOnDevice : List Deed :=
  onMedium (.device (Session.start Pending.grant Pending.blank).state Pending.fine 4096) lineRecorded ++
    onMedium (.device deviceWithLine { Pending.fine with entry := Pending.refuse } 4096) lineKept

theorem acknowledged_lines : ∃ c,
    run (Conn.step .driver) (Conn.start 4) (traceOf linesOnDevice) = some c ∧
      Acknowledged .driver 4 linesOnDevice c ∧ c.pc = .sending .data 5 [97, 10] := by
  obtain ⟨c, hc, hpc⟩ := Option.map_eq_some_iff.mp (show
    (run (Conn.step .driver) (Conn.start 4) (traceOf linesOnDevice)).map Conn.pc =
      some (.sending .data 5 [97, 10]) by decide +kernel)
  have hallowed : ∀ d ∈ linesOnDevice, d.Allowed .driver := by
    intro d hd
    rcases List.mem_append.mp hd with hd | hd
    · exact onMedium_allowed ⟨Pending.grant, Pending.blank, [], rfl⟩ (by decide +kernel) d hd
    · exact onMedium_allowed ⟨Pending.grant, Pending.blank, [.write 0 Pending.fine [97, 10]], rfl⟩
        (by decide +kernel) d hd
  refine ⟨c, hc, (acknowledged_iff .driver 4 linesOnDevice c hc hallowed).2 ?_ _ _
    List.prefix_rfl hc, hpc⟩
  have hslips : ∀ k < linesOnDevice.length, (linesOnDevice[k]?).all
      (fun d => !(record (linesOnDevice.take k)).slips d.event) = true := by decide +kernel
  intro pre d post htr
  have hk := hslips pre.length (by simp [htr])
  rw [htr] at hk
  simpa using hk

/-- `write` takes one byte of two, and the client gets that byte for an answer. -/
def shortWrite : Trace :=
  lineIn [97, 10] ++ ([(.lock [97, 10], .done), (.openFile .append, .fd 5),
    (.write 5 [97, 10], .count 1), (.fsync 5, .done), (.closeFile 5, .done),
    (.openFile .readOnly, .fd 5), (.read 5, .bytes [97])] : Trace)

theorem short_write_answered : ¬ ∀ (build : Build) (fd : Nat) (tr : List Deed) (c : Conn),
    run (Conn.step build) (Conn.start fd) (traceOf tr) = some c → (∀ d ∈ tr, d.Allowed build) →
      Acknowledged build fd tr c := by
  intro hall
  obtain ⟨c, hc, hview⟩ := Option.map_eq_some_iff.mp (show
    (run (Conn.step .file) (Conn.start 4) (traceOf (onMedium .file shortWrite))).map
      (fun c => (c.pc, c.packet)) = some (.sending .data 5 [97], [97, 10]) by decide +kernel)
  obtain ⟨hpc, hpacket⟩ := Prod.mk.inj hview
  have hallowed : ∀ d ∈ onMedium .file shortWrite, d.Allowed .file := by
    intro d hd
    obtain ⟨e, -, rfl⟩ := List.mem_map.mp hd
    trivial
  have happended := (hall .file 4 _ c hc hallowed).answered 5 [97] hpc
  rw [hpacket] at happended
  exact absurd happended (by decide +kernel)

end Aesd.Server
