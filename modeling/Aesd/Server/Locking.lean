import Aesd.Server.Process

/-!
# The mutex of the server

Every thread takes the mutex before it opens the data file and releases it when
it is done with the file, on every path but one: a handler whose `write_to_file`
fails unlocks, reads the file back all the same, and unlocks once more.
-/
namespace Aesd.Server

open PartialRun Exclusion

/-- The points from the opening of the data file to the end of the loops that read and send it. -/
def Pc.inSection : Pc → Bool
  | .seekOpen _ _ | .seekIoctl _ _ _ | .writing _ | .sendOpen | .reading _ _ | .sending _ _ _
  | .closing _ _ | .sendFailed _ _ => true
  | _ => false

def StampPc.inSection : StampPc → Bool
  | .writing _ => true
  | _ => false

/-- The points behind `pthread_mutex_lock`, up to and including the unlocks. -/
def Pc.holding : Pc → Bool
  | .seekGiveUp | .writeGiveUp | .sendGiveUp | .unlocking _ | .sendFailedUnlock => true
  | pc => pc.inSection

def StampPc.holding : StampPc → Bool
  | .unlock => true
  | pc => pc.inSection

/-- The points of a handler whose `write_to_file` has failed, up to the first unlock. -/
def Pc.recovering : Pc → Bool
  | .writing (.writeFailed _) | .writing (.fsyncFailed _) | .writeGiveUp => true
  | _ => false

namespace World

variable {σ : Type}

/-- The thread is at one of these points. -/
def At (P : Pc → Bool) (Q : StampPc → Bool) (w : World σ) : Tid → Prop
  | .main => False
  | .stamp => ∃ s, w.stamp = some s ∧ Q s.pc = true
  | .client i => ∃ c, w.clients[i]? = some c ∧ P c.pc = true

def InSection : World σ → Tid → Prop := At Pc.inSection StampPc.inSection

def Holding : World σ → Tid → Prop := At Pc.holding StampPc.holding

/-- The call the thread makes next. -/
def call (w : World σ) : Tid → Option Call
  | .main => some w.main.call
  | .stamp => w.stamp.map Stamp.call
  | .client i => (w.clients[i]?).bind Conn.call

/-- The event is a failure inside the `write_to_file` of a handler. -/
def WriteFails (w : World σ) (e : Event) : Prop :=
  ∃ i c p, e.tid = .client i ∧ w.clients[i]? = some c ∧ c.pc = .writing p ∧ e.answer = .failed

end World

/-- What keeping to the mutex means for one state of a run. -/
structure Disciplined {σ : Type} (tr : List Event) (w : World σ) : Prop where
  unlock : ∀ tid, w.call tid = some .unlock → w.mutex = some tid
  inside : ∀ tid, w.InSection tid → w.mutex = some tid
  alone : ∀ tid tid', w.InSection tid → w.InSection tid' → tid = tid'
  once : Balanced (tr.map fun e => (e.tid, e.call.use)) w.mutex

variable {σ : Type} {build : Build} {os : Os σ} {w t : World σ}

theorem write_use (p : WritePc) (data : List UInt8) : (p.call data).use = .other := by
  cases p <;> rfl

/-- A `write_to_file` in which nothing has failed goes on, or returns 0. -/
theorem write_resume {p : WritePc} {a : Answer} {next : WritePc ⊕ Bool}
    (h : p.resume a = some next) (hrec : (Pc.writing p).recovering = false) (ha : a ≠ .failed) :
    next = .inr true ∨ ∃ p', next = .inl p' ∧ (Pc.writing p').recovering = false := by
  cases p <;> cases a <;>
    simp only [WritePc.resume, Option.some.injEq, reduceCtorEq, ne_eq, not_true_eq_false,
      Pc.recovering] at h hrec ha <;>
    subst h
  case closeFile.done => exact Or.inl rfl
  all_goals exact Or.inr ⟨_, rfl, rfl⟩

/-- A step of a handler goes behind the lock only by locking, and comes out by unlocking, unless
it recovers from a failed write. -/
theorem conn_bracketed {c c' : Conn} {e : Call × Answer} (h : c.step build e = some c')
    (hrec : c.pc.recovering = false) (hfail : ∀ p, c.pc = .writing p → e.2 ≠ .failed) :
    c'.pc.recovering = false ∧
      Bracketed e.1.use (c.pc.holding = true) (c'.pc.holding = true) := by
  obtain ⟨call, a⟩ := e
  cases move_of_step h
  case writes w w' hw =>
    rcases write_resume hw hrec (hfail w rfl) with hnext | ⟨p, hnext, hp⟩ <;> cases hnext
    exact ⟨hp, by rw [write_use]; exact fun _ => rfl⟩
  case wrote w ok hw =>
    rcases write_resume hw hrec (hfail w rfl) with hnext | ⟨p, hnext, -⟩ <;> cases hnext
    exact ⟨rfl, by rw [write_use]; exact fun _ => rfl⟩
  case stored =>
    dsimp only
    split_ifs <;> exact ⟨rfl, id⟩
  case dispatched => cases build <;> exact ⟨rfl, id⟩
  case locked | lockedSeek => exact ⟨rfl, trivial⟩
  case closedUnsent c s fd ha => cases s <;> exact ⟨rfl, fun _ => rfl⟩
  case finished c =>
    unfold Conn.finish
    cases c.packetBuf <;> exact ⟨rfl, id⟩
  case writeGivenUp => cases hrec
  all_goals
    first
      | exact ⟨rfl, rfl, Bool.false_ne_true⟩
      | exact ⟨rfl, fun _ => rfl⟩
      | exact ⟨rfl, id⟩

theorem stamp_bracketed {s s' : Stamp} {a : Answer} (h : s.resume a = some s') :
    Bracketed s.call.use (s.pc.holding = true) (s'.pc.holding = true) := by
  obtain ⟨pc, timeStr⟩ := s
  cases pc with
  | writing p =>
    obtain ⟨next, -, rfl⟩ := Option.map_eq_some_iff.mp h
    simp only [Stamp.call, write_use]
    exact fun _ => rfl
  | sleep =>
    cases a <;> simp only [Stamp.resume, Option.some.injEq, reduceCtorEq] at h
    exact h ▸ nofun
  | lock => trivial
  | unlock =>
    cases a <;> simp only [Stamp.resume, Option.some.injEq, reduceCtorEq] at h
    exact h ▸ ⟨rfl, Bool.false_ne_true⟩

/-- A thread's step changes no other thread, except that it may start one. -/
theorem at_other {P : Pc → Bool} {Q : StampPc → Bool} (hP : P .recv = false)
    (hQ : Q .sleep = false) {e : Event} (h : w.step build os e = some t) {tid : Tid}
    (hne : tid ≠ e.tid) : t.At P Q tid → w.At P Q tid := by
  obtain ⟨-, s, m, u, -, -, hu, rfl⟩ := World.step_eq_some.mp h
  obtain ⟨tid', call, a⟩ := e
  cases tid with
  | main => exact id
  | stamp =>
    rintro ⟨s, hs, hq⟩
    cases tid' with
    | main =>
      rcases (resumeMain_cases (World.thread_main.mp hu).2).2 with heq | ⟨-, heq⟩
      · exact ⟨s, heq ▸ hs, hq⟩
      · simp only [heq, Option.some.injEq] at hs
        subst hs
        simp [Stamp.start, hQ] at hq
    | stamp => exact absurd rfl hne
    | client j =>
      obtain ⟨c, c', -, -, rfl⟩ := World.thread_client.mp hu
      exact ⟨s, hs, hq⟩
  | client i =>
    rintro ⟨c, hc, hp⟩
    cases tid' with
    | main =>
      rcases (resumeMain_cases (World.thread_main.mp hu).2).1 with heq | ⟨fd, -, heq⟩
      · exact ⟨c, heq ▸ hc, hp⟩
      · simp only [heq] at hc
        by_cases hi : i < w.clients.length
        · exact ⟨c, by rwa [List.getElem?_append_left hi] at hc, hp⟩
        · rw [List.getElem?_append_right (Nat.le_of_not_lt hi)] at hc
          rw [List.mem_singleton.mp (List.mem_of_getElem? hc)] at hp
          simp [Conn.start, hP] at hp
    | stamp =>
      obtain ⟨s, s', -, -, -, rfl⟩ := World.thread_stamp.mp hu
      exact ⟨c, hc, hp⟩
    | client j =>
      obtain ⟨d, d', -, -, rfl⟩ := World.thread_client.mp hu
      have hij : j ≠ i := by
        rintro rfl
        exact hne rfl
      rw [List.getElem?_set_ne hij] at hc
      exact ⟨c, hc, hp⟩

theorem step_call {e : Event} (h : w.step build os e = some t) : w.call e.tid = some e.call := by
  obtain ⟨-, s, m, u, -, -, hu, -⟩ := World.step_eq_some.mp h
  obtain ⟨tid, call, a⟩ := e
  cases tid with
  | main => exact congrArg some (World.thread_main.mp hu).1
  | stamp =>
    obtain ⟨s, -, hs, hcall, -⟩ := World.thread_stamp.mp hu
    simp [World.call, hs, hcall]
  | client i =>
    obtain ⟨c, c', hc, hstep, -⟩ := World.thread_client.mp hu
    simp [World.call, hc, (Conn.step_eq_some.mp hstep).1]

/-- No handler is recovering from a failed write. -/
def Steady (w : World σ) : Prop :=
  ∀ (i : Nat) (c : Conn), w.clients[i]? = some c → c.pc.recovering = false

theorem steady_iff : Steady w ↔ ∀ tid, ¬ w.At Pc.recovering (fun _ => false) tid := by
  constructor
  · intro h tid hat
    cases tid with
    | main => exact hat
    | stamp => simp [World.At] at hat
    | client i =>
      obtain ⟨c, hc, hp⟩ := hat
      simp [h i c hc] at hp
  · intro h i c hc
    by_contra hp
    exact h (.client i) ⟨c, hc, by simpa using hp⟩

/-- One step of any thread, as long as no write of a handler fails. -/
theorem step_bracketed {e : Event} (h : w.step build os e = some t) (hsteady : Steady w)
    (hok : ¬ w.WriteFails e) :
    Steady t ∧ Bracketed e.call.use (w.Holding e.tid) (t.Holding e.tid) := by
  have hother : ∀ tid, tid ≠ e.tid → ¬ t.At Pc.recovering (fun _ => false) tid := fun tid hne hat =>
    steady_iff.mp hsteady tid (at_other rfl rfl h hne hat)
  have hself : ¬ t.At Pc.recovering (fun _ => false) e.tid → Steady t := fun hat =>
    steady_iff.mpr fun tid => if htid : tid = e.tid then htid ▸ hat else hother tid htid
  obtain ⟨-, s, m, u, -, -, hu, rfl⟩ := World.step_eq_some.mp h
  obtain ⟨tid, call, a⟩ := e
  cases tid with
  | main =>
    rw [← (World.thread_main.mp hu).1, main_use]
    exact ⟨hself id, id⟩
  | stamp =>
    obtain ⟨st, st', hst, rfl, hres, rfl⟩ := World.thread_stamp.mp hu
    refine ⟨hself (by simp [World.At]), ?_⟩
    simpa [World.Holding, World.At, hst] using stamp_bracketed hres
  | client i =>
    obtain ⟨c, c', hc, hstep, rfl⟩ := World.thread_client.mp hu
    have hi := (List.getElem?_eq_some_iff.mp hc).1
    obtain ⟨hrec, hb⟩ := conn_bracketed hstep (hsteady i c hc)
      (fun p hp hfail => hok ⟨i, c, p, rfl, hc, hp, hfail⟩)
    refine ⟨hself (by simp [World.At, List.getElem?_set_self hi, hrec]), ?_⟩
    simpa [World.Holding, World.At, hc, List.getElem?_set_self hi] using hb

theorem inSection_holding {tid : Tid} (h : w.InSection tid) : w.Holding tid := by
  cases tid with
  | main => exact h
  | stamp =>
    obtain ⟨s, hs, hq⟩ := h
    exact ⟨s, hs, by cases hpc : s.pc <;> simp_all [StampPc.holding, StampPc.inSection]⟩
  | client i =>
    obtain ⟨c, hc, hp⟩ := h
    exact ⟨c, hc, by cases hpc : c.pc <;> simp_all [Pc.holding, Pc.inSection]⟩

theorem unlock_holding {tid : Tid} (h : w.call tid = some .unlock) : w.Holding tid := by
  cases tid with
  | main =>
    have huse := main_use w.main
    rw [Option.some.inj h] at huse
    cases huse
  | stamp =>
    obtain ⟨s, hs, hcall⟩ := Option.map_eq_some_iff.mp h
    refine ⟨s, hs, ?_⟩
    cases hpc : s.pc with
    | unlock => rfl
    | writing p => rfl
    | sleep | lock => simp [Stamp.call, hpc] at hcall
  | client i =>
    obtain ⟨c, hc, hcall⟩ := Option.bind_eq_some_iff.mp h
    refine ⟨c, hc, ?_⟩
    cases hpc : c.pc <;> simp [Conn.call, hpc] at hcall <;> rfl

/-- In no state of the run does a handler's `write_to_file` fail. -/
def WritesSucceed (build : Build) (os : Os σ) (s : σ) (tr : List Event) : Prop :=
  ∀ pre e post w, tr = pre ++ e :: post →
    run (World.step build os) (World.start build s) pre = some w → ¬ w.WriteFails e

theorem WritesSucceed.init {s : σ} {tr post : List Event}
    (h : WritesSucceed build os s (tr ++ post)) : WritesSucceed build os s tr :=
  fun pre e post' w htr => h pre e (post' ++ post) w (by simp [htr])

theorem run_disciplined {s : σ} {tr : List Event}
    (h : run (World.step build os) (World.start build s) tr = some w)
    (hok : WritesSucceed build os s tr) :
    Steady w ∧ Guarded w.mutex w.Holding ∧ Disciplined tr w := by
  have hdisciplined : ∀ {es : List Event} {u : World σ}, Guarded u.mutex u.Holding →
      Balanced (es.map fun e => (e.tid, e.call.use)) u.mutex → Disciplined es u := by
    intro es u hg hb
    exact ⟨fun tid htid => hg tid (unlock_holding htid),
      fun tid htid => hg tid (inSection_holding htid),
      fun tid tid' h h' => hg.alone (inSection_holding h) (inSection_holding h'), hb⟩
  revert hok
  refine run_invariant (I := fun tr w => WritesSucceed build os s tr →
    Steady w ∧ Guarded w.mutex w.Holding ∧ Disciplined tr w) ?_ ?_ h
  · intro _
    have hg : Guarded (World.start build s).mutex (World.start build s).Holding := by
      intro tid hat
      cases tid <;> simp [World.Holding, World.At, World.start] at hat
    exact ⟨by simp [Steady, World.start], hg, hdisciplined hg balanced_nil⟩
  · intro es u e v hu hv ih hok
    obtain ⟨hsteady, hg, hd⟩ := ih hok.init
    obtain ⟨hsteady', hb⟩ := step_bracketed hv hsteady (hok es e [] u rfl hu)
    have hmutex : after u.mutex e.tid e.call.use = some v.mutex := by
      obtain ⟨-, s, m, w, -, hm, -, rfl⟩ := World.step_eq_some.mp hv
      exact hm
    have hg' := hg.step hmutex (fun tid hne => at_other rfl rfl hv hne) hb
    refine ⟨hsteady', hg', hdisciplined hg' ?_⟩
    rw [List.map_append]
    refine hd.once.step hmutex fun huse => hd.unlock _ ?_
    rw [step_call hv]
    cases hcall : e.call <;> simp [hcall, Call.use] at huse
    rfl

/-- A failed write is still being recovered from after the step, or the handler has unlocked and
opens the file once more. -/
theorem recovering_step {c c' : Conn} {e : Call × Answer} (h : c.step build e = some c')
    (hrec : c.pc.recovering = true) :
    c'.pc.recovering = true ∨ e.1 = .unlock ∧ c'.pc.inSection = true := by
  obtain ⟨call, a⟩ := e
  cases move_of_step h
  case writes w w' hw => cases w <;> cases hrec <;> cases a <;> cases hw
  case wrote w ok hw =>
    refine Or.inl ?_
    cases w <;> cases hrec <;> cases a <;> cases hw <;> rfl
  case writeGivenUp => exact Or.inr ⟨rfl, rfl⟩
  all_goals cases hrec

theorem failed_recovering {c c' : Conn} {e : Call × Answer} (h : c.step build e = some c')
    {p : WritePc} (hpc : c.pc = .writing p) (hfail : e.2 = .failed) : c'.pc.recovering = true := by
  obtain ⟨call, a⟩ := e
  obtain rfl : a = .failed := hfail
  cases move_of_step h <;> cases hpc
  case writes hw | wrote hw => cases p <;> cases hw <;> rfl

/-- In a run without a state out of order, a handler does not get past a failed write. -/
theorem recovering_run {post : List Event} (h : run (World.step build os) w post = some t) {i : Nat}
    (hall : ∀ pre v, pre <+: post → run (World.step build os) w pre = some v →
      ∀ tid, v.InSection tid → v.mutex = some tid)
    (hrec : ∃ c, w.clients[i]? = some c ∧ c.pc.recovering = true) :
    ∃ c, t.clients[i]? = some c ∧ c.pc.recovering = true := by
  revert hall
  refine run_invariant (I := fun post t => (∀ pre v, pre <+: post →
    run (World.step build os) w pre = some v → ∀ tid, v.InSection tid → v.mutex = some tid) →
      ∃ c, t.clients[i]? = some c ∧ c.pc.recovering = true) (fun _ => hrec) ?_ h
  intro es u e v hu hv ih hall
  obtain ⟨c, hc, hrec⟩ := ih fun pre x hpre => hall pre x (hpre.trans (List.prefix_append _ _))
  have hv' := hall _ v List.prefix_rfl (run_concat_eq_some.mpr ⟨u, hu, hv⟩) (.client i)
  by_cases hne : e.tid = .client i
  · obtain ⟨-, s, m, x, -, hm, hx, rfl⟩ := World.step_eq_some.mp hv
    obtain ⟨tid, call, a⟩ := e
    subst hne
    obtain ⟨d, d', hd, hstep, rfl⟩ := World.thread_client.mp hx
    rw [hc] at hd
    cases hd
    have hi := (List.getElem?_eq_some_iff.mp hc).1
    have hd' : (u.clients.set i d')[i]? = some d' := List.getElem?_set_self hi
    rcases recovering_step hstep hrec with hrec' | ⟨rfl, hin⟩
    · exact ⟨d', hd', hrec'⟩
    · cases hm
      exact absurd (hv' ⟨d', hd', hin⟩) nofun
  · exact ⟨c, client_kept hv hne hc, hrec⟩

/-- Whatever the calls answer: every thread keeps to the mutex in every state of a run in which
no handler's `write_to_file` fails; and a run that has left no handler in the middle of such a
failure keeps to it only if there was none. -/
theorem lock_discipline_iff (build : Build) (os : Os σ) (s : σ) (tr : List Event) (w : World σ)
    (h : run (World.step build os) (World.start build s) tr = some w) :
    (WritesSucceed build os s tr → ∀ pre u, pre <+: tr →
        run (World.step build os) (World.start build s) pre = some u → Disciplined pre u) ∧
      (Steady w → ((∀ pre u, pre <+: tr →
        run (World.step build os) (World.start build s) pre = some u → Disciplined pre u) ↔
          WritesSucceed build os s tr)) := by
  have hforward : WritesSucceed build os s tr → ∀ pre u, pre <+: tr →
      run (World.step build os) (World.start build s) pre = some u → Disciplined pre u := by
    rintro hok pre u ⟨post, rfl⟩ hpre
    exact (run_disciplined hpre hok.init).2.2
  refine ⟨hforward, fun hsteady => ⟨?_, hforward⟩⟩
  rintro hall pre e post u rfl hu ⟨i, c, p, htid, hc, hpc, hfail⟩
  rw [List.append_cons] at h hall
  obtain ⟨v, hv, hpost⟩ := run_append_eq_some.mp h
  obtain ⟨u', hu', hstep⟩ := run_concat_eq_some.mp hv
  rw [hu] at hu'
  cases hu'
  have hrec : ∃ c, v.clients[i]? = some c ∧ c.pc.recovering = true := by
    obtain ⟨-, s', m, x, -, -, hx, rfl⟩ := World.step_eq_some.mp hstep
    obtain ⟨tid, call, a⟩ := e
    subst htid
    obtain ⟨d, d', hd, hconn, rfl⟩ := World.thread_client.mp hx
    rw [hc] at hd
    cases hd
    exact ⟨d', List.getElem?_set_self (List.getElem?_eq_some_iff.mp hc).1,
      failed_recovering hconn hpc hfail⟩
  obtain ⟨c', hc', hrec'⟩ := recovering_run hpost (fun pre' x hpre hx =>
    (hall (pre ++ [e] ++ pre') x (List.prefix_append_right_inj _ |>.mpr hpre)
      (run_append_eq_some.mpr ⟨v, hv, hx⟩)).inside) hrec
  simp [hsteady i c' hc'] at hrec'

/-- The file cannot be opened for the client's line, and the timestamp thread takes the mutex in
between. -/
def unlockedEarly : List Event :=
  connected ++ [(.recv, .bytes [10]), (.tau, .done), (.realloc 1024, .memory (List.replicate 1024 0)),
    (.tau, .done), (.process [10], .memory []), (.lock [10], .done), (.openFile .append, .failed),
    (.unlock, .done)].map (fun (call, a) => ⟨.client 0, call, a⟩) ++
  [⟨.stamp, .time, .time ⟨2024, 2, 29, 23, 59, 59⟩⟩,
    ⟨.stamp, .lock (timestamp ⟨2024, 2, 29, 23, 59, 59⟩), .done⟩]

theorem lock_discipline_served : ∃ w,
    run (World.step .file anyAnswer) (World.start .file ()) inTurn = some w ∧
      Disciplined inTurn w := by
  obtain ⟨w, hw⟩ := Option.isSome_iff_exists.mp (show
    (run (World.step .file anyAnswer) (World.start .file ()) inTurn).isSome = true by decide +kernel)
  refine ⟨w, hw, (lock_discipline_iff .file anyAnswer () inTurn w hw).1 ?_ _ _ List.prefix_rfl hw⟩
  rintro pre e post u hsplit - ⟨i, c, p, -, -, -, hfail⟩
  have hnone : ∀ e ∈ inTurn, e.answer ≠ .failed := by decide +kernel
  exact hnone e (by rw [hsplit]; simp) hfail

/-- The handler is about to read the file back while the timestamp thread writes to it. -/
theorem unlocked_early : ¬ ∀ (build : Build) (os : Os Unit) (s : Unit) (tr : List Event)
    (w : World Unit), run (World.step build os) (World.start build s) tr = some w →
      Disciplined tr w := by
  intro hall
  obtain ⟨w, hw⟩ := Option.isSome_iff_exists.mp (show (run (World.step .file anyAnswer)
    (World.start .file ()) unlockedEarly).isSome = true by decide +kernel)
  have hpoints : (run (World.step .file anyAnswer) (World.start .file ()) unlockedEarly).map
      (fun w => (w.clients.map Conn.pc, w.stamp.map Stamp.pc)) =
        some ([.sendOpen], some (.writing .openFile)) := by decide +kernel
  simp only [hw, Option.map_some, Option.some.injEq, Prod.mk.injEq, Option.map_eq_some_iff] at hpoints
  obtain ⟨hclients, st, hst, hpc⟩ := hpoints
  obtain ⟨c, hc, hcpc⟩ := List.map_eq_singleton_iff.mp hclients
  have hd := hall .file anyAnswer () unlockedEarly w hw
  have halone := hd.alone (.client 0) .stamp ⟨c, by simp [hc], by simp [hcpc, Pc.inSection]⟩
    ⟨st, hst, by simp [hpc, StampPc.inSection]⟩
  cases halone

end Aesd.Server
