import Aesd.Server.Locking
import Aesd.Server.Registry
import Aesd.Server.Sections

/-!
# Who waits for whom

A thread of the server waits for another one at two places: for the mutex, and
`main` in `pthread_join`. Even after failed writes, with their second unlock,
the mutex is never left behind by a thread that is through with it, and nobody
waits for a thread that waits itself.
-/
namespace Aesd.Server

open PartialRun Exclusion

/-- The points at which a handler still has an unlock or the end of the process before it. -/
def Pc.engaged : Pc → Bool
  | .exiting => true
  | pc => pc.holding

/-- `tid` cannot go on before `other` has moved. -/
inductive World.Waits {σ : Type} (w : World σ) : Tid → Tid → Prop
  | mutex {tid other : Tid} {packet : List UInt8} (hcall : w.call tid = some (.lock packet))
      (hheld : w.mutex = some other) : Waits w tid other
  | join {i : Nat} {items : List Nat} {c : Conn} (hmain : w.main = .joining i items)
      (hc : w.clients[i]? = some c) (hpc : c.pc ≠ .returned) : Waits w .main (.client i)

def World.Engaged {σ : Type} : World σ → Tid → Prop := World.At Pc.engaged StampPc.holding

variable {σ : Type} {build : Build} {os : Os σ} {w t : World σ} {c c' : Conn} {e : Call × Answer}

/-- A handler that has the mutex gives it back or ends the process. -/
theorem conn_engaged (h : c.step build e = some c') :
    (e.1.use = .acquire → c'.pc.engaged = true) ∧
      (e.1.use = .other → c.pc.engaged = true → c'.pc.engaged = true) := by
  obtain ⟨call, a⟩ := e
  cases move_of_step h
  case writes => exact ⟨fun _ => rfl, fun _ _ => rfl⟩
  case wrote w ok hw => cases ok <;> exact ⟨fun _ => rfl, fun _ _ => rfl⟩
  case closedUnsent c s fd ha => cases s <;> exact ⟨fun _ => rfl, fun _ _ => rfl⟩
  case locked | lockedSeek => exact ⟨fun _ => rfl, fun _ _ => rfl⟩
  all_goals
    constructor
    · intro huse
      cases huse
    · intro huse hpc
      first
        | rfl
        | exact Use.noConfusion huse
        | exact Bool.noConfusion hpc

theorem stamp_engaged {s s' : Stamp} {a : Answer} (h : s.resume a = some s') :
    (s.call.use = .acquire → s'.pc.holding = true) ∧
      (s.call.use = .other → s.pc.holding = true → s'.pc.holding = true) := by
  obtain ⟨pc, timeStr⟩ := s
  cases pc with
  | writing p =>
    obtain ⟨next, -, rfl⟩ := Option.map_eq_some_iff.mp h
    cases next <;> exact ⟨fun _ => rfl, fun _ _ => rfl⟩
  | sleep | unlock =>
    constructor
    · intro huse
      cases huse
    · intro huse hpc
      first
        | exact Use.noConfusion huse
        | exact Bool.noConfusion hpc
  | lock =>
    cases a <;> simp only [Stamp.resume, Option.some.injEq, reduceCtorEq] at h
    exact h ▸ ⟨fun _ => rfl, fun _ _ => rfl⟩

/-- The other threads stay where they are. -/
theorem at_kept {P : Pc → Bool} {Q : StampPc → Bool} {e : Event} (h : w.step build os e = some t)
    (hstamp : w.main.starting = true → w.stamp = none) {tid : Tid} (hne : tid ≠ e.tid)
    (hat : w.At P Q tid) : t.At P Q tid := by
  cases tid with
  | main => exact hat
  | client i =>
    obtain ⟨c, hc, hp⟩ := hat
    exact ⟨c, client_kept h (Ne.symm hne) hc, hp⟩
  | stamp =>
    obtain ⟨st, hst, hq⟩ := hat
    obtain ⟨-, s, m, u, -, -, hu, rfl⟩ := World.step_eq_some.mp h
    obtain ⟨tid, call, a⟩ := e
    cases tid with
    | stamp => exact absurd rfl hne
    | client j =>
      obtain ⟨c, c', -, -, rfl⟩ := World.thread_client.mp hu
      exact ⟨st, hst, hq⟩
    | main =>
      rcases (resumeMain_cases (World.thread_main.mp hu).2).2 with hsame | ⟨hmain, -⟩
      · exact ⟨st, hsame.trans hst, hq⟩
      · simp [hstamp (by rw [hmain]; rfl)] at hst

/-- What a step does to its own thread, as far as the mutex is concerned. -/
theorem step_engaged {e : Event} (h : w.step build os e = some t) :
    (e.call.use = .acquire → t.Engaged e.tid) ∧
      (e.call.use = .other → w.Engaged e.tid → t.Engaged e.tid) := by
  obtain ⟨-, s, m, u, -, -, hu, rfl⟩ := World.step_eq_some.mp h
  obtain ⟨tid, call, a⟩ := e
  cases tid with
  | main =>
    rw [← (World.thread_main.mp hu).1, main_use]
    exact ⟨fun huse => (by cases huse), fun _ => id⟩
  | stamp =>
    obtain ⟨st, st', hst, rfl, hres, rfl⟩ := World.thread_stamp.mp hu
    obtain ⟨hacquire, hother⟩ := stamp_engaged hres
    refine ⟨fun huse => ⟨st', rfl, hacquire huse⟩, ?_⟩
    rintro huse ⟨st₁, hst₁, hq⟩
    rw [hst] at hst₁
    cases hst₁
    exact ⟨st', rfl, hother huse hq⟩
  | client i =>
    obtain ⟨c, c', hc, hstep, rfl⟩ := World.thread_client.mp hu
    have hset : (w.clients.set i c')[i]? = some c' :=
      List.getElem?_set_self (List.getElem?_eq_some_iff.mp hc).1
    obtain ⟨hacquire, hother⟩ := conn_engaged hstep
    refine ⟨fun huse => ⟨c', hset, hacquire huse⟩, ?_⟩
    rintro huse ⟨c₁, hc₁, hp⟩
    rw [hc] at hc₁
    cases hc₁
    exact ⟨c', hset, hother huse hp⟩

theorem run_attended {s : σ} {tr : List Event}
    (h : run (World.step build os) (World.start build s) tr = some w) :
    Attended w.mutex w.Engaged := by
  refine run_invariant (I := fun _ w => Attended w.mutex w.Engaged) ?_ ?_ h
  · intro tid htid
    cases htid
  · intro es u e v hu hv ih
    have hmutex : after u.mutex e.tid e.call.use = some v.mutex := by
      obtain ⟨-, s, m, w, -, hm, -, rfl⟩ := World.step_eq_some.mp hv
      exact hm
    exact ih.step hmutex (fun tid hne => at_kept hv (run_stamp_recorded hu).1 hne) (step_engaged hv)

/-- An engaged thread does not wait for the mutex. -/
theorem engaged_call {tid : Tid} {packet : List UInt8} (h : w.Engaged tid) :
    w.call tid ≠ some (.lock packet) := by
  cases tid with
  | main => exact h.elim
  | stamp =>
    obtain ⟨st, hst, hq⟩ := h
    cases hpc : st.pc with
    | writing p => cases p <;> simp [World.call, hst, Stamp.call, hpc, WritePc.call]
    | sleep | lock => simp [hpc, StampPc.holding, StampPc.inSection] at hq
    | unlock => simp [World.call, hst, Stamp.call, hpc]
  | client i =>
    obtain ⟨c, hc, hp⟩ := h
    cases hpc : c.pc with
    | writing p => cases p <;> simp [World.call, hc, Conn.call, hpc, WritePc.call]
    | lock seekto => simp [hpc, Pc.engaged, Pc.holding, Pc.inSection] at hp
    | _ => simp [World.call, hc, Conn.call, hpc]

/-- A handler sets its flag with nothing but the closing of its socket before it. -/
theorem flag_step (h : c.step build e = some c')
    (hflag : c.threadCompleteSuccess = true → c.pc = .closeClient ∨ c.pc = .returned) :
    c'.threadCompleteSuccess = true → c'.pc = .closeClient ∨ c'.pc = .returned := by
  obtain ⟨call, a⟩ := e
  cases move_of_step h
  case finished c =>
    intro _
    unfold Conn.finish
    cases c.packetBuf <;> exact Or.inl rfl
  case closedClient => exact fun _ => Or.inr rfl
  case dispatched =>
    intro ht
    cases build <;> rcases hflag ht with hpc | hpc <;> cases hpc
  all_goals
    intro ht
    rcases hflag ht with hpc | hpc <;> cases hpc

theorem run_flag {fd : Nat} {tr : Trace} (h : run (Conn.step build) (Conn.start fd) tr = some c) :
    c.threadCompleteSuccess = true → c.pc = .closeClient ∨ c.pc = .returned :=
  run_invariant (I := fun _ c => c.threadCompleteSuccess = true → c.pc = .closeClient ∨ c.pc = .returned)
    (fun hflag => by cases hflag) (fun _ _ _ _ _ ht ih => flag_step ht ih) h

/-- A thread `main` waits for has its flag set. -/
theorem joined_closing {s : σ} {tr : List Event}
    (h : run (World.step build os) (World.start build s) tr = some w) {i : Nat} {items : List Nat}
    (hmain : w.main = .joining i items) (hc : w.clients[i]? = some c) :
    c.pc = .closeClient ∨ c.pc = .returned := by
  have hflag := (run_kept h).flagged i items hmain
  rw [hc] at hflag
  exact run_flag ((run_project h i).2 c hc) (Option.some.inj hflag)

/-- `pthread_join` never waits for a client or for the mutex: whatever the clients do, the thread
it waits for has ended, or has only its `close` before it. -/
theorem join_waits_for_close (build : Build) (os : Os σ) (s : σ) (tr : List Event) (w : World σ)
    (h : run (World.step build os) (World.start build s) tr = some w) (i : Nat) (items : List Nat)
    (hmain : w.main = .joining i items) : ∃ c, w.clients[i]? = some c ∧
      (c.pc = .returned ∨ c.call = some (.closeClient c.clientFd) ∧
        ∀ a c', c.step build (.closeClient c.clientFd, a) = some c' → c'.pc = .returned) := by
  have hflag := (run_kept h).flagged i items hmain
  obtain ⟨c, hc, -⟩ := Option.map_eq_some_iff.mp hflag
  refine ⟨c, hc, ?_⟩
  rcases joined_closing h hmain hc with hpc | hpc
  · refine Or.inr ⟨by simp [Conn.call, hpc], fun a c' hstep => ?_⟩
    have hres := (Conn.step_eq_some.mp hstep).2
    cases a <;> simp only [Conn.resume, hpc, Option.some.injEq, reduceCtorEq] at hres
    · rw [← hres]
    · rw [← hres]
  · exact Or.inl hpc

/-- The first client has hung up, and `main` joins its thread before the socket is closed. -/
def joining : List Event :=
  connectedDevice ++ ([⟨.main, .tau, .done⟩, ⟨.main, .tau, .done⟩, ⟨.main, .tau, .done⟩] : List Event) ++
    byClient 0 [(.recv, .bytes [97]), (.tau, .done), (.realloc 1024, .memory (List.replicate 1024 0)),
      (.tau, .done), (.tau, .done), (.recv, .bytes []), (.tau, .done)] ++
    ([⟨.main, .accept, .fd 5⟩, ⟨.main, .createThread, .done⟩, ⟨.main, .tau, .done⟩,
      ⟨.main, .tau, .done⟩] : List Event)

theorem join_waits_for_close_hungup : ∃ w c,
    run (World.step .driver anyAnswer) (World.start .driver ()) joining = some w ∧
      w.clients[0]? = some c ∧ (c.pc = .returned ∨ c.call = some (.closeClient c.clientFd)) := by
  obtain ⟨w, hw⟩ := Option.isSome_iff_exists.mp (show
    (run (World.step .driver anyAnswer) (World.start .driver ()) joining).isSome = true by
      decide +kernel)
  have hmain : (run (World.step .driver anyAnswer) (World.start .driver ()) joining).map
      World.main = some (.joining 0 [1]) := by decide +kernel
  rw [hw] at hmain
  obtain ⟨c, hc, hend⟩ :=
    join_waits_for_close .driver anyAnswer () joining w hw 0 [1] (Option.some.inj hmain)
  exact ⟨w, c, hw, hc, hend.imp_right And.left⟩

/-- Even after failed writes the mutex is never left behind: whoever has locked it last is
still between its lock and its unlock, or about to end the process. -/
theorem mutex_never_left (build : Build) (os : Os σ) (s : σ) (tr : List Event) (w : World σ)
    (h : run (World.step build os) (World.start build s) tr = some w) (tid : Tid)
    (hheld : w.mutex = some tid) : w.Holding tid ∨ w.call tid = some .exit := by
  cases tid with
  | main => exact (run_attended h _ hheld).elim
  | stamp => exact Or.inl (run_attended h _ hheld)
  | client i =>
    obtain ⟨c, hc, hp⟩ := run_attended h _ hheld
    by_cases hexit : c.pc = .exiting
    · exact Or.inr (by simp [World.call, hc, Conn.call, hexit])
    · refine Or.inl ⟨c, hc, ?_⟩
      cases hpc : c.pc <;> simp_all [Pc.engaged]

theorem mutex_never_left_early : ∃ w,
    run (World.step .file anyAnswer) (World.start .file ()) unlockedEarly = some w ∧
      (w.Holding .stamp ∨ w.call .stamp = some .exit) := by
  obtain ⟨w, hw⟩ := Option.isSome_iff_exists.mp (show (run (World.step .file anyAnswer)
    (World.start .file ()) unlockedEarly).isSome = true by decide +kernel)
  have hheld : (run (World.step .file anyAnswer) (World.start .file ()) unlockedEarly).map
      World.mutex = some (some .stamp) := by decide +kernel
  rw [hw] at hheld
  exact ⟨w, hw, mutex_never_left .file anyAnswer () unlockedEarly w hw .stamp (Option.some.inj hheld)⟩

/-- Nobody waits for a thread that waits itself, so that no threads wait for each other. -/
theorem no_wait_chain (build : Build) (os : Os σ) (s : σ) (tr : List Event) (w : World σ)
    (h : run (World.step build os) (World.start build s) tr = some w) (a b : Tid)
    (hwait : w.Waits a b) (c : Tid) : ¬ w.Waits b c := by
  intro hnext
  cases hwait with
  | mutex hcall hheld =>
    have hengaged := run_attended h b hheld
    cases hnext with
    | mutex hcall' _ => exact engaged_call hengaged hcall'
    | join => exact hengaged
  | @join i items d hmain hc hpc =>
    cases hnext with
    | mutex hcall' _ =>
      have hclosing := (joined_closing h hmain hc).resolve_right hpc
      simp [World.call, hc, Conn.call, hclosing] at hcall'

/-- The client has the mutex when the timestamp thread wants it. -/
def contended : List Event :=
  connected ++ byClient 0 (lineIn [10]) ++ byClient 0 [(.lock [10], .done)] ++
    ([⟨.stamp, .time, .time ⟨2024, 2, 29, 23, 59, 59⟩⟩] : List Event)

theorem no_wait_chain_contended : ∃ w,
    run (World.step .file anyAnswer) (World.start .file ()) contended = some w ∧
      w.Waits .stamp (.client 0) ∧ ∀ c, ¬ w.Waits (.client 0) c := by
  obtain ⟨w, hw⟩ := Option.isSome_iff_exists.mp (show (run (World.step .file anyAnswer)
    (World.start .file ()) contended).isSome = true by decide +kernel)
  have hpoint : (run (World.step .file anyAnswer) (World.start .file ()) contended).map
      (fun w => (w.mutex, w.call .stamp)) = some (some (.client 0),
        some (.lock (timestamp ⟨2024, 2, 29, 23, 59, 59⟩))) := by decide +kernel
  rw [hw] at hpoint
  obtain ⟨hheld, hcall⟩ := Prod.mk.inj (Option.some.inj hpoint)
  have hwait : w.Waits .stamp (.client 0) := .mutex hcall hheld
  exact ⟨w, hw, hwait, no_wait_chain .file anyAnswer () contended w hw .stamp (.client 0) hwait⟩

end Aesd.Server
