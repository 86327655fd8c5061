import Aesd.Server.Descriptors
import Aesd.Server.Locking
import Aesd.Server.Reclaim
import Aesd.Server.Silence

/-!
# One connection's end

What the end of a connection means for the other ones. A client that hangs up
goes unnoticed: without its end the same run is possible for everybody else.
An answer that cannot be sent ends the process instead, and so does a connection
for which there is no memory or no thread.
-/
namespace Aesd.Server

open PartialRun Exclusion TailQueue

variable {σ : Type}

/-- With this act the server goes down: an answer cannot be sent, or there is no memory or no
thread for an accepted connection. -/
def Process.GoesDown (p : Process σ) : Act → Prop
  | .event e => (∃ data, e.call = .send data ∧ (e.answer = .failed ∨ e.answer = .killed)) ∨
      (∃ fd tdata, p.main = .create fd tdata) ∧ e.tid = .main ∧ e.answer = .failed
  | .mallocData tdata => tdata = none
  | .mallocThread thread => thread = none

/-- The points of `main` before it accepts connections. -/
def ListPc.starting : ListPc → Bool
  | .clear | .clearClose _ | .setup | .createStamp => true
  | _ => false

/-- The client is gone, or `recv` fails. -/
def HangsUp (i : Nat) (e : Event) : Prop :=
  e.tid = .client i ∧ e.call = .recv ∧ (e.answer = .bytes [] ∨ e.answer = .failed)

/-- The run `acts'` differs from the run `acts` by the end of connection `i`: its handler still
waits for bytes that do not come. Nothing else differs but what `main` does with its list, and the
other threads can do next what they can do anyway. -/
structure WithoutEnd (build : Build) (os : Os σ) (i : Nat) (acts : List Act) (p : Process σ)
    (acts' : List Act) (p' : Process σ) : Prop where
  waiting : ∃ c, p'.handlers[i]? = some c ∧ c.pc = .recv
  own : project (.client i) (events acts') <+: project (.client i) (events acts)
  others : bystanders i (events acts') = bystanders i (events acts)
  recorded : sections (events acts') = sections (events acts)
  system : p'.os = p.os
  mutex : p'.mutex = p.mutex
  stamp : p'.stamp = p.stamp
  exited : p'.exited = p.exited
  fault : p'.fault = p.fault
  handlers : ∀ j, j ≠ i → p'.handlers[j]? = p.handlers[j]?
  next : ∀ e, e.tid ≠ .main → e.tid ≠ .client i →
    (p'.step build os (.event e)).isSome = (p.step build os (.event e)).isSome

/-- What the end of connections does to the process, in one state of a run: it goes on, no handler
keeps the mutex, and for everybody else the client might as well have stopped sending. -/
structure Isolated (build : Build) (os : Os σ) (s : σ) (acts : List Act) (p : Process σ) : Prop where
  alive : p.main.starting = false → p.exited = false ∧ p.fault = false
  released : ∀ (i : Nat) (c : Conn), p.handlers[i]? = some c → c.pc.phase = .ended →
    p.mutex ≠ some (.client i)
  unnoticed : ∀ i, (∃ e ∈ events acts, HangsUp i e) → ∃ acts' p',
    run (Process.step build os) (Process.start build s) acts' = some p' ∧
      WithoutEnd build os i acts p acts' p'

/-- The server goes down somewhere in the run. -/
def Down (build : Build) (os : Os σ) (s : σ) (acts : List Act) : Prop :=
  ∃ pre act post u, acts = pre ++ act :: post ∧
    run (Process.step build os) (Process.start build s) pre = some u ∧ u.GoesDown act

/-- The process has ended, a handler is on its way to `exit`, or `main` is about to give a NULL to
`pthread_create`. -/
def Process.Leaving (p : Process σ) : Prop :=
  p.exited = true ∨ p.fault = true ∨
    (∃ (i : Nat) (c : Conn), p.handlers[i]? = some c ∧ c.pc.phase = .leaving) ∨
      ∃ fd tdata, p.main = .create fd tdata ∧ (p.activeThreads.data tdata).bind ThreadData.thread = none

/-- The same of an event alone. -/
def World.GoesDown (w : World σ) (e : Event) : Prop :=
  (∃ data, e.call = .send data ∧ (e.answer = .failed ∨ e.answer = .killed)) ∨
    (∃ fd, w.main = .create fd) ∧ e.tid = .main ∧ e.answer = .failed

variable {build : Build} {os : Os σ} {w u t : World σ} {p p' : Process σ} {act : Act}

/-- The handler stays in the process, and behind the lock until it unlocks. -/
def Pc.stays (use : Use) (before behind : Pc) : Bool :=
  behind.phase ≠ .leaving && match use with
    | .acquire => behind.holding
    | .release => true
    | .other => !before.holding || behind.holding

theorem conn_stays {c c' : Conn} {call : Call} {a : Answer} (h : c.step build (call, a) = some c')
    (hleave : c.pc.phase ≠ .leaving) (hsend : ∀ data, call = .send data → a ≠ .failed ∧ a ≠ .killed) :
    c.pc.stays call.use c'.pc = true := by
  cases move_of_step h
  case notSent rest => exact absurd rfl (hsend rest rfl).1
  case killed rest => exact absurd rfl (hsend rest rfl).2
  case closedUnsent | unlockedUnsent | exited => exact absurd rfl hleave
  case writes => rw [write_use]; rfl
  case wrote ok _ =>
    rw [write_use]
    cases ok <;> rfl
  case stored =>
    simp only
    split_ifs <;> rfl
  case dispatched => cases build <;> rfl
  case finished =>
    unfold Conn.finish
    split <;> rfl
  all_goals rfl

theorem exit_leaves {c : Conn} (h : c.call = some .exit) : c.pc.phase = .leaving := by
  cases hpc : c.pc <;> simp only [Conn.call, hpc, Option.some.injEq, reduceCtorEq] at h
  case writing w => cases w <;> cases h
  rfl

theorem conn_goes_on {c c' : Conn} {call : Call} {a : Answer} (h : c.step build (call, a) = some c')
    (hleave : c.pc.phase ≠ .leaving) (hsend : ∀ data, call = .send data → a ≠ .failed ∧ a ≠ .killed) :
    endsProcess call a = false := by
  obtain ⟨hcall, -⟩ := Conn.step_eq_some.mp h
  unfold endsProcess
  split
  · exact absurd (exit_leaves hcall) hleave
  · obtain ⟨-, data, rfl⟩ := conn_killed h
    exact absurd rfl (hsend data rfl).2
  · rfl

/-- Nobody leaves the process, and a handler that has the mutex is on its way to unlock it. -/
structure Safe (w : World σ) : Prop where
  inside : ∀ (i : Nat) (c : Conn), w.clients[i]? = some c → c.pc.phase ≠ .leaving
  going : w.main.starting = false → w.exited = false
  held : ∀ i, w.mutex = some (.client i) → ∃ c, w.clients[i]? = some c ∧ c.pc.holding = true

/-- A step that is not a handler's gives the mutex to no handler. -/
theorem after_other {m m' : Option Tid} {tid : Tid} {use : Use} (h : after m tid use = some m') {i : Nat}
    (hne : tid ≠ .client i) (hm : m' = some (.client i)) : m = some (.client i) := by
  cases use with
  | acquire =>
    obtain ⟨-, rfl⟩ := after_acquire h
    exact absurd (Option.some.inj hm) hne
  | release => cases h; cases hm
  | other => cases h; exact hm

theorem start_safe (s : σ) : Safe (World.start build s) := by
  refine ⟨fun i c hc => ?_, fun _ => rfl, fun i hi => ?_⟩
  · simp [World.start] at hc
  · simp [World.start] at hi

theorem Safe.step {e : Event} (hw : Safe w) (h : w.step build os e = some t) (hok : ¬ w.GoesDown e) :
    Safe t := by
  have hheld : ∀ i, e.tid ≠ .client i → t.mutex = some (.client i) →
      ∃ c, t.clients[i]? = some c ∧ c.pc.holding = true := by
    intro i hne hm
    obtain ⟨-, s, m, v, -, hafter, -, rfl⟩ := World.step_eq_some.mp h
    obtain ⟨c, hc, hhold⟩ := hw.held i (after_other hafter hne hm)
    exact ⟨c, client_kept h hne hc, hhold⟩
  obtain ⟨hgoing, s, m, v, -, hafter, hv, rfl⟩ := World.step_eq_some.mp h
  obtain ⟨tid, call, a⟩ := e
  cases tid with
  | main =>
    obtain ⟨rfl, hres⟩ := World.thread_main.mp hv
    refine ⟨fun i c hc => ?_, fun hstart => ?_, fun i => hheld i nofun⟩
    · rcases (resumeMain_cases hres).1 with hcl | ⟨fd, -, hcl⟩
      · exact hw.inside i c (hcl ▸ hc)
      · simp only [hcl] at hc
        rcases List.mem_append.mp (List.mem_of_getElem? hc) with hmem | hmem
        · obtain ⟨j, hj⟩ := List.mem_iff_getElem?.mp hmem
          exact hw.inside j c hj
        · rw [List.mem_singleton.mp hmem]
          nofun
    · rcases resumeMain_exits hres with hsame | ⟨rfl, hstart' | ⟨fd, hmain⟩⟩
      · exact hsame.trans hgoing
      · simp [hstart'] at hstart
      · exact absurd (Or.inr ⟨⟨fd, hmain⟩, rfl, rfl⟩) hok
  | stamp =>
    obtain ⟨st, st', -, -, -, rfl⟩ := World.thread_stamp.mp hv
    exact ⟨hw.inside, hw.going, fun i => hheld i nofun⟩
  | client i =>
    obtain ⟨c, c', hc, hstep, rfl⟩ := World.thread_client.mp hv
    have hsend : ∀ data, call = .send data → a ≠ .failed ∧ a ≠ .killed := by
      rintro data rfl
      exact ⟨fun ha => hok (Or.inl ⟨data, rfl, Or.inl ha⟩), fun ha => hok (Or.inl ⟨data, rfl, Or.inr ha⟩)⟩
    have hstays := conn_stays hstep (hw.inside i c hc) hsend
    simp only [Pc.stays, ne_eq, decide_not, Bool.and_eq_true, Bool.not_eq_true', decide_eq_false_iff_not]
      at hstays
    obtain ⟨hinside, hlock⟩ := hstays
    have hset : (w.clients.set i c')[i]? = some c' :=
      List.getElem?_set_self (List.getElem?_eq_some_iff.mp hc).1
    refine ⟨fun j d hd => ?_, fun _ => ?_, fun j hm => ?_⟩
    · by_cases hij : i = j
      · subst hij
        obtain rfl := Option.some.inj (hset.symm.trans hd)
        exact hinside
      · exact hw.inside j d ((List.getElem?_set_ne hij).symm.trans hd)
    · exact conn_goes_on hstep (hw.inside i c hc) hsend
    · by_cases hij : i = j
      · subst hij
        refine ⟨c', hset, ?_⟩
        cases huse : call.use <;> rw [huse] at hafter hlock
        case acquire => exact hlock
        case release => cases hafter; cases hm
        case other =>
          cases hafter
          obtain ⟨d, hd, hhold⟩ := hw.held i hm
          obtain rfl := Option.some.inj (hc.symm.trans hd)
          simpa [hhold] using hlock
      · exact hheld j (by simpa using hij) hm

theorem Safe.released {c : Conn} {i : Nat} (hw : Safe w) (hc : w.clients[i]? = some c)
    (hp : c.pc.phase = .ended) : w.mutex ≠ some (.client i) := by
  intro hm
  obtain ⟨d, hd, hhold⟩ := hw.held i hm
  obtain rfl := Option.some.inj (hc.symm.trans hd)
  cases hpc : c.pc <;> simp [hpc, Pc.phase, Pc.holding, Pc.inSection] at hp hhold

theorem recv_hungUp {c c' : Conn} {call : Call} {a : Answer} (hcall : call = .recv)
    (ha : a = .bytes [] ∨ a = .failed) (h : c.step build (call, a) = some c') :
    c.pc = .recv ∧ c' = { c with pc := .clientDone } := by
  cases move_of_step h
  case hungUp => exact ⟨rfl, rfl⟩
  case received hne => simp [hne] at ha
  case writes w _ _ | wrote w _ _ => cases w <;> cases hcall
  all_goals cases hcall

/-- A client that hangs up is met in front of `recv`, and only its handler goes on. -/
theorem hangs_up {i : Nat} {e : Event} (hapart : os.Apart) (h : u.step build os e = some t)
    (he : HangsUp i e) : ∃ c, u.clients[i]? = some c ∧ c.pc = .recv ∧
      t = { u with clients := u.clients.set i { c with pc := .clientDone } } := by
  obtain ⟨hgoing, s, m, v, hos, hafter, hv, rfl⟩ := World.step_eq_some.mp h
  obtain ⟨tid, call, a⟩ := e
  obtain ⟨rfl, rfl, ha⟩ := he
  obtain ⟨c, c', hc, hstep, rfl⟩ := World.thread_client.mp hv
  obtain ⟨hpc, rfl⟩ := recv_hungUp rfl ha hstep
  obtain rfl := hapart.untouched _ _ _ _ rfl hos
  cases hafter
  refine ⟨c, hc, hpc, ?_⟩
  rcases ha with rfl | rfl <;> simp [endsProcess, hgoing]

theorem recv_unflagged {s : σ} {tr : List Event} {i : Nat} {c : Conn}
    (h : run (World.step build os) (World.start build s) tr = some w) (hc : w.clients[i]? = some c)
    (hpc : c.pc = .recv) : c.threadCompleteSuccess = false := by
  have hheard := run_heard ((run_project h i).2 c hc)
  simp only [Heard, hpc] at hheard
  exact hheard.1

/-- The same for the process with a plain list of threads. -/
structure WithoutEndOf (build : Build) (os : Os σ) (i : Nat) (tr : List Event) (w : World σ)
    (tr' : List Event) (w' : World σ) : Prop where
  waiting : ∃ c, w'.clients[i]? = some c ∧ c.pc = .recv
  own : project (.client i) tr' <+: project (.client i) tr
  others : bystanders i tr' = bystanders i tr
  recorded : sections tr' = sections tr
  system : w'.os = w.os
  mutex : w'.mutex = w.mutex
  stamp : w'.stamp = w.stamp
  exited : w'.exited = w.exited
  clients : ∀ j, j ≠ i → w'.clients[j]? = w.clients[j]?
  next : ∀ e, e.tid ≠ .main → e.tid ≠ .client i →
    (w'.step build os e).isSome = (w.step build os e).isSome

/-- A client that hangs up might as well have stopped sending. -/
theorem run_unnoticed {s : σ} {tr : List Event} {i : Nat} (hapart : os.Apart)
    (h : run (World.step build os) (World.start build s) tr = some w) (hend : ∃ e ∈ tr, HangsUp i e) :
    ∃ tr' w', run (World.step build os) (World.start build s) tr' = some w' ∧
      WithoutEndOf build os i tr w tr' w' := by
  obtain ⟨e, he, hup⟩ := hend
  obtain ⟨pre, post, rfl⟩ := List.append_of_mem he
  obtain ⟨u, hu, hpost⟩ := run_append_eq_some.mp h
  rw [run_cons, Option.bind_eq_some_iff] at hpost
  obtain ⟨v, hv, hpost⟩ := hpost
  obtain ⟨c, hc, hpc, rfl⟩ := hangs_up hapart hv hup
  obtain ⟨hi, hget⟩ := List.getElem?_eq_some_iff.mp hc
  have hself : u.clients.set i c = u.clients := hget ▸ List.set_getElem_self hi
  have hflag := recv_unflagged hu hc hpc
  have hback : u = ({ u with clients := u.clients.set i { c with pc := .clientDone } } : World σ).without
      i c u.main u.active u.joined := by
    simp [World.without, List.set_set, hself]
  have hshadow : Shadow i { u with clients := u.clients.set i { c with pc := .clientDone } }
      u.main u.active := by
    refine ⟨⟨_, List.getElem?_set_self hi, rfl⟩, alongside_self fun items hjoin => ?_, rfl⟩
    have := (run_kept hu).flagged i items hjoin
    simp [hc, hflag] at this
  obtain ⟨es, m, l, j, hes, hs, hunseen⟩ := shadow_run (c := c) (j := u.joined) hapart hflag hshadow hpost
  rw [← hback] at hes
  obtain ⟨d, hd, -⟩ := hs.gone
  have hside : bystanders i [e] = [] := by simp [bystanders, hup.1]
  have hsection : sections [e] = [] := by simp [sections, sectionOf, hup.2.1]
  refine ⟨pre ++ es, _, run_append_eq_some.mpr ⟨u, hu, hes⟩, ?_⟩
  refine ⟨⟨c, List.getElem?_set_self (List.getElem?_eq_some_iff.mp hd).1, hpc⟩, ?_, ?_, ?_, rfl, rfl,
    rfl, rfl, fun k hk => List.getElem?_set_ne (Ne.symm hk), fun e' hmain hown => ?_⟩
  · rw [project_append, project_append, hunseen.own, List.append_nil]
    exact List.prefix_append _ _
  · rw [← List.singleton_append, bystanders_append, bystanders_append, bystanders_append, hside,
      hunseen.others]
    rfl
  · rw [← List.singleton_append, sections_append, sections_append, sections_append, hsection,
      hunseen.recorded]
    rfl
  · rw [step_without hmain hown, Option.isSome_map]

theorem rel_isSome {α β : Type} {R : α → β → Prop} {x : Option α} {y : Option β}
    (h : Option.Rel R x y) : x.isSome = y.isSome := by
  cases h <;> rfl

/-- The run that is possible without the end, with the memory for it. -/
theorem acts_unnoticed {s : σ} {acts : List Act} {i : Nat} (hapart : os.Apart)
    (h : run (World.step build os) (World.start build s) (events acts) = some w) (hs : Stands p w)
    (hend : ∃ e ∈ events acts, HangsUp i e) : ∃ acts' p',
      run (Process.step build os) (Process.start build s) acts' = some p' ∧
        WithoutEnd build os i acts p acts' p' := by
  obtain ⟨tr', w', hw', hwithout⟩ := run_unnoticed hapart h hend
  obtain ⟨acts', p', hp', rfl, -, hs'⟩ := run_lifted hw'
  refine ⟨acts', p', hp', ?_, hwithout.own, hwithout.others, hwithout.recorded, ?_, ?_, ?_, ?_, ?_,
    fun j hj => ?_, fun e hmain hi => ?_⟩
  · rw [hs'.handlers]
    exact hwithout.waiting
  · rw [hs'.os, hwithout.system, hs.os]
  · rw [hs'.mutex, hwithout.mutex, hs.mutex]
  · rw [hs'.stamp, hwithout.stamp, hs.stamp]
  · rw [hs'.exited, hwithout.exited, hs.exited]
  · rw [hs'.safe, hs.safe]
  · rw [hs'.handlers, hwithout.clients j hj, hs.handlers]
  · have hstep : (p.step build os (.event e)).isSome = (w.step build os e).isSome :=
      rel_isSome (hs.step (run_kept h) e (absurd · hmain))
    have hstep' : (p'.step build os (.event e)).isSome = (w'.step build os e).isSome :=
      rel_isSome (hs'.step (run_kept hw') e (absurd · hmain))
    rw [hstep', hwithout.next e hmain hi, hstep]

theorem Control.starting (h : Control p w) : p.main.starting = w.main.starting := by
  cases hmain : p.main <;> simp only [Control, hmain] at h
  case clear | clearClose | setup | createStamp | accept | allocData => rw [h]; rfl
  case allocThread | create => rw [h.1]; rfl
  case insert =>
    obtain ⟨i, hw, -⟩ := h
    rw [hw]
    rfl
  case loop | join =>
    obtain ⟨pre, items, hw, -⟩ := h
    rw [hw]
    rfl

/-- Where the plain process is without a thread, so is the one with its memory. -/
theorem Stands.goesDown {e : Event} (hs : Stands p w) (h : p.step build os (.event e) = some p')
    (hdown : w.GoesDown e) : p.GoesDown (.event e) := by
  refine hdown.imp_right ?_
  rintro ⟨⟨fd, hmain⟩, htid, hfailed⟩
  refine ⟨?_, htid, hfailed⟩
  have hcontrol := (hs.memory (Process.step_running h).1).control
  cases hp : p.main <;> simp only [Control, hp, hmain, reduceCtorEq, false_and, exists_false] at hcontrol
  case allocData | allocThread => simp [Process.step, Process.thread, htid, hp, ListPc.call] at h
  case create fd' tdata => exact ⟨fd', tdata, rfl⟩

/-- A step with which the process ends in its preparations leaves `main` there. -/
theorem step_ends (h : p.step build os act = some p') (hexited : p'.exited = true)
    (hstart : p.main.starting = true) : p'.main.starting = true := by
  cases act with
  | mallocData tdata =>
    obtain ⟨fd, hmain, -⟩ := Process.step_mallocData h
    simp [hmain, ListPc.starting] at hstart
  | mallocThread thread =>
    obtain ⟨fd, tdata, hmain, -⟩ := Process.step_mallocThread h
    simp [hmain, ListPc.starting] at hstart
  | event e =>
    have hrun := (Process.step_running h).1
    obtain ⟨s, m, u, hu, rfl⟩ := Process.step_event h
    dsimp only at hexited ⊢
    obtain ⟨tid, call, a⟩ := e
    cases tid with
    | main =>
      replace hu := (Process.thread_main hu).2
      cases hmain : p.main <;> rw [hmain] at hstart <;> cases hstart <;> cases a <;>
        simp only [Process.resumeMain, hmain, Option.some.injEq, reduceCtorEq] at hu <;> subst hu
      case setup.refl.failed | createStamp.refl.failed => rfl
      all_goals exact absurd hexited (by simp [hrun])
    | stamp =>
      obtain ⟨st, st', -, -, -, rfl⟩ := Process.thread_stamp hu
      exact hstart
    | client i =>
      rcases Process.resumeHandler_cases hu with rfl | ⟨c, d, c', param, q, -, -, -, -, rfl⟩
      · exact hstart
      · exact hstart

/-- What a run keeps in which the server does not go down. -/
structure Upright (build : Build) (os : Os σ) (s : σ) (acts : List Act) (p : Process σ) (w : World σ) :
    Prop where
  plain : run (World.step build os) (World.start build s) (events acts) = some w
  stands : Stands p w
  safe : Safe w
  going : p.main.starting = false → p.exited = false

theorem Upright.step {s : σ} {acts : List Act} (hp : Upright build os s acts p w)
    (h : p.step build os act = some p') (hup : ¬ p.GoesDown act) :
    ∃ w', Upright build os s (acts ++ [act]) p' w' := by
  have hgranted : act.granted = true := by
    cases act with
    | event => rfl
    | mallocData tdata => cases tdata <;> first | rfl | exact absurd rfl hup
    | mallocThread thread => cases thread <;> first | rfl | exact absurd rfl hup
  obtain ⟨w', hw', hs'⟩ := hp.stands.act (run_kept hp.plain) h hgranted
  have hrun := (Process.step_running h).1
  have hsafe : Safe w' ∧ (w'.main.starting = true → w.main.starting = true) := by
    cases act with
    | mallocData | mallocThread =>
      cases hw'
      exact ⟨hp.safe, id⟩
    | event e =>
      have hstep : w.step build os e = some w' := by simpa [events, run_cons] using hw'
      refine ⟨hp.safe.step hstep fun hdown => hup (hp.stands.goesDown h hdown), fun hstart => ?_⟩
      by_cases hmain : e.tid = .main
      · obtain ⟨-, s, m, v, -, -, hv, rfl⟩ := World.step_eq_some.mp hstep
        obtain ⟨tid, call, a⟩ := e
        obtain rfl : tid = .main := hmain
        exact ((resumeMain_starting (World.thread_main.mp hv).2).2.1 hstart).1
      · rwa [(main_kept hstep hmain).1] at hstart
  refine ⟨w', ?_, hs', hsafe.1, fun hstart => ?_⟩
  · rw [events_append]
    exact run_append_eq_some.mpr ⟨w, hp.plain, hw'⟩
  · cases hexited : p'.exited with
    | false => rfl
    | true =>
      have hw'start : w'.main.starting = true := by
        by_contra hnot
        have := hsafe.1.going (Bool.eq_false_iff.mpr hnot)
        rw [← hs'.exited, hexited] at this
        cases this
      have hpstart : p.main.starting = true :=
        ((hp.stands.memory hrun).control.starting).trans (hsafe.2 hw'start)
      rw [step_ends h hexited hpstart] at hstart
      cases hstart

theorem Down.append {s : σ} {acts : List Act} (h : Down build os s acts) (post : List Act) :
    Down build os s (acts ++ post) := by
  obtain ⟨pre, act, mid, u, rfl, hu, hdown⟩ := h
  exact ⟨pre, act, mid ++ post, u, by simp, hu, hdown⟩

theorem run_upright {s : σ} {acts : List Act}
    (h : run (Process.step build os) (Process.start build s) acts = some p)
    (hup : ¬ Down build os s acts) : ∃ w, Upright build os s acts p w := by
  revert hup
  refine run_invariant (I := fun acts p => ¬ Down build os s acts → ∃ w, Upright build os s acts p w)
    (fun _ => ⟨_, rfl, start_stands build s, start_safe s, fun _ => rfl⟩) ?_ h
  intro acts u act t hu ht ih hup
  obtain ⟨w, hw⟩ := ih fun hdown => hup (hdown.append [act])
  exact hw.step ht fun hdown => hup ⟨acts, act, [], u, rfl, hu, hdown⟩

/-- `main` starts handlers and touches none. -/
theorem resumeMain_handlers {a : Answer} (h : p.resumeMain build a = some p') :
    p.handlers <+: p'.handlers := by
  have hcrash : ∀ x : Option (Process σ), (∀ q, x = some q → p.handlers <+: q.handlers) →
      p.handlers <+: (x.getD p.crash).handlers := by
    intro x hx
    cases x with
    | none => exact List.prefix_rfl
    | some q => exact hx q rfl
  cases hmain : p.main <;> cases a <;>
    simp only [Process.resumeMain, hmain, Option.some.injEq, reduceCtorEq] at h
  case create.done =>
    subst h
    refine hcrash _ fun q hq => ?_
    simp only [Process.create, Option.bind_eq_bind, Option.bind_eq_some_iff] at hq
    obtain ⟨d, -, t, -, -, -, hq⟩ := hq
    cases hq
    exact List.prefix_append _ _
  case create.failed =>
    subst h
    refine hcrash _ fun q hq => ?_
    simp only [Process.giveUp, Option.bind_eq_bind, Option.bind_eq_some_iff] at hq
    obtain ⟨_, _, hq⟩ := hq
    cases hq
    exact List.prefix_rfl
  case insert.done =>
    subst h
    refine hcrash _ fun q hq => ?_
    simp only [Process.insert, Option.bind_eq_bind, Option.bind_eq_some_iff] at hq
    obtain ⟨_, _, _, _, hq⟩ := hq
    cases hq
    exact List.prefix_rfl
  case loop.done item =>
    cases item with
    | none =>
      cases h
      exact List.prefix_rfl
    | some item =>
      simp only [Option.some.injEq] at h
      subst h
      refine hcrash _ fun q hq => ?_
      simp only [Process.look, Option.bind_eq_bind, Option.bind_eq_some_iff] at hq
      obtain ⟨tmp, -, d, -, hq⟩ := hq
      split_ifs at hq
      · simp only [Option.bind_eq_some_iff] at hq
        obtain ⟨_, _, _, _, _, _, hq⟩ := hq
        cases hq
        exact List.prefix_rfl
      · cases hq
        exact List.prefix_rfl
  case join.done =>
    split_ifs at h
    cases h
    refine hcrash _ fun q hq => ?_
    simp only [Process.unlink, Option.bind_eq_bind, Option.bind_eq_some_iff] at hq
    obtain ⟨q₁, -, d, -, hq⟩ := hq
    split at hq <;> simp only [Option.bind_eq_some_iff] at hq <;> obtain ⟨_, _, _, _, hq⟩ := hq <;>
      cases hq <;> exact List.prefix_rfl
  all_goals
    subst h
    exact List.prefix_rfl

/-- A handler stays as it is while other threads go on. -/
theorem Process.handler_kept {i : Nat} {c : Conn} (h : p.step build os act = some p')
    (hne : ∀ e, act = .event e → e.tid ≠ .client i) (hc : p.handlers[i]? = some c) :
    p'.handlers[i]? = some c := by
  cases act with
  | mallocData tdata =>
    obtain ⟨fd, -, h⟩ := Process.step_mallocData h
    rcases tdata with _ | ⟨a, n⟩ <;> simp only [Process.mallocData] at h
    · exact Option.some.inj h ▸ hc
    · split_ifs at h
      exact Option.some.inj h ▸ hc
  | mallocThread thread =>
    obtain ⟨fd, tdata, -, h⟩ := Process.step_mallocThread h
    simp only [Process.mallocThread] at h
    split_ifs at h
    split at h <;> exact Option.some.inj h ▸ hc
  | event e =>
    obtain ⟨s, m, u, hu, rfl⟩ := Process.step_event h
    obtain ⟨tid, call, a⟩ := e
    cases tid with
    | main =>
      obtain ⟨rest, hrest⟩ := resumeMain_handlers (Process.thread_main hu).2
      have hi := (List.getElem?_eq_some_iff.mp hc).1
      simpa [← hrest, List.getElem?_append_left hi] using hc
    | stamp =>
      obtain ⟨st, st', -, -, -, rfl⟩ := Process.thread_stamp hu
      exact hc
    | client j =>
      have hij : j ≠ i := by
        rintro rfl
        exact hne _ rfl rfl
      rcases Process.resumeHandler_cases hu with rfl | ⟨d, x, d', param, q, -, -, -, -, rfl⟩
      · exact hc
      · exact (List.getElem?_set_ne hij).trans hc

/-- A handler writes its flag, and no pointer. -/
theorem setData_thread {q q' : Queue Addr ThreadData} {param a : Addr} {d d' : ThreadData}
    (hd : q.data param = some d) (hthread : d'.thread = d.thread) (h : q.setData param d' = some q') :
    (q'.data a).bind ThreadData.thread = (q.data a).bind ThreadData.thread := by
  obtain ⟨n, hn, -⟩ := Option.map_eq_some_iff.mp hd
  obtain ⟨q'', h', -, -, -, hdata⟩ := Queue.setData_spec hn d'
  obtain rfl := Option.some.inj (h'.symm.trans h)
  rw [hdata]
  by_cases ha : a = param
  · subst ha
    simp [hd, hthread]
  · rw [Function.update_of_ne ha]

/-- Without a thread for a connection `main` returns, or crashes at its `free`. -/
theorem giveUp_ends (p : Process σ) (tdata : Addr) :
    ((p.giveUp tdata).getD p.crash).exited = true ∨ ((p.giveUp tdata).getD p.crash).fault = true := by
  cases hgive : p.giveUp tdata with
  | none => exact Or.inr rfl
  | some q =>
    simp only [Process.giveUp, Option.bind_eq_bind, Option.bind_eq_some_iff] at hgive
    obtain ⟨_, _, hgive⟩ := hgive
    cases hgive
    exact Or.inl rfl

/-- Without memory for a `pthread_t`, `main` does not get past `pthread_create`. -/
theorem null_step {fd : Nat} {tdata : Addr} (h : p.step build os act = some p')
    (hmain : p.main = .create fd tdata)
    (hnull : (p.activeThreads.data tdata).bind ThreadData.thread = none) : p'.Leaving := by
  cases act with
  | mallocData x =>
    obtain ⟨fd', hdata, -⟩ := Process.step_mallocData h
    cases hmain.symm.trans hdata
  | mallocThread x =>
    obtain ⟨fd', tdata', hthread, -⟩ := Process.step_mallocThread h
    cases hmain.symm.trans hthread
  | event e =>
    obtain ⟨s, m, u, hu, rfl⟩ := Process.step_event h
    obtain ⟨tid, call, a⟩ := e
    cases tid with
    | main =>
      replace hu := (Process.thread_main hu).2
      cases a <;> simp only [Process.resumeMain, hmain, Option.some.injEq, reduceCtorEq] at hu
      case done =>
        have hcreate : p.create tdata = none := by
          unfold Process.create
          cases hd : p.activeThreads.data tdata with
          | none => rfl
          | some d =>
            rw [hd, Option.bind_some] at hnull
            simp [hnull]
        rw [hcreate] at hu
        exact Or.inr (Or.inl (hu ▸ rfl))
      case failed => exact (giveUp_ends p tdata).imp (hu ▸ ·) fun hfault => Or.inl (hu ▸ hfault)
    | stamp =>
      obtain ⟨st, st', -, -, -, rfl⟩ := Process.thread_stamp hu
      exact Or.inr (Or.inr (Or.inr ⟨fd, tdata, hmain, hnull⟩))
    | client j =>
      rcases Process.resumeHandler_cases hu with rfl | ⟨c, d, c', param, q, -, hd, -, hq, rfl⟩
      · exact Or.inr (Or.inl rfl)
      · exact Or.inr (Or.inr (Or.inr ⟨fd, tdata, hmain, (setData_thread hd (by rfl) hq).trans hnull⟩))

theorem Process.Leaving.step (hp : p.Leaving) (h : p.step build os act = some p') : p'.Leaving := by
  rcases hp with hexited | hfault | ⟨i, c, hc, hphase⟩ | ⟨fd, tdata, hmain, hnull⟩
  · exact Bool.noConfusion (hexited.symm.trans (Process.step_running h).1)
  · exact Bool.noConfusion (hfault.symm.trans (Process.step_running h).2)
  · by_cases hown : ∃ e, act = .event e ∧ e.tid = .client i
    · obtain ⟨⟨tid, call, a⟩, rfl, rfl⟩ := hown
      obtain ⟨s, m, u, hu, rfl⟩ := Process.step_event h
      rcases Process.resumeHandler_cases hu with rfl | ⟨d, x, d', param, q, hd, -, hstep, -, rfl⟩
      · exact Or.inr (Or.inl rfl)
      · obtain rfl := Option.some.inj (hc.symm.trans hd)
        exact Or.inr (Or.inr (Or.inl ⟨i, d', List.getElem?_set_self (List.getElem?_eq_some_iff.mp hc).1,
          (leaving_step (by exact hphase) hstep).2⟩))
    · exact Or.inr (Or.inr (Or.inl ⟨i, c, Process.handler_kept h
        (fun e hact hi => hown ⟨e, hact, hi⟩) hc, hphase⟩))
  · exact null_step h hmain hnull

theorem send_failed {c c' : Conn} {call : Call} {data : List UInt8} (hcall : call = .send data)
    (h : c.step build (call, .failed) = some c') : c'.pc.phase = .leaving := by
  cases move_of_step h
  case notSent => rfl
  case writes w _ _ | wrote w _ _ => cases w <;> cases hcall
  all_goals cases hcall

/-- Only handlers send. -/
theorem sender {e : Event} {data : List UInt8} {u : Process σ} (hu : p.thread build e = some u)
    (hcall : e.call = .send data) : ∃ i, e.tid = .client i := by
  obtain ⟨tid, call, a⟩ := e
  obtain rfl : call = .send data := hcall
  cases tid with
  | main =>
    have hmain := (Process.thread_main hu).1
    cases hp : p.main <;> simp [hp, ListPc.call] at hmain
  | stamp =>
    obtain ⟨st, st', -, hst, -, -⟩ := Process.thread_stamp hu
    cases hpc : st.pc <;> simp [Stamp.call, hpc] at hst
    case writing w => cases w <;> cases hst
  | client i => exact ⟨i, rfl⟩

theorem Process.GoesDown.step (hdown : p.GoesDown act) (h : p.step build os act = some p') :
    p'.Leaving := by
  cases act with
  | mallocData tdata =>
    obtain rfl : tdata = none := hdown
    obtain ⟨fd, -, h⟩ := Process.step_mallocData h
    exact Or.inr (Or.inl (Option.some.inj h ▸ rfl))
  | mallocThread thread =>
    obtain rfl : thread = none := hdown
    obtain ⟨fd, tdata, -, h⟩ := Process.step_mallocThread h
    simp only [Process.mallocThread] at h
    split_ifs at h
    split at h
    · exact Or.inr (Or.inl (Option.some.inj h ▸ rfl))
    · rename_i q hq
      cases h
      obtain ⟨n, hn, -⟩ := Option.map_eq_some_iff.mp hq
      obtain ⟨q', hq', -, -, -, hdata⟩ := Queue.setData_spec hn ⟨none, false, fd⟩
      obtain rfl := Option.some.inj (hq'.symm.trans hq)
      exact Or.inr (Or.inr (Or.inr ⟨fd, tdata, rfl, by simp [hdata]⟩))
  | event e =>
    obtain ⟨s, m, u, hu, rfl⟩ := Process.step_event h
    rcases hdown with ⟨data, hcall, ha⟩ | ⟨⟨fd, tdata, hmain⟩, htid, ha⟩
    · obtain ⟨i, htid⟩ := sender hu hcall
      obtain ⟨tid, call, a⟩ := e
      obtain rfl : tid = .client i := htid
      obtain rfl : call = .send data := hcall
      rcases Process.resumeHandler_cases hu with rfl | ⟨c, d, c', param, q, hc, -, hstep, -, rfl⟩
      · exact Or.inr (Or.inl rfl)
      · rcases ha with rfl | rfl
        · exact Or.inr (Or.inr (Or.inl ⟨i, c', List.getElem?_set_self (List.getElem?_eq_some_iff.mp hc).1,
            send_failed rfl hstep⟩))
        · exact Or.inl rfl
    · obtain ⟨tid, call, a⟩ := e
      obtain rfl : tid = .main := htid
      obtain rfl : a = .failed := ha
      replace hu := (Process.thread_main hu).2
      simp only [Process.resumeMain, hmain, Option.some.injEq] at hu
      exact (giveUp_ends p tdata).imp (hu ▸ ·) fun hfault => Or.inl (hu ▸ hfault)

/-- Once an act has brought the server down, the process has ended or is about to. -/
theorem run_down {s : σ} {acts : List Act}
    (h : run (Process.step build os) (Process.start build s) acts = some p)
    (hdown : Down build os s acts) : p.Leaving := by
  obtain ⟨pre, act, post, u, rfl, hu, hgoes⟩ := hdown
  obtain ⟨u', hu', hpost⟩ := run_append_eq_some.mp h
  obtain rfl := Option.some.inj (hu.symm.trans hu')
  rw [run_cons, Option.bind_eq_some_iff] at hpost
  obtain ⟨v, hv, hpost⟩ := hpost
  exact run_invariant (I := fun _ p => p.Leaving) (hgoes.step hv) (fun _ _ _ _ _ ht ih => ih.step ht) hpost

/-- As long as every answer can be sent and every connection gets its memory and its thread, no
connection's end touches another one, in any state of the run. An act that breaks this ends the
process. -/
theorem isolated_or_leaving (build : Build) (os : Os σ) (s : σ) (acts : List Act) (p : Process σ)
    (h : run (Process.step build os) (Process.start build s) acts = some p) (hapart : os.Apart) :
    (¬ Down build os s acts → ∀ pre u, pre <+: acts →
      run (Process.step build os) (Process.start build s) pre = some u →
        Isolated build os s pre u) ∧
      (Down build os s acts → p.Leaving) := by
  refine ⟨?_, run_down h⟩
  rintro hup pre u ⟨post, rfl⟩ hu
  obtain ⟨w, hw⟩ := run_upright hu fun hdown => hup (hdown.append post)
  refine ⟨fun hstart => ⟨hw.going hstart, hw.stands.safe⟩, fun i c hc hphase => ?_,
    fun i hend => acts_unnoticed hapart hw.plain hw.stands hend⟩
  rw [hw.stands.mutex]
  exact hw.safe.released (hw.stands.handlers ▸ hc) hphase

/-- `main` gets the memory for its records, from address `a` on. -/
def allocated : Addr → List Event → List Act
  | _, [] => []
  | a, e :: es =>
    if e.call = .accept then
      .event e :: .mallocData (some (a, ⟨none, .head, ⟨none, true, 0⟩⟩)) :: .mallocThread (some (a + 1)) ::
        allocated (a + 2) es
    else .event e :: allocated a es

theorem isolated_inTurn : ∃ p, run (Process.step .file anyAnswer) (Process.start .file ())
    (allocated 16 inTurn) = some p ∧ Isolated .file anyAnswer () (allocated 16 inTurn) p := by
  obtain ⟨p, hp⟩ := Option.isSome_iff_exists.mp (show (run (Process.step .file anyAnswer)
    (Process.start .file ()) (allocated 16 inTurn)).isSome = true by decide +kernel)
  refine ⟨p, hp, (isolated_or_leaving .file anyAnswer () (allocated 16 inTurn) p hp
    anyAnswer_apart).1 ?_ _ p List.prefix_rfl hp⟩
  rintro ⟨pre, act, post, u, hsplit, -, hdown⟩
  have hgranted : ∀ act ∈ allocated 16 inTurn, act.granted = true := by decide +kernel
  have hanswered : ∀ e ∈ events (allocated 16 inTurn), e.answer ≠ .failed ∧ e.answer ≠ .killed := by
    decide +kernel
  have hact := hgranted act (by simp [hsplit])
  cases act with
  | mallocData tdata =>
    obtain rfl : tdata = none := hdown
    cases hact
  | mallocThread thread =>
    obtain rfl : thread = none := hdown
    cases hact
  | event e =>
    obtain ⟨hok, hgoing⟩ := hanswered e (by simp [hsplit, events])
    rcases hdown with ⟨data, -, ha | ha⟩ | ⟨-, -, ha⟩
    · exact hok ha
    · exact hgoing ha
    · exact hok ha

/-- A client sends a line, and is gone when it is to be answered. -/
def goneBeforeAnswer : List Act :=
  allocated 16 (connected ++ byClient 0 (lineIn [97, 10] ++
    ([(.lock [97, 10], .done), (.openFile .append, .fd 5), (.write 5 [97, 10], .count 2),
      (.fsync 5, .done), (.closeFile 5, .done), (.openFile .readOnly, .fd 5),
      (.read 5, .bytes [97, 10]), (.send [97, 10], .failed), (.closeFile 5, .done),
      (.exit, .done)] : Trace)))

theorem gone_client_ends_server : ¬ ∀ (build : Build) (os : Os Unit) (s : Unit) (acts : List Act)
    (p : Process Unit), run (Process.step build os) (Process.start build s) acts = some p → os.Apart →
      Isolated build os s acts p := by
  intro hall
  obtain ⟨p, hp, hview⟩ := Option.map_eq_some_iff.mp (show
    (run (Process.step .file anyAnswer) (Process.start .file ()) goneBeforeAnswer).map
      (fun p => (p.main.starting, p.exited)) = some (false, true) by decide +kernel)
  obtain ⟨hstart, hexited⟩ := Prod.mk.inj hview
  have halive := (hall .file anyAnswer () goneBeforeAnswer p hp anyAnswer_apart).alive hstart
  exact Bool.noConfusion (hexited.symm.trans halive.1)

end Aesd.Server
