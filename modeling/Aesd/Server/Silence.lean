import Aesd.Server.Registry
import Aesd.Server.Sections
import Aesd.Server.Storage

/-!
# A connection that waits in place of one that has ended

Two runs of the process: in one a connection has ended, in the other its handler
still waits for bytes. Every step behind the end has its counterpart in the run
in which the handler waits, and only `main` can tell the two apart, by the
threads it passes over or joins in its sweep.
-/
namespace Aesd.Server

open PartialRun Exclusion

variable {σ : Type}

/-- The calls with which a connection ends, and `main` passes over it. -/
def Call.parts : Call → Bool
  | .tau | .recv | .closeClient _ | .join _ => true
  | _ => false

/-- These calls have nothing to do with the data file. -/
structure Os.Apart (os : Os σ) : Prop where
  untouched : ∀ s call a s', call.parts = true → os.respond s call a = some s' → s' = s
  tau : ∀ s, os.respond s .tau .done = some s

theorem storage_apart {β : Type} (B : Backing β) : (storage B).Apart where
  untouched s call a s' hcall hs :=
    respond_untouched hs (by cases call <;> simp [Call.parts] at hcall <;> rfl)
  tau _ := rfl

theorem anyAnswer_apart : anyAnswer.Apart := ⟨fun _ _ _ _ _ _ => rfl, fun _ => rfl⟩

/-- The events of the threads that have no part in the end of connection `i`. -/
def bystanders (i : Nat) (tr : List Event) : List Event :=
  tr.filter fun e => e.tid ≠ .main ∧ e.tid ≠ .client i

theorem bystanders_append (i : Nat) (tr tr' : List Event) :
    bystanders i (tr ++ tr') = bystanders i tr ++ bystanders i tr' := by simp [bystanders]

/-- The threads of a list but thread `i`. -/
def others (i : Nat) (items : List Nat) : List Nat := items.filter (· ≠ i)

/-- Where `main` stands while thread `i` has not ended. -/
def Alongside (i : Nat) (m m' : MainPc) : Prop :=
  match m with
  | .sweep items => ∃ items', others i items' = others i items ∧ m' = .sweep items'
  | .joining item items => ∃ items', others i items' = others i items ∧
      m' = if item = i then .sweep items' else .joining item items'
  | m => m' = m

theorem alongside_self {i : Nat} {m : MainPc} (h : ∀ items, m ≠ .joining i items) : Alongside i m m := by
  cases m with
  | sweep items => exact ⟨items, rfl, rfl⟩
  | joining item items =>
    refine ⟨items, rfl, (if_neg ?_).symm⟩
    rintro rfl
    exact h items rfl
  | clear | clearClose | setup | createStamp | accept | create | insert => rfl

/-- The process with connection `i` as `c`, and with the program counter and the lists that `main`
has then. -/
def World.without (w : World σ) (i : Nat) (c : Conn) (m : MainPc) (active joined : List Nat) : World σ :=
  { w with clients := w.clients.set i c, main := m, active := active, joined := joined }

/-- Connection `i` has ended, and `main` does the same with it and without it. -/
structure Shadow (i : Nat) (w : World σ) (m : MainPc) (active : List Nat) : Prop where
  gone : ∃ d, w.clients[i]? = some d ∧ d.pc.phase = .ended
  main : Alongside i w.main m
  active : others i active = others i w.active

/-- Both runs show the same of everybody else, and the same sections. -/
structure Unseen (i : Nat) (tr tr' : List Event) : Prop where
  others : bystanders i tr' = bystanders i tr
  own : project (.client i) tr' = []
  recorded : sections tr' = sections tr

/-- The run in which connection `i` waits as `c` can follow: some events lead from its counterpart
of `w` to one of `t`, and nobody else sees a difference to the events `tr`. -/
def Follows (build : Build) (os : Os σ) (i : Nat) (c : Conn) (w : World σ) (m : MainPc)
    (active joined : List Nat) (tr : List Event) (t : World σ) : Prop :=
  ∃ es m' active' joined',
    run (World.step build os) (w.without i c m active joined) es = some (t.without i c m' active' joined') ∧
      Shadow i t m' active' ∧ Unseen i tr es

theorem Unseen.append {i : Nat} {tr tr' post post' : List Event} (h : Unseen i tr tr')
    (hpost : Unseen i post post') : Unseen i (tr ++ post) (tr' ++ post') where
  others := by rw [bystanders_append, bystanders_append, h.others, hpost.others]
  own := by rw [project_append, h.own, hpost.own, List.append_nil]
  recorded := by rw [sections_append, sections_append, h.recorded, hpost.recorded]

variable {build : Build} {os : Os σ} {w t : World σ} {i : Nat} {c : Conn} {m : MainPc} {l j : List Nat}

/-- `main` passes over the waiting thread. -/
theorem skip_waiting (build : Build) (hapart : os.Apart) (hgoing : w.exited = false)
    (hwait : (w.clients[i]?).map Conn.threadCompleteSuccess = some false) (items : List Nat)
    (hmain : w.main = .sweep items) : ∃ n rest,
      run (World.step build os) w (List.replicate n ⟨.main, .tau, .done⟩) =
        some { w with main := .sweep rest } ∧ others i rest = others i items ∧ rest.head? ≠ some i := by
  induction items generalizing w with
  | nil => exact ⟨0, [], by simp [← hmain], rfl, by simp⟩
  | cons item items ih =>
    by_cases hitem : item = i
    · subst hitem
      obtain ⟨n, rest, hrun, hothers, hhead⟩ := ih (w := { w with main := .sweep items }) hgoing hwait rfl
      refine ⟨n + 1, rest, ?_, by simpa [others] using hothers, hhead⟩
      rw [List.replicate_succ, run_cons, Option.bind_eq_some_iff]
      refine ⟨_, ?_, hrun⟩
      exact World.step_eq_some.mpr ⟨hgoing, w.os, w.mutex, { w with main := .sweep items },
        hapart.tau _, rfl, World.thread_main.mpr ⟨by rw [hmain]; rfl, by
          simp [World.resumeMain, hmain, hwait]⟩, rfl⟩
    · exact ⟨0, item :: items, by simp [← hmain], rfl, by simpa using hitem⟩

theorem head_others {rest : List Nat} (hhead : rest.head? ≠ some i) :
    (others i rest = [] → rest = []) ∧ ∀ item items, others i rest = item :: items →
      ∃ rest', rest = item :: rest' ∧ others i rest' = items := by
  cases rest with
  | nil => exact ⟨fun _ => rfl, fun item items h => by cases h⟩
  | cons item rest =>
    have hne : item ≠ i := by simpa using hhead
    have hcons : others i (item :: rest) = item :: others i rest := by simp [others, hne]
    rw [hcons]
    refine ⟨fun h => (List.cons_ne_nil _ _ h).elim, fun item' items h => ?_⟩
    obtain ⟨rfl, rfl⟩ := List.cons.inj h
    exact ⟨rest, rfl, rfl⟩

theorem step_main {call : Call} {a : Answer} {s : σ} {v : World σ} (hgoing : w.exited = false)
    (hos : os.respond w.os call a = some s) (hcall : w.main.call = call)
    (hres : w.resumeMain build a = some v) :
    w.step build os ⟨.main, call, a⟩ = some { v with os := s, mutex := w.mutex } :=
  World.step_eq_some.mpr ⟨hgoing, s, w.mutex, v, hos,
    by rw [← hcall, main_use]; rfl, World.thread_main.mpr ⟨hcall, hres⟩, rfl⟩

/-- Outside the sweep `main` does the same in both runs. -/
theorem shadow_plain {a : Answer} {v : World σ} (hs : Shadow i w m l) (h : w.resumeMain build a = some v)
    (hsweep : ∀ items, w.main ≠ .sweep items) (hjoin : ∀ item items, w.main ≠ .joining item items) :
    ∃ m' l', (w.without i c m l j).resumeMain build a = some (v.without i c m' l' j) ∧
      Shadow i v m' l' := by
  obtain ⟨⟨d, hd, hp⟩, hmain, hactive⟩ := hs
  cases hw : w.main <;> cases a <;>
    simp only [World.resumeMain, hw, Option.some.injEq, reduceCtorEq] at h <;> rw [hw] at hmain
  case sweep.done items => exact absurd hw (hsweep items)
  case joining.done item items => exact absurd hw (hjoin item items)
  case create.done fd =>
    subst hmain h
    have hi := (List.getElem?_eq_some_iff.mp hd).1
    refine ⟨.insert w.clients.length, l, ?_,
      ⟨⟨d, (List.getElem?_append_left hi).trans hd, hp⟩, rfl, hactive⟩⟩
    simp [World.resumeMain, World.without, List.set_append_left _ _ hi]
  case insert.done thread =>
    subst hmain h
    have hsame : others i (l ++ [thread]) = others i (w.active ++ [thread]) := by
      simpa [others] using hactive
    exact ⟨.sweep (l ++ [thread]), l ++ [thread], rfl, ⟨⟨d, hd, hp⟩, ⟨_, hsame, rfl⟩, hsame⟩⟩
  case setup.done =>
    subst hmain h
    exact ⟨_, l, rfl, ⟨⟨d, hd, hp⟩, by cases build <;> rfl, hactive⟩⟩
  all_goals
    refine ⟨v.main, l, ?_, ⟨d, ?_, hp⟩, ?_, ?_⟩ <;> subst hmain h
    · simp [World.resumeMain, World.without, hw]
    · exact hd
    · simp [Alongside, hw]
    · exact hactive

/-- In a sweep `main` goes on to the next thread that both runs know. -/
theorem shadow_sweep {a : Answer} {v : World σ} {items rest : List Nat} (hs : Shadow i w m l)
    (h : w.resumeMain build a = some v) (hsweep : w.main = .sweep items) (hm : m = .sweep rest)
    (hhead : rest.head? ≠ some i) (hhead' : items.head? ≠ some i) : ∃ m',
    (w.without i c m l j).resumeMain build a = some (v.without i c m' l j) ∧ Shadow i v m' l := by
  obtain ⟨hgone, hmain, hactive⟩ := hs
  subst hm
  rw [hsweep] at hmain
  obtain ⟨items', hothers, hm⟩ := hmain
  obtain rfl := MainPc.sweep.inj hm
  obtain ⟨hnil, hcons⟩ := head_others hhead
  cases a <;> simp only [World.resumeMain, hsweep, reduceCtorEq] at h
  case done =>
  cases items with
  | nil =>
    obtain rfl := hnil hothers
    cases h
    exact ⟨.accept, rfl, hgone, rfl, hactive⟩
  | cons item items =>
    have hitem : item ≠ i := by simpa using hhead'
    have hsplit : others i (item :: items) = item :: others i items := by simp [others, hitem]
    obtain ⟨rest', rfl, hrest⟩ := hcons item _ (hothers.trans hsplit)
    have hsame : (w.clients.set i c)[item]? = w.clients[item]? := List.getElem?_set_ne (Ne.symm hitem)
    simp only at h
    split_ifs at h with hflag <;> cases h
    · refine ⟨.joining item rest', ?_, hgone, ⟨rest', hrest, by rw [if_neg hitem]⟩, hactive⟩
      simp [World.resumeMain, World.without, hsame, hflag]
    · refine ⟨.sweep rest', ?_, hgone, ⟨rest', hrest, rfl⟩, hactive⟩
      simp [World.resumeMain, World.without, hsame, hflag]

/-- `main` joins a thread that both runs know. -/
theorem shadow_join {a : Answer} {v : World σ} {item : Nat} {items : List Nat} (hs : Shadow i w m l)
    (h : w.resumeMain build a = some v) (hjoin : w.main = .joining item items) (hitem : item ≠ i) :
    ∃ m' l' j', (w.without i c m l j).resumeMain build a = some (v.without i c m' l' j') ∧
      Shadow i v m' l' := by
  obtain ⟨hgone, hmain, hactive⟩ := hs
  rw [hjoin] at hmain
  obtain ⟨items', hothers, rfl⟩ := hmain
  have hsame : (w.clients.set i c)[item]? = w.clients[item]? := List.getElem?_set_ne (Ne.symm hitem)
  cases a <;> simp only [World.resumeMain, hjoin, reduceCtorEq] at h
  case done =>
  split_ifs at h with hpc
  cases h
  refine ⟨.sweep items', l.filter (· ≠ item), j ++ [item], ?_, hgone, ⟨items', hothers, rfl⟩, ?_⟩
  · simp [World.resumeMain, World.without, hsame, hpc, hitem]
  · exact (List.filter_comm ..).trans ((congrArg (List.filter _) hactive).trans (List.filter_comm ..))

/-- The other threads do not see the difference. -/
theorem step_without {e : Event} (hmain : e.tid ≠ .main) (hi : e.tid ≠ .client i) :
    (w.without i c m l j).step build os e = (w.step build os e).map (·.without i c m l j) := by
  obtain ⟨tid, call, a⟩ := e
  have hthread : (w.without i c m l j).thread build ⟨tid, call, a⟩ =
      (w.thread build ⟨tid, call, a⟩).map (·.without i c m l j) := by
    cases tid with
    | main => exact absurd rfl hmain
    | stamp =>
      cases hst : w.stamp with
      | none => simp [World.thread, World.without, hst]
      | some st =>
        simp only [World.thread, World.without, hst, Option.bind_some]
        split_ifs with hcall
        · cases st.resume a <;> rfl
        · rfl
    | client k =>
      have hik : i ≠ k := fun hik => hi (by rw [hik])
      simp only [World.thread, World.without, List.getElem?_set_ne hik]
      cases w.clients[k]? with
      | none => rfl
      | some d =>
        cases hstep : d.step build (call, a) with
        | none => simp [hstep]
        | some d' => simp [hstep, List.set_comm _ _ hik]
  have hos : (w.without i c m l j).os = w.os := rfl
  have hmutex : (w.without i c m l j).mutex = w.mutex := rfl
  have hexited : (w.without i c m l j).exited = w.exited := rfl
  unfold World.step
  rw [hthread, hos, hmutex, hexited]
  cases w.exited with
  | true => rfl
  | false =>
    cases os.respond w.os call a with
    | none => rfl
    | some s =>
      cases after w.mutex tid call.use with
      | none => rfl
      | some x => cases w.thread build ⟨tid, call, a⟩ <;> rfl

theorem unseen_of_silent {es es' : List Event}
    (hes : ∀ e ∈ es, (e.tid = .main ∨ e.tid = .client i) ∧ sectionOf e = none)
    (hes' : ∀ e ∈ es', e.tid = .main ∧ sectionOf e = none) : Unseen i es es' := by
  have hempty : bystanders i es = [] := List.filter_eq_nil_iff.mpr fun e he => by
    rcases (hes e he).1 with htid | htid <;> simp [htid]
  have hempty' : bystanders i es' = [] := List.filter_eq_nil_iff.mpr fun e he => by
    simp [(hes' e he).1]
  have hown : es'.filter (·.tid = .client i) = [] := List.filter_eq_nil_iff.mpr fun e he => by
    simp [(hes' e he).1]
  have hrecorded : sections es = [] := List.filterMap_eq_nil_iff.mpr fun e he => (hes e he).2
  have hrecorded' : sections es' = [] := List.filterMap_eq_nil_iff.mpr fun e he => (hes' e he).2
  exact ⟨hempty'.trans hempty.symm, by rw [project, hown]; rfl, hrecorded'.trans hrecorded.symm⟩

/-- A handler that has ended only gives back what it has. -/
theorem ended_parts {d d' : Conn} {call : Call} {a : Answer} (hp : d.pc.phase = .ended)
    (h : d.step build (call, a) = some d') :
    call.parts = true ∧ call.use = .other ∧ endsProcess call a = false ∧ d'.pc.phase = .ended := by
  have hphase := (over_step hp h).2.2.2.1
  obtain ⟨hcall, hres⟩ := Conn.step_eq_some.mp h
  cases hpc : d.pc <;> simp only [hpc, Pc.phase, reduceCtorEq] at hp <;>
    simp only [Conn.call, hpc, Option.some.injEq, reduceCtorEq] at hcall <;> subst hcall <;>
    refine ⟨rfl, rfl, ?_, hphase⟩
  all_goals cases a <;> simp only [Conn.resume, hpc, reduceCtorEq] at hres <;> rfl

/-- Every step of the thread that has ended leaves the others alone. -/
theorem shadow_own {call : Call} {a : Answer} (hapart : os.Apart) (hs : Shadow i w m l)
    (h : w.step build os ⟨.client i, call, a⟩ = some t) :
    w.without i c m l j = t.without i c m l j ∧ Shadow i t m l ∧
      Unseen i [⟨.client i, call, a⟩] [] := by
  obtain ⟨hgoing, s, x, v, hos, hafter, hv, rfl⟩ := World.step_eq_some.mp h
  obtain ⟨⟨d, hd, hp⟩, hmain, hactive⟩ := hs
  obtain ⟨d₁, d', hd₁, hstep, rfl⟩ := World.thread_client.mp hv
  obtain rfl := Option.some.inj (hd.symm.trans hd₁)
  obtain ⟨hparts, huse, hends, hp'⟩ := ended_parts hp hstep
  have hset := List.getElem?_set_self (a := d') (List.getElem?_eq_some_iff.mp hd).1
  refine ⟨?_, ⟨⟨d', hset, hp'⟩, hmain, hactive⟩, unseen_of_silent ?_ (by simp)⟩
  · rw [huse] at hafter
    cases hafter
    simp [World.without, List.set_set, hapart.untouched _ _ _ _ hparts hos, hends, hgoing]
  · rintro e he
    obtain rfl := List.mem_singleton.mp he
    refine ⟨Or.inr rfl, ?_⟩
    cases call <;> first | rfl | cases hparts

theorem others_cons_self (i : Nat) (items : List Nat) : others i (i :: items) = others i items := by
  simp [others]

/-- `main` passes over the thread that has ended, or joins it: the other run does nothing. -/
theorem shadow_passed {a : Answer} {v : World σ} (hs : Shadow i w m l)
    (h : w.resumeMain build a = some v)
    (hat : (∃ items, w.main = .sweep (i :: items)) ∨ ∃ items, w.main = .joining i items) :
    w.without i c m l j = v.without i c m l j ∧ Shadow i v m l := by
  obtain ⟨hgone, hmain, hactive⟩ := hs
  rcases hat with ⟨items, hw⟩ | ⟨items, hw⟩ <;> rw [hw] at hmain <;> cases a <;>
    simp only [World.resumeMain, hw, reduceCtorEq] at h
  · obtain ⟨items', hothers, hm⟩ := hmain
    rw [others_cons_self] at hothers
    split_ifs at h <;> cases h
    · exact ⟨rfl, hgone, ⟨items', hothers, by rw [if_pos rfl, hm]⟩, hactive⟩
    · exact ⟨rfl, hgone, ⟨items', hothers, hm⟩, hactive⟩
  · obtain ⟨items', hothers, hm⟩ := hmain
    rw [if_pos rfl] at hm
    split_ifs at h
    cases h
    refine ⟨rfl, hgone, ⟨items', hothers, hm⟩, ?_⟩
    simpa [others, List.filter_filter] using hactive

/-- `main` goes on in the run in which connection `i` waits. -/
theorem shadow_main {call : Call} {a : Answer} (hapart : os.Apart)
    (hflag : c.threadCompleteSuccess = false) (hs : Shadow i w m l)
    (h : w.step build os ⟨.main, call, a⟩ = some t) :
    Follows build os i c w m l j [⟨.main, call, a⟩] t := by
  obtain ⟨hgoing, s, x, v, hos, hafter, hv, rfl⟩ := World.step_eq_some.mp h
  obtain ⟨hcall, hres⟩ := World.thread_main.mp hv
  obtain rfl : w.mutex = x := by
    rw [← hcall, main_use] at hafter
    exact Option.some.inj hafter
  have hsection : sectionOf ⟨.main, call, a⟩ = none := by
    rw [← hcall]
    cases w.main <;> rfl
  have hsilent : ∀ e ∈ [(⟨.main, call, a⟩ : Event)],
      (e.tid = .main ∨ e.tid = .client i) ∧ sectionOf e = none := by simp [hsection]
  -- The other run takes the step, after some that pass over the waiting thread.
  have hstep : ∀ (n : Nat) (m₁ m' : MainPc) (l' j' : List Nat),
      run (World.step build os) (w.without i c m l j) (List.replicate n ⟨.main, .tau, .done⟩) =
        some (w.without i c m₁ l j) → m₁.call = call →
      (w.without i c m₁ l j).resumeMain build a = some (v.without i c m' l' j') → Shadow i v m' l' →
      Follows build os i c w m l j [⟨.main, call, a⟩] { v with os := s, mutex := w.mutex } := by
    intro n m₁ m' l' j' hrun hm₁ hres' hs'
    refine ⟨List.replicate n ⟨.main, .tau, .done⟩ ++ [⟨.main, call, a⟩], m', l', j',
      run_concat_eq_some.mpr ⟨_, hrun, step_main (w := w.without i c m₁ l j) hgoing hos hm₁ hres'⟩,
      ⟨hs'.gone, hs'.main, hs'.active⟩, unseen_of_silent hsilent fun e he => ?_⟩
    rcases List.mem_append.mp he with he | he
    · obtain rfl := List.eq_of_mem_replicate he
      exact ⟨rfl, rfl⟩
    · obtain rfl := List.mem_singleton.mp he
      exact ⟨rfl, hsection⟩
  -- At the thread that has ended the other run stays where it is.
  have hpassed : call.parts = true →
      (∃ items, w.main = .sweep (i :: items)) ∨ (∃ items, w.main = .joining i items) →
      Follows build os i c w m l j [⟨.main, call, a⟩] { v with os := s, mutex := w.mutex } := by
    intro hparts hat
    obtain ⟨hsame, hs'⟩ := shadow_passed (c := c) (j := j) hs hres hat
    refine ⟨[], m, l, j, ?_, ⟨hs'.gone, hs'.main, hs'.active⟩, unseen_of_silent hsilent (by simp)⟩
    have hos' : (w.without i c m l j).os = (v.without i c m l j).os := congrArg World.os hsame
    have hmutex : (w.without i c m l j).mutex = (v.without i c m l j).mutex := congrArg World.mutex hsame
    rw [run_nil, hsame, hapart.untouched _ _ _ _ hparts hos, show w.os = v.os from hos',
      show w.mutex = v.mutex from hmutex]
  have hmain := hs.main
  cases hw : w.main with
  | sweep items =>
    rw [hw] at hmain hcall
    obtain ⟨items', hothers, rfl⟩ := hmain
    by_cases hhead : items.head? = some i
    · obtain ⟨tail, rfl⟩ := List.head?_eq_some_iff.mp hhead
      exact hpassed (by rw [← hcall]; rfl) (Or.inl ⟨tail, hw⟩)
    · obtain ⟨d, hd, -⟩ := hs.gone
      have hwait : ((w.without i c (.sweep items') l j).clients[i]?).map Conn.threadCompleteSuccess =
          some false := by
        simp [World.without, List.getElem?_set_self (List.getElem?_eq_some_iff.mp hd).1, hflag]
      obtain ⟨n, rest, hrun, hrest, hhead'⟩ := skip_waiting build hapart
        (w := w.without i c (.sweep items') l j) hgoing hwait items' rfl
      have hs' : Shadow i w (.sweep rest) l :=
        ⟨hs.gone, by rw [hw]; exact ⟨rest, hrest.trans hothers, rfl⟩, hs.active⟩
      obtain ⟨m', hres', hs''⟩ := shadow_sweep (c := c) (j := j) hs' hres hw rfl hhead' hhead
      exact hstep n (.sweep rest) m' l j hrun hcall hres' hs''
  | joining item items =>
    by_cases hitem : item = i
    · subst hitem
      rw [hw] at hcall
      exact hpassed (by rw [← hcall]; rfl) (Or.inr ⟨items, hw⟩)
    · obtain ⟨m', l', j', hres', hs'⟩ := shadow_join (c := c) (j := j) hs hres hw hitem
      rw [hw] at hmain hcall
      obtain ⟨items', -, rfl⟩ := hmain
      exact hstep 0 _ m' l' j' rfl (by rw [if_neg hitem]; exact hcall) hres' hs'
  | clear | clearClose | setup | createStamp | accept | create | insert =>
    obtain ⟨m', l', hres', hs'⟩ := shadow_plain (c := c) (j := j) hs hres (by simp [hw]) (by simp [hw])
    rw [hw] at hmain hcall
    obtain rfl := hmain
    exact hstep 0 _ m' l' j rfl hcall hres' hs'

/-- Only `main` moves `main` and its list. -/
theorem main_kept {e : Event} (h : w.step build os e = some t) (hne : e.tid ≠ .main) :
    t.main = w.main ∧ t.active = w.active := by
  obtain ⟨-, s, x, v, -, -, hv, rfl⟩ := World.step_eq_some.mp h
  obtain ⟨tid, call, a⟩ := e
  cases tid with
  | main => exact absurd rfl hne
  | stamp =>
    obtain ⟨st, st', -, -, -, rfl⟩ := World.thread_stamp.mp hv
    exact ⟨rfl, rfl⟩
  | client k =>
    obtain ⟨d, d', -, -, rfl⟩ := World.thread_client.mp hv
    exact ⟨rfl, rfl⟩

/-- Every step behind the end of connection `i` has its counterpart. -/
theorem shadow_step {e : Event} (hapart : os.Apart) (hflag : c.threadCompleteSuccess = false)
    (hs : Shadow i w m l) (h : w.step build os e = some t) : Follows build os i c w m l j [e] t := by
  obtain ⟨tid, call, a⟩ := e
  by_cases hmain : tid = .main
  · subst hmain
    exact shadow_main hapart hflag hs h
  by_cases hi : tid = .client i
  · subst hi
    obtain ⟨hsame, hs', hunseen⟩ := shadow_own (c := c) (j := j) hapart hs h
    exact ⟨[], m, l, j, by rw [run_nil, hsame], hs', hunseen⟩
  · have hstep : (w.without i c m l j).step build os ⟨tid, call, a⟩ = some (t.without i c m l j) := by
      rw [step_without hmain hi, h]
      rfl
    obtain ⟨d, hd, hp⟩ := hs.gone
    obtain ⟨hmain', hactive⟩ := main_kept h hmain
    refine ⟨[⟨tid, call, a⟩], m, l, j, by rw [run_cons, hstep]; rfl,
      ⟨⟨d, client_kept h hi hd, hp⟩, hmain' ▸ hs.main, hactive ▸ hs.active⟩, rfl,
      by simp [project, hi], rfl⟩

/-- Every run behind the end of connection `i` has its counterpart. -/
theorem shadow_run {tr : List Event} (hapart : os.Apart) (hflag : c.threadCompleteSuccess = false)
    (hs : Shadow i w m l) (h : run (World.step build os) w tr = some t) :
    Follows build os i c w m l j tr t := by
  induction tr generalizing w m l j with
  | nil =>
    cases h
    exact ⟨[], m, l, j, rfl, hs, rfl, rfl, rfl⟩
  | cons e tr ih =>
    rw [run_cons, Option.bind_eq_some_iff] at h
    obtain ⟨u, hu, h⟩ := h
    obtain ⟨es, m', l', j', hrun, hs', hunseen⟩ := shadow_step hapart hflag hs hu
    obtain ⟨es', m'', l'', j'', hrun', hs'', hunseen'⟩ := ih hs' h
    exact ⟨es ++ es', m'', l'', j'', run_append_eq_some.mpr ⟨_, hrun, hrun'⟩, hs'',
      hunseen.append hunseen'⟩

end Aesd.Server
