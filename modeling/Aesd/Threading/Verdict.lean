import Aesd.Lib.Ledger
import Aesd.Threading.StartThread

/-!
# What the joiner finds

The flag of a record says what the two calls for the mutex have returned, a
mutex is held by the thread that has locked and not unlocked it, and every
record belongs to one thread until that thread is joined.
-/
namespace Aesd.Threading

open PartialRun Exclusion Ledger

/-- Who is between a lock and an unlock of the mutex `m`. -/
def Inside (acts : List Act) (p : Process) (m : Nat) : Holder → Prop
  | .caller => p.mutexes m = some .caller
  | .thread i => ∃ req, (requests acts)[i]? = some req ∧ req.mutex = m ∧ Locked (calls i acts)

/-- Thread `i` is not joined yet, and its record lies at `a`. -/
def Process.Owns (p : Process) (i a : Nat) : Prop :=
  ∃ th, p.threads[i]? = some th ∧ th.joined = false ∧ th.param = a

/-- What holds after every run in which `malloc` has not failed. -/
structure Stands (acts : List Act) (p : Process) : Prop where
  running : p.crashed = false
  count : p.threads.length = (requests acts).length
  silent : ∀ i, p.threads.length ≤ i → calls i acts = []
  story : ∀ (i : Nat) (th : Thread) (req : Request), p.threads[i]? = some th →
    (requests acts)[i]? = some req → Story req th.pc (calls i acts)
  record : ∀ (i : Nat) (th : Thread) (req : Request), p.threads[i]? = some th →
    (requests acts)[i]? = some req → th.joined = false →
      p.heap th.param = some (req.data (succeeded (calls i acts)))
  ended : ∀ (i : Nat) (th : Thread), p.threads[i]? = some th → th.joined = true → th.pc = .exited
  ledger : Balanced {a | p.heap a ≠ none} {a | a ∈ abandoned acts} p.Owns
  guarded : ∀ m, Guarded (p.mutexes m) (Inside acts p m)
  attended : ∀ m, Attended (p.mutexes m) (Inside acts p m)

/-- A thread neither hands a mutex to a caller nor takes it from one. -/
theorem caller_kept {holder next : Option Holder} {i : Nat} {use : Use}
    (h : after holder (.thread i) use = some next) (hrelease : use = .release → holder ≠ some .caller) :
    next = some .caller ↔ holder = some .caller := by
  cases use with
  | acquire =>
    obtain ⟨rfl, rfl⟩ := after_acquire h
    simp
  | release =>
    cases h
    simp [hrelease rfl]
  | other =>
    cases h
    exact Iff.rfl

theorem stock_some (heap : Nat → Option ThreadData) (a : Nat) (d : ThreadData) :
    {b | Function.update heap a (some d) b ≠ none} = insert a {b | heap b ≠ none} := by
  ext b
  by_cases hb : b = a <;> simp [hb]

theorem stock_none (heap : Nat → Option ThreadData) (a : Nat) :
    {b | Function.update heap a none b ≠ none} = {b | heap b ≠ none} \ {a} := by
  ext b
  by_cases hb : b = a <;> simp [hb]

/-- A thread that goes on keeps its record. -/
theorem owns_set {p q : Process} {i : Nat} {th : Thread} (hth : p.threads[i]? = some th)
    (th' : Thread) (hq : q.threads = p.threads.set i th') (hparam : th'.param = th.param)
    (hjoined : th'.joined = th.joined) : q.Owns = p.Owns := by
  funext j a
  have hi := (List.getElem?_eq_some_iff.mp hth).1
  by_cases hij : j = i
  · subst hij
    refine propext ⟨?_, ?_⟩
    · rintro ⟨u, hu, hlive, rfl⟩
      rw [hq, List.getElem?_set_self hi] at hu
      cases hu
      exact ⟨th, hth, hjoined.symm.trans hlive, hparam.symm⟩
    · rintro ⟨u, hu, hlive, rfl⟩
      rw [hth] at hu
      cases hu
      exact ⟨th', by rw [hq, List.getElem?_set_self hi], hjoined.trans hlive, hparam⟩
  · unfold Process.Owns
    rw [hq, List.getElem?_set_ne (Ne.symm hij)]

/-- A new thread has the record it was created with. -/
theorem owns_append {p q : Process} {pc : Pc} {a : Nat}
    (hq : q.threads = p.threads ++ [⟨pc, a, false⟩]) :
    q.Owns = fun j b => p.Owns j b ∨ j = p.threads.length ∧ b = a := by
  funext j b
  refine propext ⟨?_, ?_⟩
  · rintro ⟨th, hth, hlive, rfl⟩
    rw [hq, List.getElem?_append] at hth
    split_ifs at hth with hj
    · exact Or.inl ⟨th, hth, hlive, rfl⟩
    · rw [List.getElem?_singleton] at hth
      split_ifs at hth with hzero
      cases hth
      exact Or.inr ⟨by omega, rfl⟩
  · rintro (⟨th, hth, hlive, rfl⟩ | ⟨rfl, rfl⟩)
    · have hj := (List.getElem?_eq_some_iff.mp hth).1
      exact ⟨th, by rw [hq, List.getElem?_append_left hj, hth], hlive, rfl⟩
    · exact ⟨_, by rw [hq, List.getElem?_concat_length], rfl, rfl⟩

/-- A thread that is joined gives its record back. -/
theorem owns_joined {p q : Process} {i : Nat} {th : Thread} (hth : p.threads[i]? = some th)
    (hq : q.threads = p.threads.set i { th with joined := true }) :
    q.Owns = fun j b => p.Owns j b ∧ j ≠ i := by
  funext j b
  have hi := (List.getElem?_eq_some_iff.mp hth).1
  by_cases hij : j = i
  · subst hij
    simp [Process.Owns, hq, List.getElem?_set_self hi]
  · simp [Process.Owns, hq, List.getElem?_set_ne (Ne.symm hij), hij]

namespace Stands

variable {acts : List Act} {p q : Process} {req : Request} {call : Call} {rc : Int} {i : Nat}
  {th : Thread}

theorem start : Stands [] Process.start where
  running := rfl
  count := rfl
  silent _ _ := rfl
  story _ _ _ h := by cases h
  record _ _ _ h := by cases h
  ended _ _ h := by cases h
  ledger := ⟨fun _ _ _ ⟨_, h, _⟩ => (by cases h), fun _ _ ⟨_, h, _⟩ => (by cases h),
    fun _ => ⟨fun h => absurd rfl h, fun h => h.elim (fun h => by cases h)
      fun ⟨_, _, h, _⟩ => (by cases h)⟩⟩
  guarded _ who h := by
    cases who with
    | caller => cases h
    | thread i =>
      obtain ⟨req, hreq, -⟩ := h
      cases hreq
  attended _ who h := by cases h

/-- Every thread was asked for. -/
theorem request (h : Stands acts p) (hth : p.threads[i]? = some th) :
    ∃ req, (requests acts)[i]? = some req :=
  ⟨_, List.getElem?_eq_getElem (h.count ▸ (List.getElem?_eq_some_iff.mp hth).1)⟩

/-- What is not allocated is no thread's record. -/
theorem param_ne (h : Stands acts p) {a : Nat} (hnew : p.heap a = none) (hth : p.threads[i]? = some th)
    (hjoined : th.joined = false) : th.param ≠ a := by
  rintro rfl
  obtain ⟨req, hreq⟩ := h.request hth
  exact Option.some_ne_none _ ((h.record i th req hth hreq hjoined).symm.trans hnew)

/-- No two threads share a record before they are joined. -/
theorem own (h : Stands acts p) {j : Nat} {th' : Thread} (hi : p.threads[i]? = some th)
    (hj : p.threads[j]? = some th') (hlive : th.joined = false) (hlive' : th'.joined = false)
    (heq : th.param = th'.param) : i = j :=
  h.ledger.single i j th'.param ⟨th, hi, hlive, heq⟩ ⟨th', hj, hlive', rfl⟩

/-- Only a thread that has exited can have been joined. -/
theorem not_joined (h : Stands acts p) (hth : p.threads[i]? = some th) (hpc : th.pc ≠ .exited) :
    th.joined = false := by
  cases hj : th.joined with
  | false => rfl
  | true => exact absurd (h.ended i th hth hj) hpc

/-- What a step of a thread is: its record is there, and the call is the next one of the script. -/
theorem thread_cases (h : Stands acts p) (hth : p.threads[i]? = some th)
    (hstep : p.thread i th call rc = some q) : th.joined = false ∧ ∃ req mutexes,
      (requests acts)[i]? = some req ∧
      (req.data (succeeded (calls i acts))).call th.pc = some call ∧
      Process.settle p.mutexes (.thread i) call rc = some mutexes ∧
      q = { p with
        heap := Function.update p.heap th.param (some (req.data
          ((threadfunc th.pc rc).2.getD (succeeded (calls i acts)))))
        threads := p.threads.set i { th with pc := (threadfunc th.pc rc).1 }
        mutexes := mutexes } := by
  obtain ⟨req, hreq⟩ := h.request hth
  unfold Process.thread at hstep
  split_ifs at hstep with hexited
  have hjoined := h.not_joined hth hexited
  simp only [h.record i th req hth hreq hjoined] at hstep
  split_ifs at hstep with hcall
  obtain ⟨mutexes, hsettle, rfl⟩ := Option.map_eq_some_iff.mp hstep
  exact ⟨hjoined, req, mutexes, hreq, hcall, hsettle, rfl⟩

/-- The thread goes on with the answer of its call. -/
theorem thread (h : Stands acts p) (hth : p.threads[i]? = some th)
    (hstep : p.thread i th call rc = some q) :
    Stands (acts ++ [.thread i call rc]) q := by
  obtain ⟨hjoined, req, mutexes, hreq, hcall, hsettle, rfl⟩ := h.thread_cases hth hstep
  have hrecord := h.record i th req hth hreq hjoined
  have hstory := h.story i th req hth hreq
  have hi := (List.getElem?_eq_some_iff.mp hth).1
  obtain ⟨hnext, hflag⟩ := story_step hstory hcall rc
  have hreqs : requests (acts ++ [.thread i call rc]) = requests acts :=
    (requests_concat _ _).trans (List.append_nil _)
  have habandoned : abandoned (acts ++ [.thread i call rc]) = abandoned acts :=
    (abandoned_concat _ _).trans (List.append_nil _)
  have hself : calls i (acts ++ [.thread i call rc]) = calls i acts ++ [(call, rc)] := by
    rw [calls_concat, calls_thread, if_pos rfl]
  have hothers : ∀ j ≠ i, calls j (acts ++ [.thread i call rc]) = calls j acts := fun j hj => by
    rw [calls_concat, calls_thread, if_neg (Ne.symm hj), List.append_nil]
  refine ⟨h.running, ?_, ?_, ?_, ?_, ?_, ?_, ?_, ?_⟩
  · rw [hreqs]
    exact (List.length_set ..).trans h.count
  · intro j hj
    have hj' : p.threads.length ≤ j := by simpa using hj
    rw [hothers j (by omega)]
    exact h.silent j hj'
  · intro j th' req' hj hreq'
    rw [hreqs] at hreq'
    by_cases hij : j = i
    · subst hij
      rw [hreq] at hreq'
      cases hreq'
      rw [List.getElem?_set_self hi] at hj
      cases hj
      rw [hself]
      exact hnext
    · rw [hothers j hij]
      rw [List.getElem?_set_ne (Ne.symm hij)] at hj
      exact h.story j th' req' hj hreq'
  · intro j th' req' hj hreq' hlive
    rw [hreqs] at hreq'
    by_cases hij : j = i
    · subst hij
      rw [hreq] at hreq'
      cases hreq'
      rw [List.getElem?_set_self hi] at hj
      cases hj
      rw [hself, ← hflag]
      exact Function.update_self _ _ _
    · rw [hothers j hij]
      rw [List.getElem?_set_ne (Ne.symm hij)] at hj
      refine (Function.update_of_ne ?_ _ _).trans (h.record j th' req' hj hreq' hlive)
      exact fun heq => hij (h.own hj hth hlive hjoined heq)
  · intro j th' hj hdone
    by_cases hij : j = i
    · subst hij
      rw [List.getElem?_set_self hi] at hj
      cases hj
      exact absurd (hjoined.symm.trans hdone) Bool.false_ne_true
    · rw [List.getElem?_set_ne (Ne.symm hij)] at hj
      exact h.ended j th' hj hdone
  · rw [habandoned, owns_set hth { th with pc := (threadfunc th.pc rc).1 } rfl rfl rfl]
    have hallocated : th.param ∈ {a | p.heap a ≠ none} := by simp [hrecord]
    rw [stock_some, Set.insert_eq_of_mem hallocated]
    exact h.ledger
  all_goals
    intro m
    have hafter := settle_after hsettle m
    obtain ⟨hbracketed, hacquire, hother⟩ := locked_step hstory hcall rc m
    have hinside : Inside acts p m (.thread i) ↔ req.mutex = m ∧ Locked (calls i acts) := by
      simp [Inside, hreq]
    have hcaller : mutexes m = some .caller ↔ p.mutexes m = some .caller := by
      refine caller_kept hafter fun huse hheld => ?_
      rw [huse] at hbracketed
      have hmine := h.guarded m (.thread i) (hinside.mpr hbracketed.1)
      exact Holder.noConfusion (Option.some.inj (hmine.symm.trans hheld))
  · refine (h.guarded m).step hafter ?_ ?_
    · rintro (_ | j) hne hj
      · exact hcaller.mp hj
      · have hij : j ≠ i := fun heq => hne (congrArg _ heq)
        simpa only [Inside, hreqs, hothers j hij] using hj
    · simpa only [Inside, hreqs, hself, hreq, Option.some.injEq, exists_eq_left'] using hbracketed
  · refine (h.attended m).step hafter ?_ ?_
    · rintro (_ | j) hne hj
      · exact hcaller.mpr hj
      · have hij : j ≠ i := fun heq => hne (congrArg _ heq)
        simpa only [Inside, hreqs, hothers j hij] using hj
    · simpa only [Inside, hreqs, hself, hreq, Option.some.injEq, exists_eq_left'] using
        And.intro hacquire hother

/-- `pthread_create` has failed: the record stays behind. -/
theorem abandon (h : Stands acts p) {a : Nat} (hnew : p.heap a = none) (hrc : rc ≠ 0) (d : ThreadData) :
    Stands (acts ++ [.start req (some a) rc]) { p with heap := Function.update p.heap a (some d) } := by
  have hcalls : ∀ j, calls j (acts ++ [.start req (some a) rc]) = calls j acts := fun j =>
    (calls_concat _ _ _).trans (List.append_nil _)
  have hreqs : requests (acts ++ [.start req (some a) rc]) = requests acts := by
    rw [requests_concat]
    simp [requests, hrc]
  have habandoned : abandoned (acts ++ [.start req (some a) rc]) = abandoned acts ++ [a] := by
    rw [abandoned_concat]
    simp [abandoned, hrc]
  refine ⟨h.running, ?_, ?_, ?_, ?_, h.ended, ?_, ?_, ?_⟩
  · exact hreqs ▸ h.count
  · simpa only [hcalls] using h.silent
  · simpa only [hcalls, hreqs] using h.story
  · intro j th' req' hj hreq' hlive
    rw [hreqs] at hreq'
    rw [hcalls]
    exact (Function.update_of_ne (h.param_ne hnew hj hlive) _ _).trans
      (h.record j th' req' hj hreq' hlive)
  · rw [stock_some]
    have hlost : {b | b ∈ abandoned (acts ++ [.start req (some a) rc])} =
        insert a {b | b ∈ abandoned acts} := by
      ext b
      simp [habandoned, or_comm]
    rw [hlost]
    exact h.ledger.lose (by simp [hnew])
  all_goals
    intro m
    have hinside : Inside (acts ++ [.start req (some a) rc])
        { p with heap := Function.update p.heap a (some d) } m = Inside acts p m := by
      funext who
      cases who with
      | caller => rfl
      | thread j => simp only [Inside, hcalls, hreqs]
  · exact hinside ▸ h.guarded m
  · exact hinside ▸ h.attended m

/-- `pthread_create` has created the thread. -/
theorem create (h : Stands acts p) {a : Nat} (hnew : p.heap a = none) :
    Stands (acts ++ [.start req (some a) 0]) { p with
      heap := Function.update p.heap a (some (req.data false))
      threads := p.threads ++ [⟨.obtaining, a, false⟩] } := by
  have hcalls : ∀ j, calls j (acts ++ [.start req (some a) 0]) = calls j acts := fun j =>
    (calls_concat _ _ _).trans (List.append_nil _)
  have hreqs : requests (acts ++ [.start req (some a) 0]) = requests acts ++ [req] :=
    requests_concat _ _
  have habandoned : abandoned (acts ++ [.start req (some a) 0]) = abandoned acts :=
    (abandoned_concat _ _).trans (List.append_nil _)
  have hsilent := h.silent p.threads.length le_rfl
  have hthreads : ∀ (j : Nat) (th' : Thread), (p.threads ++ [⟨.obtaining, a, false⟩])[j]? = some th' →
      p.threads[j]? = some th' ∨ j = p.threads.length ∧ th' = ⟨.obtaining, a, false⟩ := by
    intro j th' hj
    rw [List.getElem?_append] at hj
    split_ifs at hj with hlt
    · exact Or.inl hj
    · rw [List.getElem?_singleton] at hj
      split_ifs at hj with hzero
      cases hj
      exact Or.inr ⟨by omega, rfl⟩
  have hlast : (requests acts ++ [req])[p.threads.length]? = some req := by
    rw [h.count]
    exact List.getElem?_concat_length
  have hold : ∀ (j : Nat) (th' : Thread) (req' : Request), p.threads[j]? = some th' →
      (requests acts ++ [req])[j]? = some req' → (requests acts)[j]? = some req' := by
    intro j th' req' hj hreq'
    rwa [List.getElem?_append_left (h.count ▸ (List.getElem?_eq_some_iff.mp hj).1)] at hreq'
  refine ⟨h.running, ?_, ?_, ?_, ?_, ?_, ?_, ?_, ?_⟩
  · simp [hreqs, h.count]
  · intro j hj
    rw [hcalls]
    rw [List.length_append] at hj
    exact h.silent j (Nat.le_of_add_right_le hj)
  · intro j th' req' hj hreq'
    rw [hreqs] at hreq'
    rw [hcalls]
    rcases hthreads j th' hj with hj | ⟨rfl, rfl⟩
    · exact h.story j th' req' hj (hold j th' req' hj hreq')
    · exact hsilent
  · intro j th' req' hj hreq' hlive
    rw [hreqs] at hreq'
    rw [hcalls]
    rcases hthreads j th' hj with hj | ⟨rfl, rfl⟩
    · exact (Function.update_of_ne (h.param_ne hnew hj hlive) _ _).trans
        (h.record j th' req' hj (hold j th' req' hj hreq') hlive)
    · rw [hlast] at hreq'
      cases hreq'
      rw [hsilent]
      exact Function.update_self _ _ _
  · intro j th' hj hdone
    rcases hthreads j th' hj with hj | ⟨rfl, rfl⟩
    · exact h.ended j th' hj hdone
    · cases hdone
  · rw [stock_some, habandoned, owns_append rfl]
    exact h.ledger.gain (by simp [hnew]) p.threads.length
  all_goals
    intro m
    have hinside : ∀ who, Inside (acts ++ [.start req (some a) 0]) { p with
        heap := Function.update p.heap a (some (req.data false))
        threads := p.threads ++ [⟨.obtaining, a, false⟩] } m who ↔ Inside acts p m who := by
      rintro (_ | j)
      · exact Iff.rfl
      · simp only [Inside, hcalls, hreqs]
        constructor
        · rintro ⟨req', hreq', hm, hlocked⟩
          rw [List.getElem?_append] at hreq'
          split_ifs at hreq' with hlt
          · exact ⟨req', hreq', hm, hlocked⟩
          · rw [h.silent j (by rw [h.count]; omega)] at hlocked
            simp [Locked, codes] at hlocked
        · rintro ⟨req', hreq', hm⟩
          have hlt := (List.getElem?_eq_some_iff.mp hreq').1
          exact ⟨req', (List.getElem?_append_left hlt).trans hreq', hm⟩
  · exact fun who hwho => h.guarded m who ((hinside who).mp hwho)
  · exact fun who hwho => (hinside who).mpr (h.attended m who hwho)

/-- A caller takes a mutex, or gives back one of its own. -/
theorem caller (h : Stands acts p) (act : Act) (hcalls : ∀ j, calls j [act] = [])
    (hrequests : requests [act] = []) (hlost : abandoned [act] = []) {mutexes : Nat → Option Holder}
    (hsettle : Process.settle p.mutexes .caller call rc = some mutexes)
    (hmine : ∀ m, call.use m rc = .release → p.mutexes m = some .caller) :
    Stands (acts ++ [act]) { p with mutexes := mutexes } := by
  have hcalls : ∀ j, calls j (acts ++ [act]) = calls j acts := fun j => by
    rw [calls_concat, hcalls, List.append_nil]
  have hreqs : requests (acts ++ [act]) = requests acts := by
    rw [requests_concat, hrequests, List.append_nil]
  have habandoned : abandoned (acts ++ [act]) = abandoned acts := by
    rw [abandoned_concat, hlost, List.append_nil]
  refine ⟨h.running, hreqs ▸ h.count, ?_, ?_, ?_, h.ended, habandoned ▸ h.ledger, ?_, ?_⟩
  · simpa only [hcalls] using h.silent
  · simpa only [hcalls, hreqs] using h.story
  · simpa only [hcalls, hreqs] using h.record
  all_goals
    intro m
    have hafter := settle_after hsettle m
  · refine (h.guarded m).step hafter ?_ ?_
    · rintro (_ | j) hne hj
      · exact absurd rfl hne
      · simpa only [Inside, hcalls, hreqs] using hj
    · cases huse : call.use m rc with
      | acquire => trivial
      | release =>
        rw [huse] at hafter
        exact ⟨hmine m huse, fun hheld =>
          Option.some_ne_none _ (hheld.symm.trans (Option.some.inj hafter).symm)⟩
      | other =>
        rw [huse] at hafter
        exact fun hheld => (Option.some.inj hafter).trans hheld
  · refine (h.attended m).step hafter ?_ ⟨fun huse => ?_, fun huse hheld => ?_⟩
    · rintro (_ | j) hne hj
      · exact absurd rfl hne
      · simpa only [Inside, hcalls, hreqs] using hj
    · rw [huse] at hafter
      exact (after_acquire hafter).2
    · rw [huse] at hafter
      exact (Option.some.inj hafter).symm.trans hheld

/-- The caller joins a thread and frees its record. -/
theorem join (h : Stands acts p) (hth : p.threads[i]? = some th) (hstep : p.join i th = some q) :
    Stands (acts ++ [.join i]) q := by
  unfold Process.join at hstep
  split_ifs at hstep with hdone
  obtain ⟨hexited, hjoined⟩ := hdone
  obtain ⟨req, hreq⟩ := h.request hth
  simp only [h.record i th req hth hreq hjoined] at hstep
  cases hstep
  have hi := (List.getElem?_eq_some_iff.mp hth).1
  have hcalls : ∀ j, calls j (acts ++ [.join i]) = calls j acts := fun j =>
    (calls_concat _ _ _).trans (List.append_nil _)
  have hreqs : requests (acts ++ [.join i]) = requests acts :=
    (requests_concat _ _).trans (List.append_nil _)
  have habandoned : abandoned (acts ++ [.join i]) = abandoned acts :=
    (abandoned_concat _ _).trans (List.append_nil _)
  have hset : ∀ (j : Nat) (th' : Thread), (p.threads.set i { th with joined := true })[j]? = some th' →
      th'.joined = false → j ≠ i ∧ p.threads[j]? = some th' := by
    intro j th' hj hlive
    by_cases hij : j = i
    · subst hij
      rw [List.getElem?_set_self hi] at hj
      cases hj
      cases hlive
    · exact ⟨hij, (List.getElem?_set_ne (Ne.symm hij)).symm.trans hj⟩
  have hparam : ∀ (j : Nat) (th' : Thread), j ≠ i → p.threads[j]? = some th' → th'.joined = false →
      th'.param ≠ th.param := fun j th' hij hj hlive heq =>
    hij (h.own hj hth hlive hjoined heq)
  refine ⟨h.running, ?_, ?_, ?_, ?_, ?_, ?_, ?_, ?_⟩
  · rw [hreqs]
    exact (List.length_set ..).trans h.count
  · intro j hj
    rw [hcalls]
    exact h.silent j (by simpa using hj)
  · intro j th' req' hj hreq'
    rw [hreqs] at hreq'
    rw [hcalls]
    by_cases hij : j = i
    · subst hij
      rw [List.getElem?_set_self hi] at hj
      cases hj
      exact h.story j th req' hth hreq'
    · rw [List.getElem?_set_ne (Ne.symm hij)] at hj
      exact h.story j th' req' hj hreq'
  · intro j th' req' hj hreq' hlive
    rw [hreqs] at hreq'
    rw [hcalls]
    obtain ⟨hij, hj⟩ := hset j th' hj hlive
    exact (Function.update_of_ne (hparam j th' hij hj hlive) _ _).trans
      (h.record j th' req' hj hreq' hlive)
  · intro j th' hj hdone
    by_cases hij : j = i
    · subst hij
      rw [List.getElem?_set_self hi] at hj
      cases hj
      exact hexited
    · rw [List.getElem?_set_ne (Ne.symm hij)] at hj
      exact h.ended j th' hj hdone
  · rw [stock_none, habandoned, owns_joined hth rfl]
    refine h.ledger.release ⟨th, hth, hjoined, rfl⟩ ?_
    rintro b ⟨th', hth', -, rfl⟩
    rw [hth] at hth'
    cases hth'
    rfl
  all_goals
    intro m
    have hinside : ∀ who, Inside (acts ++ [.join i]) { p with
        heap := Function.update p.heap th.param none
        threads := p.threads.set i { th with joined := true } } m who ↔ Inside acts p m who := by
      rintro (_ | j)
      · exact Iff.rfl
      · simp only [Inside, hcalls, hreqs]
  · exact fun who hwho => h.guarded m who ((hinside who).mp hwho)
  · exact fun who hwho => (hinside who).mpr (h.attended m who hwho)

end Stands

/-- `malloc` has not returned NULL. -/
def Act.granted : Act → Bool
  | .start _ none _ => false
  | _ => true

variable {acts : List Act} {p q : Process}

theorem stands_step (h : Stands acts p) {act : Act} (hstep : p.step act = some q)
    (hgranted : act.granted = true) : Stands (acts ++ [act]) q := by
  unfold Process.step at hstep
  rw [if_neg (ne_true_of_eq_false h.running)] at hstep
  cases act with
  | start req malloc rc =>
    cases malloc with
    | none => cases hgranted
    | some a =>
      obtain ⟨⟨u, created⟩, hu, rfl⟩ := Option.map_eq_some_iff.mp hstep
      simp only [Process.startThreadObtainingMutex] at hu
      split_ifs at hu with hused hrc
      · cases hu
        exact h.abandon (Option.not_isSome_iff_eq_none.mp hused) hrc _
      · cases hu
        obtain rfl := not_not.mp hrc
        exact h.create (Option.not_isSome_iff_eq_none.mp hused)
  | thread i call rc =>
    obtain ⟨th, hth, hq⟩ := Option.bind_eq_some_iff.mp hstep
    exact h.thread hth hq
  | take m =>
    obtain ⟨mutexes, hm, rfl⟩ := Option.map_eq_some_iff.mp hstep
    refine h.caller (.take m) (fun _ => rfl) rfl rfl hm fun m' huse => ?_
    simp only [Call.use] at huse
    split_ifs at huse
  | give m =>
    simp only at hstep
    split_ifs at hstep with hheld
    obtain ⟨mutexes, hm, rfl⟩ := Option.map_eq_some_iff.mp hstep
    refine h.caller (.give m) (fun _ => rfl) rfl rfl hm fun m' huse => ?_
    simp only [Call.use] at huse
    split_ifs at huse with hsame
    exact hsame.1 ▸ hheld
  | join i =>
    obtain ⟨th, hth, hq⟩ := Option.bind_eq_some_iff.mp hstep
    exact h.join hth hq

theorem stands_run (h : run Process.step Process.start acts = some p)
    (hgranted : ∀ act ∈ acts, act.granted = true) : Stands acts p := by
  induction acts using List.reverseRecOn generalizing p with
  | nil =>
    cases h
    exact Stands.start
  | append_singleton acts act ih =>
    obtain ⟨u, hu, ht⟩ := run_concat_eq_some.mp h
    exact stands_step (ih hu fun a ha => hgranted a (List.mem_append_left _ ha)) ht
      (hgranted act (by simp))

/-- Two threads want one mutex, the first of them fails to unlock it, a third record is lost. -/
def contended : List Act :=
  [.start ⟨1, 1, 2⟩ (some 10) 0, .start ⟨1, 0, 5⟩ (some 20) 0, .take 1, .start ⟨2, 0, 0⟩ (some 30) 11,
    .thread 1 (.usleep 0) 0, .thread 0 (.usleep 1000) 0, .give 1, .thread 1 (.lock 1) 0,
    .thread 1 (.usleep 5000) 0, .thread 1 (.unlock 1) 0, .thread 0 (.lock 1) 0, .join 1,
    .thread 0 (.usleep 2000) 0, .thread 0 (.unlock 1) 1]

/-- A record not yet freed has what the caller asked for, and its flag is set exactly by a lock and an
unlock that both returned 0, behind the two calls of `usleep` in their places. -/
theorem record_tells (acts : List Act) (p : Process) (h : run Process.step Process.start acts = some p)
    (hgranted : ∀ act ∈ acts, act.granted = true) (i : Nat) (th : Thread)
    (hth : p.threads[i]? = some th) (hjoined : th.joined = false) :
    ∃ req, (requests acts)[i]? = some req ∧ Story req th.pc (calls i acts) ∧
      p.heap th.param = some ⟨req.mutex, req.waitToObtainMs, req.waitToReleaseMs,
        decide (codes (calls i acts) = [0, 0])⟩ := by
  have hs := stands_run h hgranted
  obtain ⟨req, hreq⟩ := hs.request hth
  exact ⟨req, hreq, hs.story i th req hth hreq, hs.record i th req hth hreq hjoined⟩

theorem record_tells_contended : ∃ p, run Process.step Process.start contended = some p ∧
    ∃ th, p.threads[0]? = some th ∧ ∃ req, (requests contended)[0]? = some req ∧
      Story req th.pc (calls 0 contended) ∧ p.heap th.param = some ⟨req.mutex, req.waitToObtainMs,
        req.waitToReleaseMs, decide (codes (calls 0 contended) = [0, 0])⟩ := by
  obtain ⟨p, hp⟩ := Option.isSome_iff_exists.mp (show
    (run Process.step Process.start contended).isSome = true by decide +kernel)
  have hthread : (run Process.step Process.start contended).bind (·.threads[0]?) =
      some ⟨.exited, 10, false⟩ := by decide +kernel
  rw [hp] at hthread
  exact ⟨p, hp, _, hthread, record_tells contended p hp (by decide) 0 _ hthread rfl⟩

/-- A thread has a mutex exactly from its successful lock to its successful unlock, and no other
thread is between the two meanwhile. -/
theorem mutex_held_between (acts : List Act) (p : Process)
    (h : run Process.step Process.start acts = some p)
    (hgranted : ∀ act ∈ acts, act.granted = true) (m i : Nat) :
    (p.mutexes m = some (.thread i) ↔
      ∃ req, (requests acts)[i]? = some req ∧ req.mutex = m ∧ Locked (calls i acts)) ∧
    ∀ j, Inside acts p m (.thread i) → Inside acts p m (.thread j) → i = j := by
  have hs := stands_run h hgranted
  refine ⟨⟨hs.attended m (.thread i), hs.guarded m (.thread i)⟩, fun j hi hj => ?_⟩
  exact Holder.thread.inj ((hs.guarded m).alone hi hj)

theorem mutex_held_between_contended : ∃ p, run Process.step Process.start contended = some p ∧
    (p.mutexes 1 = some (.thread 0) ↔ ∃ req, (requests contended)[0]? = some req ∧ req.mutex = 1 ∧
      Locked (calls 0 contended)) := by
  obtain ⟨p, hp⟩ := Option.isSome_iff_exists.mp (show
    (run Process.step Process.start contended).isSome = true by decide +kernel)
  exact ⟨p, hp, (mutex_held_between contended p hp (by decide) 1 0).1⟩

theorem story_codes {req : Request} {pc : Pc} {l : List (Call × Int)} (h : Story req pc l) :
    (codes l).length ≤ 2 := by
  cases pc with
  | obtaining =>
    obtain rfl := h
    simp [codes]
  | locking =>
    obtain ⟨r, rfl⟩ := h
    simp [codes]
  | releasing =>
    obtain ⟨r, rfl⟩ := h
    simp [codes]
  | unlocking =>
    obtain ⟨r, r', rfl⟩ := h
    simp [codes]
  | exited =>
    rcases h with ⟨r, rcm, -, rfl⟩ | ⟨r, r', rcu, rfl⟩ <;> simp [codes]

/-- Behind the second call for the mutex a thread is over. -/
theorem story_over {req : Request} {pc : Pc} {l : List (Call × Int)} (h : Story req pc l) {rc rc' : Int}
    (hcodes : codes l = [rc, rc']) : pc = .exited := by
  cases pc with
  | obtaining =>
    obtain rfl := h
    cases hcodes
  | locking =>
    obtain ⟨r, rfl⟩ := h
    cases hcodes
  | releasing =>
    obtain ⟨r, rfl⟩ := h
    cases hcodes
  | unlocking =>
    obtain ⟨r, r', rfl⟩ := h
    cases hcodes
  | exited => rfl

/-- A thread whose unlock has failed makes no more calls. -/
theorem Stands.over {more : List Act} {i : Nat} {req : Request} {rcu : Int}
    (h : Stands (acts ++ more) q) (hreq : (requests acts)[i]? = some req)
    (hcodes : codes (calls i acts) = [0, rcu]) : (requests (acts ++ more))[i]? = some req ∧
      codes (calls i (acts ++ more)) = [0, rcu] := by
  have hreq' : (requests (acts ++ more))[i]? = some req := by
    rw [requests, List.filterMap_append]
    exact (List.getElem?_append_left (List.getElem?_eq_some_iff.mp hreq).1).trans hreq
  have hi : i < q.threads.length := h.count ▸ (List.getElem?_eq_some_iff.mp hreq').1
  have hlength := story_codes (h.story i _ req (List.getElem?_eq_getElem hi) hreq')
  have hall : codes (calls i (acts ++ more)) = [0, rcu] ++ codes (calls i more) := by
    rw [calls, List.filterMap_append, codes, List.filterMap_append]
    exact congrArg (· ++ _) hcodes
  rw [hall] at hlength
  have hnone : codes (calls i more) = [] := List.length_eq_zero_iff.mp (by simpa using hlength)
  rw [hnone, List.append_nil] at hall
  exact ⟨hreq', hall⟩

/-- It keeps the mutex. -/
theorem Stands.stuck {more : List Act} {i : Nat} {req : Request} {rcu : Int}
    (h : Stands (acts ++ more) q) (hreq : (requests acts)[i]? = some req) (hrcu : rcu ≠ 0)
    (hcodes : codes (calls i acts) = [0, rcu]) : q.mutexes req.mutex = some (.thread i) := by
  obtain ⟨hreq', hall⟩ := h.over hreq hcodes
  exact h.guarded req.mutex (.thread i) ⟨req, hreq', rfl, Or.inr ⟨rcu, hrcu, hall⟩⟩

/-- It ends, and its record says that it has failed until it is joined. -/
theorem Stands.failure {more : List Act} {i : Nat} {req : Request} {rcu : Int}
    (h : Stands (acts ++ more) q) (hreq : (requests acts)[i]? = some req) (hrcu : rcu ≠ 0)
    (hcodes : codes (calls i acts) = [0, rcu]) : ∃ th, q.threads[i]? = some th ∧ th.pc = .exited ∧
      (th.joined = false → q.heap th.param = some (req.data false)) := by
  obtain ⟨hreq', hall⟩ := h.over hreq hcodes
  have hi : i < q.threads.length := h.count ▸ (List.getElem?_eq_some_iff.mp hreq').1
  have hth := List.getElem?_eq_getElem hi
  refine ⟨_, hth, story_over (h.story i _ req hth hreq') hall, fun hjoined => ?_⟩
  have hflag : succeeded (calls i (acts ++ more)) = false := by simp [succeeded, hall, hrcu]
  rw [h.record i _ req hth hreq' hjoined, hflag]

/-- A mutex whose unlock has failed is lost: whatever happens later, the thread has it and reports
false, and nobody locks it again. -/
theorem failed_unlock_blocks (acts more : List Act) (q : Process)
    (h : run Process.step Process.start (acts ++ more) = some q)
    (hgranted : ∀ act ∈ acts ++ more, act.granted = true) (i : Nat) (req : Request)
    (hreq : (requests acts)[i]? = some req) (rcu : Int) (hrcu : rcu ≠ 0)
    (hcodes : codes (calls i acts) = [0, rcu]) :
    (∃ th, q.threads[i]? = some th ∧ th.pc = .exited ∧ (th.joined = false →
        q.heap th.param = some ⟨req.mutex, req.waitToObtainMs, req.waitToReleaseMs, false⟩)) ∧
      q.mutexes req.mutex = some (.thread i) ∧ .take req.mutex ∉ more ∧
        ∀ j, .thread j (.lock req.mutex) 0 ∉ more := by
  have hs := stands_run h hgranted
  refine ⟨hs.failure hreq hrcu hcodes, hs.stuck hreq hrcu hcodes, ?_⟩
  have hblocked : ∀ act ∈ more, ∃ (pre : List Act) (u v : Process), Stands (acts ++ pre) u ∧
      u.mutexes req.mutex = some (.thread i) ∧ u.step act = some v := by
    intro act hact
    obtain ⟨pre, post, rfl⟩ := List.append_of_mem hact
    rw [List.append_cons, ← List.append_assoc] at h
    obtain ⟨v, hv, -⟩ := run_append_eq_some.mp h
    rw [← List.append_assoc] at hv
    obtain ⟨u, hu, hstep⟩ := run_concat_eq_some.mp hv
    have hs := stands_run hu fun a ha => hgranted a (by
      rcases List.mem_append.mp ha with ha | ha <;> simp [ha])
    exact ⟨pre, u, v, hs, hs.stuck hreq hrcu hcodes, hstep⟩
  refine ⟨fun hact => ?_, fun j hact => ?_⟩
  · obtain ⟨pre, u, v, hs, hheld, hstep⟩ := hblocked _ hact
    simp [Process.step, hs.running, Process.settle, hheld, after] at hstep
  · obtain ⟨pre, u, v, hs, hheld, hstep⟩ := hblocked _ hact
    rw [Process.step, if_neg (ne_true_of_eq_false hs.running)] at hstep
    obtain ⟨th, hth, hv⟩ := Option.bind_eq_some_iff.mp hstep
    obtain ⟨-, -, mutexes, -, -, hsettle, -⟩ := hs.thread_cases hth hv
    simp [Process.settle, hheld, after] at hsettle

/-- Three more threads come to the mutex that is lost. Two of them wait, and the lock of the third
one fails. -/
def waiting : List Act :=
  [.start ⟨1, 0, 0⟩ (some 40) 0, .start ⟨1, 0, 3⟩ (some 50) 0, .start ⟨1, 0, 0⟩ (some 60) 0,
    .thread 2 (.usleep 0) 0, .thread 4 (.usleep 0) 0, .thread 3 (.usleep 0) 0, .thread 4 (.lock 1) 11,
    .join 4]

theorem failed_unlock_blocks_waiting : ∃ q,
    run Process.step Process.start (contended ++ waiting) = some q ∧
      q.threads.map Thread.pc = [.exited, .exited, .locking, .locking, .exited] ∧
      (∃ th, q.threads[0]? = some th ∧ (th.joined = false → q.heap th.param = some ⟨1, 1, 2, false⟩)) ∧
      q.mutexes 1 = some (.thread 0) := by
  obtain ⟨q, hq, hpoints⟩ := Option.map_eq_some_iff.mp (show
    (run Process.step Process.start (contended ++ waiting)).map (·.threads.map Thread.pc) =
      some [.exited, .exited, .locking, .locking, .exited] by decide +kernel)
  obtain ⟨⟨th, hth, -, hflag⟩, hheld, -, -⟩ := failed_unlock_blocks contended waiting q hq
    (by decide) 0 ⟨1, 1, 2⟩ (by decide +kernel) 1 (by decide) (by decide +kernel)
  exact ⟨q, hq, hpoints, ⟨th, hth, hflag⟩, hheld⟩

/-- No memory is used that is not allocated, and what is allocated is the record of one thread that is
not joined yet, or of a thread that could not be created. -/
theorem records_accounted (acts : List Act) (p : Process)
    (h : run Process.step Process.start acts = some p)
    (hgranted : ∀ act ∈ acts, act.granted = true) : p.crashed = false ∧
      (∀ a, p.heap a ≠ none ↔ a ∈ abandoned acts ∨ ∃ i, p.Owns i a) ∧
      ∀ i a, p.Owns i a → a ∉ abandoned acts ∧ ∀ j, p.Owns j a → i = j := by
  have hs := stands_run h hgranted
  exact ⟨hs.running, hs.ledger.accounted, fun i a hown =>
    ⟨hs.ledger.kept i a hown, fun j hj => hs.ledger.single i j a hown hj⟩⟩

theorem records_accounted_contended : ∃ p, run Process.step Process.start contended = some p ∧
    p.crashed = false ∧ ∀ a, p.heap a ≠ none ↔ a ∈ abandoned contended ∨ ∃ i, p.Owns i a := by
  obtain ⟨p, hp⟩ := Option.isSome_iff_exists.mp (show
    (run Process.step Process.start contended).isSome = true by decide +kernel)
  have hall := records_accounted contended p hp (by decide)
  exact ⟨p, hp, hall.1, hall.2.1⟩

end Aesd.Threading
