import Aesd.Threading.Verdict

/-!
# Every schedule ends

A thread holds one mutex at a time and asks for no other while it does, so that
the threads never wait for each other in a circle. As long as their calls
succeed every schedule of the threads goes on until all of them have exited.
-/
namespace Aesd.Threading

open PartialRun Exclusion Ledger

/-- The calls that are left. -/
def Pc.left : Pc → Nat
  | .obtaining => 4
  | .locking => 3
  | .releasing => 2
  | .unlocking => 1
  | .exited => 0

def Process.left (p : Process) : Nat := p.threads.foldr (fun th n => th.pc.left + n) 0

/-- A call of a thread that returns 0. -/
def Act.succeeds : Act → Bool
  | .thread _ _ rc => rc = 0
  | _ => false

/-- No caller has a mutex, and no unlock has failed. -/
structure Free (acts : List Act) (p : Process) : Prop where
  callers : ∀ m, p.mutexes m ≠ some .caller
  unlocks : ∀ i rcu, codes (calls i acts) = [0, rcu] → rcu = 0

variable {acts : List Act} {p q : Process} {call : Call} {i : Nat} {th : Thread} {pc : Pc}
  {req : Request} {l : List (Call × Int)}

theorem left_set {threads : List Thread} (hth : threads[i]? = some th) (th' : Thread) :
    (threads.set i th').foldr (fun th n => th.pc.left + n) 0 + th.pc.left =
      threads.foldr (fun th n => th.pc.left + n) 0 + th'.pc.left := by
  induction threads generalizing i with
  | nil => cases hth
  | cons a threads ih =>
    cases i with
    | zero =>
      cases hth
      simp only [List.set_cons_zero, List.foldr_cons]
      omega
    | succ i =>
      have hrest := ih (i := i) (by simpa using hth)
      simp only [List.set_cons_succ, List.foldr_cons]
      omega

/-- A call that returns 0 takes the thread one call further. -/
theorem left_threadfunc (hpc : pc ≠ .exited) : (threadfunc pc 0).1.left + 1 = pc.left := by
  cases pc with
  | exited => exact absurd rfl hpc
  | obtaining | locking | releasing | unlocking => rfl

theorem codes_concat (l : List (Call × Int)) (call : Call) :
    codes (l ++ [(call, 0)]) = codes l ∨ codes (l ++ [(call, 0)]) = codes l ++ [0] := by
  cases call with
  | usleep => exact Or.inl (by simp [codes])
  | lock | unlock => exact Or.inr (by simp [codes])

/-- A call that returns 0 adds to the results a 0 at most. -/
theorem codes_step (i j : Nat) (acts : List Act) (call : Call) :
    codes (calls i (acts ++ [.thread j call 0])) = codes (calls i acts) ∨
      codes (calls i (acts ++ [.thread j call 0])) = codes (calls i acts) ++ [0] := by
  rw [calls_concat, calls_thread]
  split_ifs with hij
  · exact codes_concat (calls i acts) call
  · exact Or.inl (by rw [List.append_nil])

/-- What a call that returns 0 does. -/
theorem Stands.succeed (h : Stands acts p) (hstep : p.step (.thread i call 0) = some q) :
    ∃ th, p.threads[i]? = some th ∧ th.pc ≠ .exited ∧
      q.threads = p.threads.set i { th with pc := (threadfunc th.pc 0).1 } ∧
      Process.settle p.mutexes (.thread i) call 0 = some q.mutexes := by
  unfold Process.step at hstep
  rw [if_neg (ne_true_of_eq_false h.running)] at hstep
  obtain ⟨th, hth, hq⟩ := Option.bind_eq_some_iff.mp hstep
  obtain ⟨-, req, mutexes, -, hcall, hsettle, rfl⟩ := h.thread_cases hth hq
  refine ⟨th, hth, ?_, rfl, hsettle⟩
  intro hexited
  rw [hexited] at hcall
  cases hcall

theorem Free.step (hf : Free acts p) (h : Stands acts p)
    (hstep : p.step (.thread i call 0) = some q) : Free (acts ++ [.thread i call 0]) q := by
  obtain ⟨th, -, -, -, hsettle⟩ := h.succeed hstep
  refine ⟨fun m hheld => ?_, fun j rcu hcodes => ?_⟩
  · exact hf.callers m ((caller_kept (settle_after hsettle m) fun _ => hf.callers m).mp hheld)
  · rcases codes_step j i acts call with hsame | hmore
    · exact hf.unlocks j rcu (hsame.symm.trans hcodes)
    · have hlast := congrArg List.getLast? (hmore.symm.trans hcodes)
      simpa using hlast.symm

/-- A thread between its lock and its unlock has no mutex to wait for. -/
theorem Story.holding (h : Story req pc l) (hcodes : codes l = [0]) :
    pc = .releasing ∨ pc = .unlocking := by
  cases pc with
  | obtaining =>
    obtain rfl := h
    cases hcodes
  | locking =>
    obtain ⟨r, rfl⟩ := h
    cases hcodes
  | releasing => exact Or.inl rfl
  | unlocking => exact Or.inr rfl
  | exited =>
    rcases h with ⟨r, rcm, hrcm, rfl⟩ | ⟨r, r', rcu, rfl⟩
    · exact absurd (List.singleton_inj.mp hcodes) hrcm
    · cases hcodes

/-- A mutex that is held is held by a thread that can go on. -/
theorem Free.holder (hf : Free acts p) (h : Stands acts p) {m : Nat} {holder : Holder}
    (hheld : p.mutexes m = some holder) : ∃ (i : Nat) (th : Thread), p.threads[i]? = some th ∧
      (th.pc = .releasing ∨ th.pc = .unlocking) := by
  have hinside := h.attended m holder hheld
  cases holder with
  | caller => exact absurd hheld (hf.callers m)
  | thread i =>
    obtain ⟨req, hreq, -, hlocked⟩ := hinside
    have hi : i < p.threads.length := h.count ▸ (List.getElem?_eq_some_iff.mp hreq).1
    have hth := List.getElem?_eq_getElem hi
    refine ⟨i, _, hth, (h.story i _ req hth hreq).holding (hlocked.resolve_right ?_)⟩
    rintro ⟨rcu, hrcu, hcodes⟩
    exact hrcu (hf.unlocks i rcu hcodes)

/-- The next call of a thread returns 0, unless it waits. -/
theorem Stands.can_succeed (h : Stands acts p) (hth : p.threads[i]? = some th)
    (hpc : th.pc ≠ .exited) (hfree : th.pc = .locking → ∀ m, p.mutexes m = none) :
    ∃ call q, p.step (.thread i call 0) = some q := by
  obtain ⟨req, hreq⟩ := h.request hth
  have hrecord := h.record i th req hth hreq (h.not_joined hth hpc)
  have hgo : ∀ call mutexes, (req.data (succeeded (calls i acts))).call th.pc = some call →
      Process.settle p.mutexes (.thread i) call 0 = some mutexes →
        ∃ call q, p.step (.thread i call 0) = some q := by
    intro call mutexes hcall hsettle
    refine ⟨call, Option.isSome_iff_exists.mp ?_⟩
    rw [Process.step, if_neg (ne_true_of_eq_false h.running)]
    simp only [hth, Option.bind_some, Process.thread, if_neg hpc, hrecord, if_pos hcall, hsettle,
      Option.map_some, Option.isSome_some]
  cases hcase : th.pc with
  | exited => exact absurd hcase hpc
  | obtaining | releasing | unlocking => exact hgo _ _ (by rw [hcase]; rfl) rfl
  | locking =>
    refine hgo (.lock req.mutex) (Function.update p.mutexes req.mutex (some (.thread i)))
      (by rw [hcase]; rfl) ?_
    rw [Process.settle, if_pos rfl, hfree hcase req.mutex]
    rfl

/-- While a thread has not exited, some thread can go on. -/
theorem Free.can_go (hf : Free acts p) (h : Stands acts p) (hth : p.threads[i]? = some th)
    (hpc : th.pc ≠ .exited) : ∃ j call q, p.step (.thread j call 0) = some q := by
  by_cases hheld : ∃ m, p.mutexes m ≠ none
  · obtain ⟨m, hm⟩ := hheld
    obtain ⟨holder, hholder⟩ := Option.ne_none_iff_exists'.mp hm
    obtain ⟨j, th', hth', hpc'⟩ := hf.holder h hholder
    refine ⟨j, h.can_succeed hth' ?_ ?_⟩
    · rcases hpc' with hpc' | hpc' <;> simp [hpc']
    · rcases hpc' with hpc' | hpc' <;> simp [hpc']
  · exact ⟨i, h.can_succeed hth hpc fun _ m => not_not.mp fun hm => hheld ⟨m, hm⟩⟩

/-- So far every call of this thread for its mutex has returned 0. -/
def Clean (i : Nat) (acts : List Act) : Prop := ∀ rc ∈ codes (calls i acts), rc = 0

theorem Story.clean (h : Story req pc l) (hpc : pc ≠ .exited) : ∀ rc ∈ codes l, rc = 0 := by
  cases pc with
  | exited => exact absurd rfl hpc
  | obtaining =>
    obtain rfl := h
    simp [codes]
  | locking =>
    obtain ⟨r, rfl⟩ := h
    simp [codes]
  | releasing =>
    obtain ⟨r, rfl⟩ := h
    simp [codes]
  | unlocking =>
    obtain ⟨r, r', rfl⟩ := h
    simp [codes]

theorem Clean.step (h : Clean i acts) (j : Nat) (call : Call) :
    Clean i (acts ++ [.thread j call 0]) := by
  intro rc hrc
  rcases codes_step i j acts call with hsame | hmore
  · exact h rc (hsame ▸ hrc)
  · rw [hmore, List.mem_append, List.mem_singleton] at hrc
    exact hrc.elim (h rc) id

/-- A thread that is through without an error has set its flag. -/
theorem Story.done (h : Story req .exited l) (hclean : ∀ rc ∈ codes l, rc = 0) :
    codes l = [0, 0] := by
  rcases h with ⟨r, rcm, hrcm, rfl⟩ | ⟨r, r', rcu, rfl⟩
  · exact absurd (hclean rcm (by simp [codes])) hrcm
  · simpa [codes] using hclean rcu (by simp [codes])

/-- What a schedule without failures keeps: the calls made and left add up, and the threads that
were on their way are so still, or through without an error. -/
structure Going (acts : List Act) (p : Process) (more : List Act) (q : Process) : Prop where
  stands : Stands (acts ++ more) q
  free : Free (acts ++ more) q
  count : q.left + more.length = p.left
  clean : ∀ (i : Nat) (th : Thread), p.threads[i]? = some th → th.pc ≠ .exited →
    Clean i (acts ++ more) ∧ ∃ th' : Thread, q.threads[i]? = some th' ∧ th'.joined = false

theorem Going.start (h : Stands acts p) (hf : Free acts p) : Going acts p [] p where
  stands := by rwa [List.append_nil]
  free := by rwa [List.append_nil]
  count := rfl
  clean i th hth hpc := by
    obtain ⟨req, hreq⟩ := h.request hth
    refine ⟨?_, th, hth, h.not_joined hth hpc⟩
    rw [List.append_nil]
    exact (h.story i th req hth hreq).clean hpc

theorem Going.step {more : List Act} {act : Act} {r : Process} (hg : Going acts p more q)
    (hstep : q.step act = some r) (hgood : act.succeeds = true) :
    Going acts p (more ++ [act]) r := by
  cases act with
  | start | take | give | join => cases hgood
  | thread i call rc =>
    obtain rfl := of_decide_eq_true hgood
    obtain ⟨th, hth, hpc, hthreads, -⟩ := hg.stands.succeed hstep
    refine ⟨?_, ?_, ?_, fun j th₀ hth₀ hpc₀ => ?_⟩
    · rw [← List.append_assoc]
      exact stands_step hg.stands hstep rfl
    · rw [← List.append_assoc]
      exact hg.free.step hg.stands hstep
    · have hleft : r.left + th.pc.left = q.left + (threadfunc th.pc 0).1.left := by
        rw [Process.left, hthreads]
        exact left_set hth _
      have hone := left_threadfunc hpc
      have hcount := hg.count
      rw [List.length_append, List.length_singleton]
      omega
    · obtain ⟨hclean, th', hth', hjoined⟩ := hg.clean j th₀ hth₀ hpc₀
      refine ⟨List.append_assoc acts more _ ▸ hclean.step i call, ?_⟩
      rw [hthreads]
      by_cases hij : j = i
      · subst hij
        rw [hth] at hth'
        cases hth'
        exact ⟨_, List.getElem?_set_self (List.getElem?_eq_some_iff.mp hth).1, hjoined⟩
      · exact ⟨th', (List.getElem?_set_ne (Ne.symm hij)).trans hth', hjoined⟩

theorem going_run {more : List Act} (h : Stands acts p) (hf : Free acts p)
    (hmore : run Process.step p more = some q) (hgood : ∀ act ∈ more, act.succeeds = true) :
    Going acts p more q := by
  induction more using List.reverseRecOn generalizing q with
  | nil =>
    cases hmore
    exact Going.start h hf
  | append_singleton more act ih =>
    obtain ⟨u, hu, hstep⟩ := run_concat_eq_some.mp hmore
    exact (ih hu fun a ha => hgood a (List.mem_append_left _ ha)).step hstep (hgood act (by simp))

/-- Whatever the threads have done before, and in whatever order they go on: while not all have
exited, some thread can make a call that succeeds; the calls left are counted down one by one; and
a thread that was on its way reports success when it is through. -/
theorem schedule_ends (acts more : List Act) (p q : Process)
    (h : run Process.step Process.start acts = some p)
    (hgranted : ∀ act ∈ acts, act.granted = true) (hfree : Free acts p)
    (hmore : run Process.step p more = some q) (hgood : ∀ act ∈ more, act.succeeds = true) :
    q.left + more.length = p.left ∧
      (∀ th ∈ q.threads, th.pc ≠ .exited → ∃ i call r, q.step (.thread i call 0) = some r) ∧
      ∀ (i : Nat) (th th' : Thread), p.threads[i]? = some th → th.pc ≠ .exited →
        q.threads[i]? = some th' → th'.pc = .exited →
          (q.heap th'.param).map ThreadData.threadCompleteSuccess = some true := by
  have hg := going_run (stands_run h hgranted) hfree hmore hgood
  refine ⟨hg.count, fun th hmem hpc => ?_, fun i th th' hth hpc hth' hexited => ?_⟩
  · obtain ⟨i, hi⟩ := List.mem_iff_getElem?.mp hmem
    exact hg.free.can_go hg.stands hi hpc
  · obtain ⟨hclean, th₁, hth₁, hjoined⟩ := hg.clean i th hth hpc
    rw [hth'] at hth₁
    cases hth₁
    obtain ⟨req, hreq⟩ := hg.stands.request hth'
    have hstory := hg.stands.story i th' req hth' hreq
    rw [hexited] at hstory
    rw [hg.stands.record i th' req hth' hreq hjoined, succeeded, hstory.done hclean]
    rfl

/-- The second of two threads for one mutex has it. -/
def entered : List Act :=
  [.start ⟨1, 1, 2⟩ (some 10) 0, .start ⟨1, 0, 5⟩ (some 20) 0, .thread 1 (.usleep 0) 0,
    .thread 1 (.lock 1) 0]

/-- It gives the mutex back, and the first takes it. -/
def handsOver : List Act :=
  [.thread 0 (.usleep 1000) 0, .thread 1 (.usleep 5000) 0, .thread 1 (.unlock 1) 0,
    .thread 0 (.lock 1) 0, .thread 0 (.usleep 2000) 0, .thread 0 (.unlock 1) 0]

theorem codes_entered (i : Nat) : (codes (calls i entered)).length ≤ 1 := by
  by_cases hi : 1 = i <;> simp [entered, calls, codes, hi]

theorem free_entered {p : Process} (h : run Process.step Process.start entered = some p) :
    Free entered p := by
  refine ⟨fun m hheld => ?_, fun i rcu hcodes => ?_⟩
  · have hmutexes : p.mutexes = Function.update (fun _ => none) 1 (some (.thread 1)) := by
      cases h
      rfl
    rw [hmutexes] at hheld
    by_cases hm : m = 1
    · subst hm
      cases hheld
    · rw [Function.update_of_ne hm] at hheld
      cases hheld
  · have hlength := codes_entered i
    rw [hcodes] at hlength
    simp at hlength

theorem schedule_ends_entered : ∃ p q, run Process.step Process.start entered = some p ∧
    run Process.step p handsOver = some q ∧ q.left + 6 = p.left ∧
      (q.heap 10).map ThreadData.threadCompleteSuccess = some true := by
  obtain ⟨p, hp⟩ := Option.isSome_iff_exists.mp (show
    (run Process.step Process.start entered).isSome = true by decide +kernel)
  obtain ⟨q, hq⟩ := Option.isSome_iff_exists.mp (show
    (run Process.step Process.start (entered ++ handsOver)).isSome = true by decide +kernel)
  have hthread : (run Process.step Process.start entered).bind (·.threads[0]?) =
      some ⟨.obtaining, 10, false⟩ := by decide +kernel
  have hthread' : (run Process.step Process.start (entered ++ handsOver)).bind (·.threads[0]?) =
      some ⟨.exited, 10, false⟩ := by decide +kernel
  rw [hp] at hthread
  rw [hq] at hthread'
  obtain ⟨u, hu, hmore⟩ := run_append_eq_some.mp hq
  rw [hp] at hu
  cases hu
  obtain ⟨hcount, -, hflag⟩ := schedule_ends entered handsOver p q hp (by decide)
    (free_entered hp) hmore (by decide)
  exact ⟨p, q, hp, hmore, hcount, hflag 0 _ _ hthread (by decide) hthread' rfl⟩

end Aesd.Threading
