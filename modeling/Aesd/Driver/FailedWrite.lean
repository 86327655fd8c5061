import Aesd.Driver.Pending

/-!
# Writes that fail

What a write returns, commits and leaves pending is a function of the bytes
that were pending before it. A write that fails early leaves all of them as
they were; one that fails in the loop does so only if nothing was pending and
no newline was found.
-/
namespace Aesd.FailedWrite

open BlockHeap BlockHeap.Heap Kernel CharDevice WriteEffect Ownership Position Pending

/-- What a program can tell a write by: the result, the entries committed, the bytes left in
`working_entry`, and `working_size`. -/
structure Summary where
  retval : Int
  added : List (List (Cell UInt8))
  cells : List (Cell UInt8)
  size : Nat
  deriving DecidableEq

/-- A write that leaves the pending bytes alone. -/
def Summary.still (retval : Int) (cells : List (Cell UInt8)) (size : Nat) : Summary :=
  ⟨retval, [], cells, size⟩

/-- The round of the loop, once everything is gathered. -/
def Summary.round (env : WriteEnv) (count : Nat) (all : List (Cell UInt8)) : Summary :=
  match (all.map Cell.val).findIdx? (· = newline) with
  | none => ⟨count, [], all, all.length⟩
  | some i =>
    if env.entry.granted = false then ⟨-eNoMem, [], all, all.length⟩
    else if all.drop (i + 1) ≠ [] ∧ env.shrink.granted = false then
      ⟨count, [all.take (i + 1)], [], (all.drop (i + 1)).length⟩
    else ⟨count, [all.take (i + 1)], all.drop (i + 1), (all.drop (i + 1)).length⟩

/-- `aesd_write` on the pending bytes `cells` and `working_size`. -/
def summary (env : WriteEnv) (buf : List UInt8) (cells : List (Cell UInt8)) (size : Nat) : Summary :=
  if env.interrupted = true then .still (-eRestartSys) cells size
  else if buf = [] then .still 0 cells size
  else if env.kbuf.granted = false then .still (-eNoMem) cells size
  else if env.copyFails = true then .still (-eFault) cells size
  else if env.grow.granted = false then .still (-eNoMem) [] size
  else .round env buf.length ((resized env.grow cells (size + buf.length)).take size ++ writtenCells buf)

/-- What a call of `aesd_write` shows of itself. -/
def shown (r : WriteResult) : Summary :=
  ⟨r.retval, r.added, pendingCells r.state, r.state.dev.workingSize⟩

variable {s : State} {env : WriteEnv} {buf : List UInt8} {r : WriteResult}

theorem summary_reaches (hr : Reaches env buf) (hg : env.grow.granted = true) :
    summary env buf (pendingCells s) s.dev.workingSize =
      .round env buf.length (gathered env buf s) := by
  obtain ⟨hi, hk, hc, hbuf⟩ := hr
  simp only [summary, hi, hk, hc, hg, hbuf, Bool.false_eq_true, Bool.true_eq_false, if_false]
  rfl

/-- The driver's write is the one on the pending bytes. -/
theorem shown_eq (h : Effect env buf s r) :
    shown r = summary env buf (pendingCells s) s.dev.workingSize := by
  cases h with
  | interrupted hi => simp [summary, shown, hi, Summary.still]
  | notStarted retval heap hi hret hblock =>
    have hcells : pendingCells ⟨heap, unlocked s.dev⟩ = pendingCells s := pendingCells_congr hblock rfl
    rw [shown, hcells]
    rcases hret with ⟨hbuf, hk, rfl⟩ | ⟨hbuf, hk, hc, rfl⟩ | ⟨hbuf, rfl⟩
    · simp [summary, hi, hbuf, hk, Summary.still, unlocked]
    · simp [summary, hi, hbuf, hk, hc, Summary.still, unlocked]
    · simp [summary, hi, hbuf, Summary.still, unlocked]
  | growRefused heap hr hg =>
    obtain ⟨hi, hk, hc, hbuf⟩ := hr
    simp [summary, shown, hi, hk, hc, hbuf, hg, Summary.still, pendingCells, unlocked]
  | kept retval heap b hr hg hl _ hblock =>
    have hcells : pendingCells ⟨heap, unlocked { s.dev with
        workingEntry := .block b
        workingSize := (gathered env buf s).length }⟩ = gathered env buf s := by
      simp [pendingCells, unlocked, Heap.cells, hblock]
    rw [summary_reaches hr hg, Summary.round]
    rcases hl with ⟨hl, rfl⟩ | ⟨hl, he, rfl⟩
    · rw [lineEnd] at hl
      rw [hl, shown, hcells]
      rfl
    · obtain ⟨i, hl⟩ := Option.ne_none_iff_exists'.mp hl
      rw [lineEnd] at hl
      simp only [hl, he, if_true]
      rw [shown, hcells]
      rfl
  | committed heap i e p hr hg hl he _ hp =>
    rw [lineEnd] at hl
    rw [summary_reaches hr hg, Summary.round]
    simp only [hl, he, Bool.true_eq_false, if_false]
    rcases hp with ⟨hnil, rfl, -⟩ | ⟨hne, hsh, w, -, -, rfl, hblock⟩ | ⟨hne, hsh, rfl, -⟩
    · simp [shown, pendingCells, unlocked, hnil]
    · simp [shown, pendingCells, unlocked, Heap.cells, hblock, hsh]
    · rw [if_pos ⟨hne, hsh⟩]
      simp [shown, pendingCells, unlocked]

/-- The device is as before, no block was lost or left behind, and the lock is free. -/
structure Untouched (s t : State) : Prop where
  ring : t.dev.circBuffer = s.dev.circBuffer
  stored : contents t = contents s
  size : t.dev.workingSize = s.dev.workingSize
  cells : pendingCells t = pendingCells s
  blocks : t.heap.block = s.heap.block
  lock : t.dev.lock = false

/-- A failing write leaves the device untouched, and may be tried again as if for the first time. -/
def AllOrNothing (env : WriteEnv) (buf : List UInt8) (s : State) : Prop :=
  (aesdWrite env buf s).retval < 0 → Untouched s (aesdWrite env buf s).state ∧
    ∀ again : WriteEnv,
      shown (aesdWrite again buf (aesdWrite env buf s).state) = shown (aesdWrite again buf s) ∧
      contents (aesdWrite again buf (aesdWrite env buf s).state).state =
        contents (aesdWrite again buf s).state

/-- The growing `krealloc` is refused while a block is pending, or the allocation for an entry is
refused after a newline was found. -/
def Breaks (env : WriteEnv) (buf : List UInt8) (s : State) : Prop :=
  Reaches env buf ∧ ((env.grow.granted = false ∧ ∃ b, s.dev.workingEntry = .block b) ∨
    (env.grow.granted = true ∧ env.entry.granted = false ∧ lineEnd env buf s ≠ none))

/-- Two writes of the same bytes to devices that look alike. -/
theorem shown_again (hs : Sound s) {t : State} (ht : Sound t) (h : Untouched s t) (again : WriteEnv) :
    shown (aesdWrite again buf t) = shown (aesdWrite again buf s) ∧
      contents (aesdWrite again buf t).state = contents (aesdWrite again buf s).state := by
  have hs' := aesdWrite_effect again buf hs.releasable
  have ht' := aesdWrite_effect again buf ht.releasable
  have heq : shown (aesdWrite again buf t) = shown (aesdWrite again buf s) := by
    rw [shown_eq hs', shown_eq ht', h.cells, h.size]
  have hadded : (aesdWrite again buf t).added = (aesdWrite again buf s).added :=
    congrArg Summary.added heq
  exact ⟨heq, by rw [hs.contents_write hs', ht.contents_write ht', hadded, h.stored]⟩

/-- A write that commits nothing leaves what is stored as it is. -/
theorem contents_kept (hs : Sound s) (h : Effect env buf s r) (hadded : r.added = []) :
    contents r.state = contents s := by
  rw [hs.contents_write h, hadded, List.append_nil, List.rtake,
    Nat.sub_eq_zero_of_le hs.contents_length, List.drop_zero]

/-- Unless one of the two refusals strikes, a failing write touches nothing. -/
theorem untouched_of_not_breaks (hs : Sound s) (h : Effect env buf s r)
    (hbreaks : ¬ Breaks env buf s) (hneg : r.retval < 0) : Untouched s r.state := by
  have hstored := contents_kept hs h
  cases h with
  | interrupted => exact ⟨rfl, rfl, rfl, rfl, rfl, hs.lock_free⟩
  | notStarted retval heap _ _ hblock =>
    exact ⟨rfl, hstored rfl, rfl, pendingCells_congr hblock rfl, hblock, rfl⟩
  | growRefused heap hr hg hblock =>
    refine ⟨rfl, hstored rfl, rfl, ?_, hblock, rfl⟩
    cases hw : s.dev.workingEntry with
    | block b => exact absurd ⟨hr, Or.inl ⟨hg, b, hw⟩⟩ hbreaks
    | null | emptyToken => simp [pendingCells, unlocked, hw]
  | kept retval heap b hr hg hl =>
    rcases hl with ⟨-, rfl⟩ | ⟨hl, he, -⟩
    · dsimp only at hneg
      omega
    · exact absurd ⟨hr, Or.inr ⟨hg, he, hl⟩⟩ hbreaks
  | committed =>
    dsimp only at hneg
    omega

/-- Each of the two refusals fails the write and changes what is pending. -/
theorem not_untouched_of_breaks (hs : Sound s) (h : Effect env buf s r) (hbreaks : Breaks env buf s) :
    r.retval < 0 ∧ ¬ Untouched s r.state := by
  have hshown := shown_eq h
  obtain ⟨hr, ⟨hg, b, hb⟩ | ⟨hg, he, hl⟩⟩ := hbreaks
  · obtain ⟨cs, hcs, -, hne⟩ := hs.working b hb
    obtain ⟨hi, hk, hc, hbuf⟩ := hr
    simp only [summary, hi, hk, hc, hbuf, hg, Bool.false_eq_true, Bool.true_eq_false, if_false,
      if_true] at hshown
    have hret : r.retval = -eNoMem := congrArg Summary.retval hshown
    have hcells : pendingCells r.state = [] := congrArg Summary.cells hshown
    refine ⟨by rw [hret]; decide, fun hu => hne ?_⟩
    rw [← hcells, hu.cells, pendingCells, hb, cells_block hcs]
  · obtain ⟨i, hl⟩ := Option.ne_none_iff_exists'.mp hl
    rw [lineEnd] at hl
    rw [summary_reaches hr hg, Summary.round] at hshown
    simp only [hl, he, if_true] at hshown
    have hret : r.retval = -eNoMem := congrArg Summary.retval hshown
    have hsize : r.state.dev.workingSize = (gathered env buf s).length := congrArg Summary.size hshown
    refine ⟨by rw [hret]; decide, fun hu => hr.2.2.2 (List.eq_nil_of_length_eq_zero ?_)⟩
    have := hu.size
    rw [hsize, length_gathered] at this
    omega

/-- On every device the calls of a program can lead to, a write is all or nothing on error exactly
when neither of the two refusals strikes. -/
theorem allOrNothing_iff (buffer : Alloc) (dev : AesdDev) (ops : List Op) (env : WriteEnv)
    (buf : List UInt8) : AllOrNothing env buf ((Session.start buffer dev).run ops).state ↔
      ¬ Breaks env buf ((Session.start buffer dev).run ops).state := by
  have hs := run_sound (start_sound buffer dev) ops
  have heff := aesdWrite_effect env buf hs.releasable
  constructor
  · intro hall hbreaks
    obtain ⟨hneg, hnot⟩ := not_untouched_of_breaks hs heff hbreaks
    exact hnot (hall hneg).1
  · intro hbreaks hneg
    have huntouched := untouched_of_not_breaks hs heff hbreaks hneg
    exact ⟨huntouched, shown_again hs (hs.write heff) huntouched⟩

/-- One newline that finds no memory for its entry stays pending, although the write fails. -/
theorem failed_newline_kept : ¬ ∀ (buffer : Alloc) (dev : AesdDev) (ops : List Op) (env : WriteEnv)
    (buf : List UInt8), AllOrNothing env buf ((Session.start buffer dev).run ops).state := by
  intro h
  have hall := h grant blank [] { fine with entry := refuse } [10] (by decide)
  exact absurd hall.1.size (by decide)

end Aesd.FailedWrite
