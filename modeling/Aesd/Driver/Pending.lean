import Aesd.Driver.Position

/-!
# The pending bytes under failing allocations

`working_entry` and `working_size` stand for the pending bytes as long as no
`krealloc` result overwrites a pointer that is still needed. Two refusals do:
the one of the growing call while bytes are pending, and the one of the
shrinking call while bytes are left over.
-/
namespace Aesd.Pending

open BlockHeap BlockHeap.Heap Kernel CircularBuffer CharDevice WriteEffect Ownership Position
open Segments

/-- `working_entry` leads to a block whose first `working_size` bytes were all written; with
nothing pending the pointer does not matter. -/
def Represented (s : State) : Prop :=
  s.dev.workingSize = 0 ∨ ∃ b cs, s.dev.workingEntry = .block b ∧ s.heap.block b = some cs ∧
    s.dev.workingSize ≤ cs.length ∧ ∀ c ∈ cs.take s.dev.workingSize, c.written = true

/-- The offset of the first newline among the pending and the newly written bytes. -/
def newlineAt (buf : List UInt8) (s : State) : Option Nat :=
  ((pending s).map Cell.val ++ buf).findIdx? (· = newline)

/-- The growing `krealloc` is reached and refused while bytes are pending. -/
def LosesGrow (env : WriteEnv) (buf : List UInt8) (s : State) : Prop :=
  Reaches env buf ∧ env.grow.granted = false ∧ 0 < s.dev.workingSize

/-- The shrinking `krealloc` is reached and refused while bytes follow the newline. -/
def LosesShrink (env : WriteEnv) (buf : List UInt8) (s : State) : Prop :=
  Reaches env buf ∧ env.grow.granted = true ∧ env.entry.granted = true ∧
    env.shrink.granted = false ∧ ∃ i, newlineAt buf s = some i ∧ i + 1 < s.dev.workingSize + buf.length

/-- The call is a write in which one of the two happens. -/
def Loses (x : Session) : Op → Prop
  | .write _ env buf => LosesGrow env buf x.state ∨ LosesShrink env buf x.state
  | _ => False

/-- No stored byte is one nobody wrote. -/
def Clean (s : State) : Prop := ∀ entry ∈ contents s, ∀ c ∈ entry, c.written = true

variable {s : State} {env : WriteEnv} {buf : List UInt8} {r : WriteResult}

theorem represented_iff (hs : Sound s) : Represented s ↔
    (pendingCells s).length = s.dev.workingSize ∧ ∀ c ∈ pendingCells s, c.written = true := by
  cases hw : s.dev.workingEntry with
  | null | emptyToken => simp [Represented, pendingCells, hw, eq_comm (a := 0)]
  | block b =>
    obtain ⟨cs, hcs, hlen, hne⟩ := hs.working b hw
    have hpos : s.dev.workingSize ≠ 0 := by
      rw [← hlen]
      exact mt List.eq_nil_of_length_eq_zero hne
    simp [Represented, pendingCells, hw, cells_block hcs, hcs, ← hlen, hne]

theorem pending_eq (hs : Sound s) (hr : Represented s) : pending s = pendingCells s := by
  rw [pending, load, List.drop_zero]
  exact List.take_of_length_le (Nat.le_of_eq ((represented_iff hs).mp hr).1)

/-- The loop finds the pending bytes in front of the new ones, as their writers left them. -/
theorem gathered_eq (hs : Sound s) (hr : Represented s) (env : WriteEnv) (buf : List UInt8) :
    gathered env buf s = pending s ++ writtenCells buf := by
  rw [gathered_of_length ((represented_iff hs).mp hr).1, pending_eq hs hr]

theorem gathered_written (hs : Sound s) (hr : Represented s) {c : Cell UInt8}
    (hc : c ∈ gathered env buf s) : c.written = true := by
  rw [gathered_eq hs hr, pending_eq hs hr] at hc
  rcases List.mem_append.mp hc with hc | hc
  · exact ((represented_iff hs).mp hr).2 c hc
  · exact written_of_mem_writtenCells hc

theorem lineEnd_eq (hs : Sound s) (hr : Represented s) (env : WriteEnv) (buf : List UInt8) :
    lineEnd env buf s = newlineAt buf s := by
  rw [lineEnd, gathered_eq hs hr, List.map_append, map_val_writtenCells, newlineAt]

/-- The pending block after a call that left it alone. -/
theorem pendingCells_congr {heap : Memory} {dev : AesdDev} (hblock : heap.block = s.heap.block)
    (hdev : dev.workingEntry = s.dev.workingEntry) : pendingCells ⟨heap, dev⟩ = pendingCells s := by
  simp only [pendingCells, cells, hdev, hblock]

/-- What a write leaves pending when it keeps pointer and size together: the bytes it found,
all it gathered, or those behind the entry. -/
inductive Outcome (env : WriteEnv) (buf : List UInt8) (s : State) (r : WriteResult) : Prop where
  | rejected (hr : Reaches env buf → env.grow.granted = false)
      (hret : r.retval = buf.length → buf = []) (hadded : r.added = [])
      (hcells : pendingCells r.state = pendingCells s)
      (hsize : r.state.dev.workingSize = s.dev.workingSize)
  | kept (hr : Reaches env buf) (hadded : r.added = [])
      (hret : (newlineAt buf s = none ∧ r.retval = buf.length) ∨
        (newlineAt buf s ≠ none ∧ env.entry.granted = false ∧ r.retval = -eNoMem))
      (hcells : pendingCells r.state = gathered env buf s)
      (hsize : r.state.dev.workingSize = (gathered env buf s).length)
  | committed (i : Nat) (hr : Reaches env buf) (hret : r.retval = buf.length)
      (hl : newlineAt buf s = some i) (hadded : r.added = [(gathered env buf s).take (i + 1)])
      (hcells : pendingCells r.state = (gathered env buf s).drop (i + 1))
      (hsize : r.state.dev.workingSize = ((gathered env buf s).drop (i + 1)).length)

theorem outcome (hs : Sound s) (hr : Represented s) (h : Effect env buf s r)
    (hgrow : ¬ LosesGrow env buf s) (hshrink : ¬ LosesShrink env buf s) : Outcome env buf s r := by
  have hnomem : ∀ n : Nat, (-eNoMem : Int) ≠ n := by
    intro n
    unfold eNoMem
    omega
  cases h with
  | interrupted hi =>
    refine .rejected (fun hreach => ?_) (fun he => absurd he ?_) rfl rfl rfl
    · simp [hreach.1] at hi
    · simp only [eRestartSys]
      omega
  | notStarted retval heap _ hret hblock =>
    refine .rejected (fun hreach => (not_given_up hreach hret).elim) (fun he => ?_) rfl
      (pendingCells_congr hblock rfl) rfl
    rcases hret with ⟨-, -, rfl⟩ | ⟨-, -, -, rfl⟩ | ⟨hbuf, -⟩
    · exact absurd he (hnomem _)
    · simp only [eFault] at he
      omega
    · exact hbuf
  | growRefused heap hreach hg =>
    have hzero : s.dev.workingSize = 0 := by
      apply Nat.eq_zero_of_not_pos
      exact fun hpos => hgrow ⟨hreach, hg, hpos⟩
    have hnil : pendingCells s = [] := by
      apply List.eq_nil_of_length_eq_zero
      rw [((represented_iff hs).mp hr).1, hzero]
    exact .rejected (fun _ => hg) (fun he => absurd he (hnomem _)) rfl hnil.symm rfl
  | kept retval heap b hreach hg hl _ hblock =>
    rw [lineEnd_eq hs hr] at hl
    refine .kept hreach rfl hl ?_ rfl
    simp [pendingCells, unlocked, cells, hblock]
  | committed heap i e p hreach hg hl he _ hp =>
    rw [lineEnd_eq hs hr] at hl
    refine .committed i hreach rfl hl rfl ?_ rfl
    rcases hp with ⟨hnil, rfl, -⟩ | ⟨-, -, w, -, -, rfl, hblock⟩ | ⟨hne, hsh, -⟩
    · simp [pendingCells, unlocked, hnil]
    · simp [pendingCells, unlocked, cells, hblock]
    · refine absurd ⟨hreach, hg, he, hsh, i, hl, ?_⟩ hshrink
      have := List.length_pos_iff.mpr hne
      rw [List.length_drop, length_gathered] at this
      omega

theorem working_lost (hs : Sound s) (hr : Represented s) (h : Effect env buf s r)
    (hlose : LosesGrow env buf s ∨ LosesShrink env buf s) :
    r.state.dev.workingEntry = .null ∧ 0 < r.state.dev.workingSize := by
  rcases hlose with ⟨hreach, hg, hpos⟩ | ⟨hreach, hg, he, hsh, i, hl, hi⟩
  · obtain ⟨-, hdev⟩ := h.refuses hreach hg
    rw [hdev]
    exact ⟨rfl, hpos⟩
  · rw [← lineEnd_eq hs hr env buf] at hl
    obtain ⟨e, p, -, hp, hdev⟩ := h.commits hreach hg he hl
    have hpos : 0 < ((gathered env buf s).drop (i + 1)).length := by
      rw [List.length_drop, length_gathered]
      omega
    rw [hdev]
    rcases hp with ⟨hnil, -⟩ | ⟨-, hsh', -⟩ | ⟨-, -, hp, -⟩
    · simp [hnil] at hpos
    · simp [hsh] at hsh'
    · exact ⟨hp, hpos⟩

/-- The pair of pointer and size is broken by the two refusals and by nothing else. -/
theorem represented_write (hs : Sound s) (hr : Represented s) (h : Effect env buf s r) :
    Represented r.state ↔ ¬ (LosesGrow env buf s ∨ LosesShrink env buf s) := by
  constructor
  · intro hr' hlose
    obtain ⟨hnull, hpos⟩ := working_lost hs hr h hlose
    rcases hr' with hzero | ⟨b, _, hb, -⟩
    · omega
    · simp [hnull] at hb
  · intro hkeep
    rw [not_or] at hkeep
    rw [represented_iff (hs.write h)]
    cases outcome hs hr h hkeep.1 hkeep.2 with
    | rejected _ _ _ hcells hsize =>
      rw [hcells, hsize]
      exact (represented_iff hs).mp hr
    | kept _ _ _ hcells hsize =>
      rw [hcells, hsize]
      exact ⟨rfl, fun c hc => gathered_written hs hr hc⟩
    | committed i _ _ _ _ hcells hsize =>
      rw [hcells, hsize]
      exact ⟨rfl, fun c hc => gathered_written hs hr (List.mem_of_mem_drop hc)⟩

theorem faults_write (hs : Sound s) (hr : Represented s) (h : Effect env buf s r) :
    r.state.heap.faults = s.heap.faults := by
  obtain ⟨fs, hfs, -, hnil⟩ := h.faults
  rw [hfs, hnil fun c hc => gathered_written hs hr hc]
  rfl

/-- A write commits gathered bytes only. -/
theorem mem_added (h : Effect env buf s r) {entry : List (Cell UInt8)} (he : entry ∈ r.added)
    {c : Cell UInt8} (hc : c ∈ entry) : c ∈ gathered env buf s := by
  cases h with
  | interrupted | notStarted | growRefused | kept => cases he
  | committed =>
    obtain rfl := List.mem_singleton.mp he
    exact List.mem_of_mem_take hc

/-- What a write commits is a line. -/
theorem isLine_added (h : Effect env buf s r) {entry : List (Cell UInt8)} (he : entry ∈ r.added) :
    IsLine newline (entry.map Cell.val) := by
  cases h with
  | interrupted | notStarted | growRefused | kept => cases he
  | committed _ _ _ _ _ _ hl =>
    obtain rfl := List.mem_singleton.mp he
    rw [List.map_take]
    exact isLine_take_of_findIdx hl

theorem clean_write (hs : Sound s) (hr : Represented s) (hc : Clean s) (h : Effect env buf s r) :
    Clean r.state := by
  intro entry he c hmem
  rw [hs.contents_write h] at he
  rcases List.mem_append.mp (List.mem_of_mem_drop he) with he | he
  · exact hc entry he c hmem
  · exact gathered_written hs hr (mem_added h he hmem)

theorem start_clean (buffer : Alloc) (dev : AesdDev) :
    Represented (Session.start buffer dev).state ∧ Clean (Session.start buffer dev).state ∧
      (Session.start buffer dev).state.heap.faults = [] := by
  have hempty : occupied ⟨fun _ => zeroEntry, 0, 0, false⟩ = [] :=
    (init_holds ⟨fun _ => zeroEntry, 0, 0, false⟩).occupied_eq
  rw [start_state]
  cases buffer.granted <;> exact ⟨Or.inl rfl, by simp [Clean, contents, hempty], rfl⟩

/-- After the calls `ops` the pending bytes are represented, no call has left its blocks or used
a byte nobody wrote, and no read has delivered one. -/
structure Intact (x : Session) (ops : List Op) : Prop where
  represented : Represented (x.run ops).state
  faults : (x.run ops).state.heap.faults = []
  delivered : ∀ c ∈ x.observe Session.delivered ops, c.written = true

theorem represented_apply {x : Session} (hs : Sound x.state) (hr : Represented x.state) {op : Op}
    (hlose : ¬ Loses x op) : Represented (x.apply op).state := by
  rw [apply_state hs]
  cases op with
  | write _ env buf =>
    exact (represented_write hs hr (aesdWrite_effect env buf hs.releasable)).mpr hlose
  | read | llseek | ioctl => exact hr

theorem intact_step {x : Session} (hs : Sound x.state) (hr : Represented x.state)
    (hc : Clean x.state) (op : Op) (hkeep : ¬ Loses x op) :
    Represented (x.apply op).state ∧ Clean (x.apply op).state ∧
      (x.apply op).state.heap.faults = x.state.heap.faults ∧
      ∀ c ∈ x.delivered op, c.written = true := by
  refine ⟨represented_apply hs hr hkeep, ?_⟩
  rw [apply_state hs]
  cases op with
  | write _ env buf =>
    have heff := aesdWrite_effect env buf hs.releasable
    exact ⟨clean_write hs hr hc heff, faults_write hs hr heff, by simp [Session.delivered]⟩
  | read =>
    refine ⟨hc, rfl, fun c hmem => ?_⟩
    obtain ⟨entry, he, hce⟩ := mem_aesdRead hs hmem
    exact hc entry he c hce
  | llseek | ioctl => exact ⟨hc, rfl, by simp [Session.delivered]⟩

theorem run_intact (buffer : Alloc) (dev : AesdDev) {ops : List Op}
    (h : ∀ pre op, pre ++ [op] <+: ops → ¬ Loses ((Session.start buffer dev).run pre) op) :
    Intact (Session.start buffer dev) ops ∧ Clean ((Session.start buffer dev).run ops).state := by
  induction ops using List.reverseRecOn with
  | nil =>
    obtain ⟨hr, hc, hf⟩ := start_clean buffer dev
    exact ⟨⟨hr, hf, by simp⟩, hc⟩
  | append_singleton ops op ih =>
    obtain ⟨⟨hr, hf, hd⟩, hc⟩ := ih fun pre op' hp => h pre op' (hp.trans (List.prefix_append _ _))
    obtain ⟨hr', hc', hf', hd'⟩ := intact_step (run_sound (start_sound buffer dev) ops) hr hc op
      (h ops op List.prefix_rfl)
    rw [← Session.run_concat] at hr' hc' hf'
    refine ⟨⟨hr', hf'.trans hf, fun c hmem => ?_⟩, hc'⟩
    rw [Session.observe_concat] at hmem
    exact (List.mem_append.mp hmem).elim (hd c) (hd' c)

/-- The pending bytes survive every call of a run exactly when none of its writes has a
`krealloc` refused while bytes are pending or left over. -/
theorem intact_iff_nothing_lost (buffer : Alloc) (dev : AesdDev) (ops : List Op) :
    (∀ pre, pre <+: ops → Intact (Session.start buffer dev) pre) ↔
      ∀ pre op, pre ++ [op] <+: ops → ¬ Loses ((Session.start buffer dev).run pre) op := by
  constructor
  · intro h pre op hp hlose
    have hs := run_sound (start_sound buffer dev) pre
    have hr := (h pre ((List.prefix_append pre [op]).trans hp)).represented
    have hr' := (h _ hp).represented
    rw [Session.run_concat, apply_state hs] at hr'
    cases op with
    | write _ env buf =>
      exact (represented_write hs hr (aesdWrite_effect env buf hs.releasable)).mp hr' hlose
    | read | llseek | ioctl => exact hlose
  · intro h pre hp
    exact (run_intact buffer dev fun pre' op hp' => h pre' op (hp'.trans hp)).1

/-- An allocator that grants a request over memory full of zeros. -/
def grant : Alloc := ⟨true, fun _ => 0⟩

def refuse : Alloc := ⟨false, fun _ => 0⟩

/-- Everything succeeds. -/
def fine : WriteEnv := ⟨false, grant, false, grant, grant, grant⟩

/-- A device record of zeros. -/
def blank : AesdDev := ⟨.null, 0, false, ⟨fun _ => zeroEntry, 0, 0, false⟩, .null, 0⟩

/-- With `a` pending, the growing `krealloc` of the write of `b` is refused. A later line then
starts with a byte nobody wrote, and a read delivers it. -/
theorem junk_delivered : ¬ ∀ (buffer : Alloc) (dev : AesdDev) (ops pre : List Op), pre <+: ops →
    Intact (Session.start buffer dev) pre := by
  intro h
  have hd := (h grant blank _ [.write 0 fine [97], .write 0 { fine with grow := refuse } [98],
    .write 0 fine [99, 10], .read 0 false false 16] List.prefix_rfl).delivered
  revert hd
  decide

end Aesd.Pending
