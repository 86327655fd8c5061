import Aesd.Driver.Pending

/-!
# The device against the stream of bytes

All bytes ever written form one stream. With the allocations of the loop
granted no byte of it gets lost between the entries and the pending bytes; with
at most one newline in every write the entries are moreover the lines of the
stream, and the pending bytes its unfinished end.
-/
namespace Aesd.Stream

open BlockHeap BlockHeap.Heap Kernel CircularBuffer CharDevice WriteEffect Ownership Position Pending
open Segments CyclicSlots

/-- The allocations of the loop succeed. -/
def LoopGranted (env : WriteEnv) : Prop :=
  env.grow.granted = true ∧ env.entry.granted = true ∧ env.shrink.granted = true

/-- Every service of the kernel succeeds. -/
def Granted (env : WriteEnv) : Prop :=
  env.interrupted = false ∧ env.kbuf.granted = true ∧ env.copyFails = false ∧ LoopGranted env

/-- The bytes a call offers to the device. -/
def data : Op → List UInt8
  | .write _ _ buf => buf
  | _ => []

variable {s : State} {env : WriteEnv} {buf : List UInt8} {r : WriteResult}

/-- Neither of the two refusals can happen. -/
theorem not_loses_granted (hg : LoopGranted env) (buf : List UInt8) (s : State) :
    ¬ (LosesGrow env buf s ∨ LosesShrink env buf s) := by
  rintro (⟨-, hgrow, -⟩ | ⟨-, -, -, hshrink, -⟩)
  · simp [hg.1] at hgrow
  · simp [hg.2.2] at hshrink

/-- With the loop's allocations granted a write either takes nothing or takes every byte. -/
theorem outcome_granted (hs : Sound s) (hr : Represented s) (hg : LoopGranted env)
    (h : Effect env buf s r) : Outcome env buf s r := by
  obtain ⟨hgrow, hshrink⟩ := not_or.mp (not_loses_granted hg buf s)
  exact outcome hs hr h hgrow hshrink

theorem run_represented (buffer : Alloc) (dev : AesdDev) {ops : List Op}
    (h : ∀ file env buf, .write file env buf ∈ ops → LoopGranted env) :
    Represented ((Session.start buffer dev).run ops).state := by
  refine (run_intact buffer dev fun pre op hp hlose => ?_).1.represented
  cases op with
  | write file env buf => exact not_loses_granted (h file env buf (hp.subset (by simp))) buf _ hlose
  | read | llseek | ioctl => exact hlose

/-- What a write takes is what it adds to the entries and the pending bytes. -/
theorem conserved_write (hs : Sound s) (hr : Represented s) (hg : LoopGranted env)
    (h : Effect env buf s r) :
    r.added.flatten ++ pendingCells r.state =
      pendingCells s ++ writtenCells (if r.retval = buf.length then buf else []) := by
  have hgather := gathered_eq hs hr env buf
  rw [pending_eq hs hr] at hgather
  cases outcome_granted hs hr hg h with
  | rejected _ hret hadded hcells =>
    have hnone : (if r.retval = buf.length then buf else []) = [] := by
      split
      · exact hret ‹_›
      · rfl
    rw [hnone, hadded, hcells]
    simp
  | kept _ hadded hret hcells =>
    rcases hret with ⟨-, hret⟩ | ⟨-, he, -⟩
    · rw [hadded, hcells, if_pos hret, hgather]
      rfl
    · simp [hg.2.1] at he
  | committed i _ hret _ hadded hcells =>
    rw [hadded, hcells, if_pos hret, ← hgather]
    simp

/-- With the allocations of the loop granted no accepted byte is lost, duplicated or moved:
the entries ever committed, one after the other, and the pending bytes are the bytes of the
writes that returned their count. Every entry is one line. -/
theorem accepted_conserved (buffer : Alloc) (dev : AesdDev) (ops : List Op)
    (h : ∀ file env buf, .write file env buf ∈ ops → LoopGranted env) :
    let x := Session.start buffer dev
    (x.observe Session.added ops).flatten ++ pending (x.run ops).state =
        writtenCells (x.observe Session.accepted ops) ∧
      ∀ entry ∈ x.observe Session.added ops, entry ≠ [] ∧ IsLine newline (entry.map Cell.val) := by
  intro x
  have hs := run_sound (start_sound buffer dev)
  induction ops using List.reverseRecOn with
  | nil =>
    have hr := (start_clean buffer dev).1
    rw [Session.run_nil, pending_eq (start_sound buffer dev) hr]
    refine ⟨?_, by simp⟩
    simp only [x, start_state]
    cases buffer.granted <;> rfl
  | append_singleton ops op ih =>
    have hops : ∀ file env buf, .write file env buf ∈ ops → LoopGranted env :=
      fun file env buf hmem => h file env buf (List.mem_append_left _ hmem)
    obtain ⟨hflat, hlines⟩ := ih hops
    have hr := run_represented buffer dev hops
    have hr' := run_represented buffer dev h
    rw [pending_eq (hs ops) hr] at hflat
    rw [pending_eq (hs _) hr', Session.run_concat, apply_state (hs ops), Session.observe_concat,
      Session.observe_concat]
    cases op with
    | write file env buf =>
      have hg := h file env buf (by simp)
      have heff := aesdWrite_effect env buf (hs ops).releasable
      have hstep := conserved_write (hs ops) hr hg heff
      refine ⟨?_, ?_⟩
      · simp only [Session.added, Session.accepted, List.flatten_append, List.append_assoc]
        rw [hstep, ← List.append_assoc, hflat, writtenCells_append]
      · intro entry he
        rcases List.mem_append.mp he with he | he
        · exact hlines entry he
        · have hline := isLine_added heff he
          exact ⟨fun hnil => hline.ne_nil (by simp [hnil]), hline⟩
    | read | llseek | ioctl =>
      simp only [Session.added, Session.accepted, List.append_nil]
      exact ⟨hflat, hlines⟩

/-- One write in two halves, of which a third one in between is not accepted. -/
theorem accepted_conserved_split :
    ((Session.start grant blank).observe Session.added [.write 0 fine [97],
        .write 1 { fine with copyFails := true } [120], .write 0 fine [98, 10, 99]]).flatten ++
      pending ((Session.start grant blank).run [.write 0 fine [97],
        .write 1 { fine with copyFails := true } [120], .write 0 fine [98, 10, 99]]).state =
      writtenCells [97, 98, 10, 99] := by
  refine (accepted_conserved grant blank _ ?_).1.trans (by decide)
  intro file env buf hmem
  simp only [List.mem_cons, Op.write.injEq, List.not_mem_nil, or_false] at hmem
  rcases hmem with ⟨-, rfl, -⟩ | ⟨-, rfl, -⟩ | ⟨-, rfl, -⟩ <;> exact ⟨rfl, rfl, rfl⟩

/-- The ring and the pending bytes are the newest ten lines and the unfinished end of the
stream `l`. -/
def ShowsStream (s : State) (l : List UInt8) : Prop :=
  contents s = ((segments newline l).rtake 10).map writtenCells ∧
    pending s = writtenCells (remainder newline l)

theorem reaches_of_granted (hg : Granted env) (hbuf : buf ≠ []) : Reaches env buf :=
  ⟨hg.1, hg.2.1, hg.2.2.1, hbuf⟩

/-- A write with every service granted, told by the bytes: without a newline all of them stay
pending, and otherwise the first newline divides them. -/
theorem granted_cases (hs : Sound s) (hr : Represented s) (hg : Granted env)
    (h : Effect env buf s r) {rest : List UInt8} (hp : pending s = writtenCells rest)
    (hnone : newline ∉ rest) :
    (newline ∉ rest ++ buf ∧ r.added = [] ∧ pendingCells r.state = writtenCells (rest ++ buf)) ∨
      ∃ i, (rest ++ buf).findIdx? (· = newline) = some i ∧
        r.added = [writtenCells ((rest ++ buf).take (i + 1))] ∧
        pendingCells r.state = writtenCells ((rest ++ buf).drop (i + 1)) := by
  have hsearch : newlineAt buf s = (rest ++ buf).findIdx? (· = newline) := by
    rw [newlineAt, hp, map_val_writtenCells]
  have hgather := gathered_eq hs hr env buf
  rw [hp, ← writtenCells_append] at hgather
  cases outcome_granted hs hr hg.2.2.2 h with
  | rejected hnr _ hadded hcells =>
    have hbuf : buf = [] := by
      by_contra hbuf
      have := hnr (reaches_of_granted hg hbuf)
      simp [hg.2.2.2.1] at this
    refine Or.inl ⟨by rwa [hbuf, List.append_nil], hadded, ?_⟩
    rw [hcells, ← pending_eq hs hr, hp, hbuf, List.append_nil]
  | kept _ hadded hret hcells =>
    refine Or.inl ⟨fun hmem => ?_, hadded, hcells.trans hgather⟩
    rcases hret with ⟨hl, -⟩ | ⟨-, he, -⟩
    · rw [hsearch] at hl
      simpa using List.findIdx?_eq_none_iff.mp hl newline hmem
    · simp [hg.2.2.2.2.1] at he
  | committed i _ _ hl hadded hcells =>
    rw [hsearch] at hl
    rw [hgather, take_writtenCells] at hadded
    rw [hgather, drop_writtenCells] at hcells
    exact Or.inr ⟨i, hl, hadded, hcells⟩

/-- All newlines but the first one stay behind it. -/
theorem count_behind {rest : List UInt8} (hnone : newline ∉ rest) {i : Nat}
    (hi : (rest ++ buf).findIdx? (· = newline) = some i) :
    buf.count newline = 1 + ((rest ++ buf).drop (i + 1)).count newline := by
  have hcut := congrArg (List.count newline) (List.take_append_drop (i + 1) (rest ++ buf))
  rw [List.count_append, List.count_append, (isLine_take_of_findIdx hi).count,
    List.count_eq_zero.mpr hnone] at hcut
  omega

theorem newest_append (ss new : List (List UInt8)) :
    ((ss.rtake 10).map writtenCells ++ new.map writtenCells).rtake 10 =
      ((ss ++ new).rtake 10).map writtenCells := by
  rw [← List.map_append, ← map_rtake, rtake_rtake_append]

/-- A write of at most one newline moves the device along the stream. -/
theorem showsStream_write (hs : Sound s) (hr : Represented s) (hr' : Represented r.state)
    (hg : Granted env) (h : Effect env buf s r) {l : List UInt8} (hl : ShowsStream s l)
    (hcount : buf.count newline ≤ 1) : ShowsStream r.state (l ++ buf) := by
  obtain ⟨hc, hp⟩ := hl
  have hnone := not_mem_remainder newline l
  obtain ⟨hseg, hrem⟩ := split_append newline l buf
  rw [ShowsStream, hs.contents_write h, pending_eq (hs.write h) hr', hseg, hrem, hc]
  rcases granted_cases hs hr hg h hp hnone with ⟨hmem, hadded, hcells⟩ | ⟨i, hi, hadded, hcells⟩
  · obtain ⟨hseg', hrem'⟩ := segments_of_not_mem hmem
    rw [hadded, hcells, hseg', hrem']
    exact ⟨newest_append _ [], rfl⟩
  · have hmem : newline ∉ (remainder newline l ++ buf).drop (i + 1) := by
      apply List.count_eq_zero.mp
      have := count_behind hnone hi
      omega
    have hline : ∀ t ∈ [(remainder newline l ++ buf).take (i + 1)], IsLine newline t := by
      simpa using isLine_take_of_findIdx hi
    obtain ⟨hseg', hrem'⟩ := segments_eq_of_flatten (l := remainder newline l ++ buf) hline hmem
      (by rw [List.flatten_singleton, List.take_append_drop])
    rw [hadded, hcells, hseg', hrem']
    exact ⟨newest_append _ [_], rfl⟩

/-- A write of more newlines leaves one of them pending. -/
theorem not_showsStream_write (hs : Sound s) (hr : Represented s) (hr' : Represented r.state)
    (hg : Granted env) (h : Effect env buf s r) {l : List UInt8} (hl : ShowsStream s l)
    (hcount : ¬ buf.count newline ≤ 1) : ¬ ShowsStream r.state (l ++ buf) := by
  rintro ⟨-, hp'⟩
  have hnone := not_mem_remainder newline l
  rw [pending_eq (hs.write h) hr'] at hp'
  rcases granted_cases hs hr hg h hl.2 hnone with ⟨hmem, -⟩ | ⟨i, hi, -, hcells⟩
  · have := List.count_eq_zero.mpr (fun hb => hmem (List.mem_append_right _ hb))
    omega
  · have hbytes : (remainder newline l ++ buf).drop (i + 1) = remainder newline (l ++ buf) := by
      have := congrArg (List.map Cell.val) (hcells.symm.trans hp')
      rwa [map_val_writtenCells, map_val_writtenCells] at this
    have hzero := List.count_eq_zero.mpr (not_mem_remainder newline (l ++ buf))
    have hbehind := count_behind hnone hi
    rw [hbytes] at hbehind
    omega

theorem start_showsStream (buffer : Alloc) (dev : AesdDev) :
    ShowsStream (Session.start buffer dev).state [] := by
  have hempty : occupied ⟨fun _ => zeroEntry, 0, 0, false⟩ = [] :=
    (init_holds ⟨fun _ => zeroEntry, 0, 0, false⟩).occupied_eq
  rw [start_state]
  cases buffer.granted <;> exact ⟨by simp [contents, hempty, List.rtake], rfl⟩

/-- With every service granted, the ring is at every moment the newest ten lines of all bytes
written so far and the pending bytes are their unfinished end, exactly when no write brings
more than one newline. -/
theorem showsStream_iff (buffer : Alloc) (dev : AesdDev) (ops : List Op)
    (h : ∀ file env buf, .write file env buf ∈ ops → Granted env) :
    (∀ pre, pre <+: ops → ShowsStream ((Session.start buffer dev).run pre).state (pre.flatMap data)) ↔
      ∀ op ∈ ops, (data op).count newline ≤ 1 := by
  have hs := run_sound (start_sound buffer dev)
  have hrep : ∀ pre, pre <+: ops → Represented ((Session.start buffer dev).run pre).state :=
    fun pre hp => run_represented buffer dev fun file env buf hmem =>
      (h file env buf (hp.subset hmem)).2.2.2
  constructor
  · intro hshow op hop
    obtain ⟨pre, post, rfl⟩ := List.append_of_mem hop
    have hp : pre ++ [op] <+: pre ++ op :: post := ⟨post, by simp⟩
    have hp' : pre <+: pre ++ op :: post := List.prefix_append _ _
    cases op with
    | write file env buf =>
      have heff := aesdWrite_effect env buf (hs pre).releasable
      have hnext := hshow _ hp
      have hr' := hrep _ hp
      rw [Session.run_concat] at hnext hr'
      rw [List.flatMap_append, List.flatMap_singleton] at hnext
      by_contra hcount
      exact not_showsStream_write (hs pre) (hrep _ hp') hr' (h file env buf (by simp)) heff
        (hshow _ hp') hcount hnext
    | read | llseek | ioctl => simp [data]
  · intro hcount pre
    induction pre using List.reverseRecOn with
    | nil =>
      intro _
      exact start_showsStream buffer dev
    | append_singleton pre op ih =>
      intro hp
      have hp' : pre <+: ops := (List.prefix_append _ _).trans hp
      have hop : op ∈ ops := hp.subset (by simp)
      have hr' := hrep _ hp
      rw [Session.run_concat] at hr' ⊢
      rw [List.flatMap_append, List.flatMap_singleton]
      cases op with
      | write file env buf =>
        exact showsStream_write (hs pre) (hrep _ hp') hr' (h file env buf hop)
          (aesdWrite_effect env buf (hs pre).releasable) (ih hp') (hcount _ hop)
      | read | llseek | ioctl =>
        rw [apply_state (hs pre)]
        simpa [data] using ih hp'

/-- One line in two writes, and the beginning of the next. -/
theorem showsStream_two_writes : ShowsStream ((Session.start grant blank).run
    [.write 0 fine [97], .write 1 fine [98, 10, 99]]).state [97, 98, 10, 99] := by
  refine (showsStream_iff grant blank [.write 0 fine [97], .write 1 fine [98, 10, 99]] ?_).mpr
    (by decide) _ List.prefix_rfl
  intro file env buf hmem
  simp only [List.mem_cons, Op.write.injEq, List.not_mem_nil, or_false] at hmem
  rcases hmem with ⟨-, rfl, -⟩ | ⟨-, rfl, -⟩ <;> exact ⟨rfl, rfl, rfl, rfl, rfl, rfl⟩

/-- Two lines in one write: the second one stays pending. -/
theorem second_line_pending : ¬ ∀ (buffer : Alloc) (dev : AesdDev) (ops : List Op),
    (∀ file env buf, .write file env buf ∈ ops → Granted env) → ∀ pre, pre <+: ops →
      ShowsStream ((Session.start buffer dev).run pre).state (pre.flatMap data) := by
  intro h
  have hshow := h grant blank [.write 0 fine [97, 10, 98, 10]] (fun file env buf hmem => by
    simp only [List.mem_singleton, Op.write.injEq] at hmem
    obtain ⟨-, rfl, -⟩ := hmem
    exact ⟨rfl, rfl, rfl, rfl, rfl, rfl⟩) _ List.prefix_rfl
  have hp := hshow.2
  revert hp
  decide

end Aesd.Stream
