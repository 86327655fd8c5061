import Aesd.Driver.CharDevice
import Aesd.Lib.Segments

/-!
# What one `aesd_write` can do

Every exit of `aesd_write`, with the conditions under which it is taken and the
memory and device it leaves. The invariants of the driver are read off these
cases; no later proof looks into the function again.
-/
namespace Aesd.WriteEffect

open BlockHeap BlockHeap.Heap Kernel CircularBuffer CharDevice

/-- What the block behind `working_entry` holds. -/
def pendingCells (s : State) : List (Cell UInt8) := s.heap.cells s.dev.workingEntry

/-- The pending bytes followed by the written ones, as the loop searches them. Pending bytes
that are in no block come out as junk. -/
def gathered (env : WriteEnv) (buf : List UInt8) (s : State) : List (Cell UInt8) :=
  (resized env.grow (pendingCells s) (s.dev.workingSize + buf.length)).take s.dev.workingSize ++
    writtenCells buf

/-- The offset `memchr` finds. -/
def lineEnd (env : WriteEnv) (buf : List UInt8) (s : State) : Option Nat :=
  ((gathered env buf s).map Cell.val).findIdx? (· = newline)

/-- The call gets as far as the first `krealloc`. -/
def Reaches (env : WriteEnv) (buf : List UInt8) : Prop :=
  env.interrupted = false ∧ env.kbuf.granted = true ∧ env.copyFails = false ∧ buf ≠ []

/-- The only faults a write can add are uses of elements nobody wrote. -/
def NewFaults (cs : List (Cell UInt8)) (old new : List Fault) : Prop :=
  ∃ fs, new = fs ++ old ∧ (∀ f ∈ fs, f = .uninitialised) ∧ ((∀ c ∈ cs, c.written = true) → fs = [])

/-- The device after the call, apart from what the loop changed. -/
def unlocked (dev : AesdDev) : AesdDev := { dev with lock := false }

/-- The entry is in block `e`. The bytes behind it are none, or in a block of their own, or,
when the shrinking `krealloc` is refused, in a block no pointer leads to. -/
def Divided (env : WriteEnv) (buf : List UInt8) (s : State) (i e : Nat) (p : Ptr)
    (block : Nat → Option (List (Cell UInt8))) : Prop :=
  ((gathered env buf s).drop (i + 1) = [] ∧ p = .emptyToken ∧
    block = Function.update (release s.heap.block s.dev.workingEntry) e
      (some ((gathered env buf s).take (i + 1)))) ∨
  ((gathered env buf s).drop (i + 1) ≠ [] ∧ env.shrink.granted = true ∧
    ∃ w, s.heap.next ≤ w ∧ w ≠ e ∧ p = .block w ∧
      block = Function.update (Function.update (release s.heap.block s.dev.workingEntry) e
        (some ((gathered env buf s).take (i + 1)))) w
        (some ((gathered env buf s).drop (i + 1)))) ∨
  ((gathered env buf s).drop (i + 1) ≠ [] ∧ env.shrink.granted = false ∧ p = .null ∧
    ∃ b cs, s.heap.next ≤ b ∧ b ≠ e ∧
      block = Function.update (Function.update (release s.heap.block s.dev.workingEntry) e
        (some ((gathered env buf s).take (i + 1)))) b (some cs))

inductive Effect (env : WriteEnv) (buf : List UInt8) (s : State) : WriteResult → Prop where
  | interrupted (hi : env.interrupted = true) : Effect env buf s ⟨-eRestartSys, s, []⟩
  /-- No memory for `kbuf`, a fault in the user copy, or nothing to write. -/
  | notStarted (retval : Int) (heap : Memory) (hi : env.interrupted = false)
      (hr : (buf ≠ [] ∧ env.kbuf.granted = false ∧ retval = -eNoMem) ∨
        (buf ≠ [] ∧ env.kbuf.granted = true ∧ env.copyFails = true ∧ retval = -eFault) ∨
        (buf = [] ∧ retval = 0))
      (hblock : heap.block = s.heap.block) (hfaults : heap.faults = s.heap.faults) :
      Effect env buf s ⟨retval, ⟨heap, unlocked s.dev⟩, []⟩
  /-- The result of the refused `krealloc` overwrites `working_entry`. -/
  | growRefused (heap : Memory) (hr : Reaches env buf) (hg : env.grow.granted = false)
      (hblock : heap.block = s.heap.block) (hfaults : heap.faults = s.heap.faults) :
      Effect env buf s ⟨-eNoMem, ⟨heap, unlocked { s.dev with workingEntry := .null }⟩, []⟩
  /-- All bytes stay pending: there is no newline, or no memory for the entry. -/
  | kept (retval : Int) (heap : Memory) (b : Nat) (hr : Reaches env buf)
      (hg : env.grow.granted = true)
      (hl : (lineEnd env buf s = none ∧ retval = buf.length) ∨
        (lineEnd env buf s ≠ none ∧ env.entry.granted = false ∧ retval = -eNoMem))
      (hb : s.heap.next ≤ b)
      (hblock : heap.block =
        Function.update (release s.heap.block s.dev.workingEntry) b (some (gathered env buf s)))
      (hfaults : NewFaults (gathered env buf s) s.heap.faults heap.faults) :
      Effect env buf s ⟨retval, ⟨heap, unlocked { s.dev with
        workingEntry := .block b
        workingSize := (gathered env buf s).length }⟩, []⟩
  /-- The bytes up to the first newline become an entry and the others stay pending. -/
  | committed (heap : Memory) (i e : Nat) (p : Ptr) (hr : Reaches env buf)
      (hg : env.grow.granted = true) (hl : lineEnd env buf s = some i)
      (he : env.entry.granted = true) (hnext : s.heap.next ≤ e)
      (hp : Divided env buf s i e p heap.block)
      (hfaults : NewFaults (gathered env buf s) s.heap.faults heap.faults) :
      Effect env buf s ⟨buf.length, ⟨heap, unlocked { s.dev with
        circBuffer := aesdCircularBufferAddEntry s.dev.circBuffer ⟨.block e, i + 1⟩
        workingEntry := p
        workingSize := ((gathered env buf s).drop (i + 1)).length }⟩,
        [(gathered env buf s).take (i + 1)]⟩

@[simp] theorem length_gathered (env : WriteEnv) (buf : List UInt8) (s : State) :
    (gathered env buf s).length = s.dev.workingSize + buf.length := by
  simp [gathered]

/-- A pending block of the right size is what the loop finds in front of the new bytes. -/
theorem gathered_of_length {env : WriteEnv} {buf : List UInt8} {s : State}
    (h : (pendingCells s).length = s.dev.workingSize) :
    gathered env buf s = pendingCells s ++ writtenCells buf := by
  unfold gathered
  rw [← h, take_resized env.grow (by omega)]

theorem writeLoop_done {env : WriteEnv} {kbuf : Ptr} {l : WriteLoop} (h : l.remaining = 0)
    (fuel : Nat) : writeLoop env kbuf fuel l = l := by
  cases fuel with
  | zero => rfl
  | succ fuel => simp [writeLoop, h]

/-- A round that does not jump out has taken every remaining byte. -/
theorem writeBody_remaining {env : WriteEnv} {kbuf : Ptr} {l : WriteLoop}
    (h : (writeBody env kbuf l).2 = false) : (writeBody env kbuf l).1.remaining = 0 := by
  revert h
  simp only [writeBody]
  split
  · simp
  · split
    · simp
    · split <;> simp

/-- The loop is one round. -/
theorem writeLoop_eq {env : WriteEnv} {kbuf : Ptr} {l : WriteLoop} {fuel : Nat}
    (hr : l.remaining ≠ 0) : writeLoop env kbuf (fuel + 1) l = (writeBody env kbuf l).1 := by
  have hrem := @writeBody_remaining env kbuf l
  rw [writeLoop, if_neg hr]
  revert hrem
  cases writeBody env kbuf l with
  | mk l' jumped =>
    cases jumped with
    | true => intro _; rfl
    | false => intro hrem; exact writeLoop_done (hrem rfl) fuel

/-- The user's bytes in a fresh block. -/
theorem kbuf_filled (h : Memory) (junk : Nat → UInt8) (buf : List UInt8) :
    ∃ h', copyFromUser false (.block h.next) buf (h.alloc (junkCells junk 0 buf.length)) = (false, h') ∧
      h'.block = Function.update h.block h.next (some (writtenCells buf)) ∧
      h'.next = h.next + 1 ∧ h'.faults = h.faults := by
  have hlive : (h.alloc (junkCells junk 0 buf.length)).block h.next =
      some (junkCells junk 0 buf.length) := by simp
  obtain ⟨hb, hn, hf⟩ := store_block 0 hlive
    (show 0 + (writtenCells buf).length ≤ _ by simp)
  refine ⟨_, by simp [copyFromUser], ?_, hn, hf⟩
  rw [hb]
  simp [List.drop_of_length_le]

/-- Giving the temporary buffer back leaves the other blocks. -/
theorem kfree_kbuf {h : Memory} {f : Nat → Option (List (Cell UInt8))} {k : Nat}
    {data : List (Cell UInt8)} (hk : h.block k = some data) (hfk : f k = none)
    (hf : ∀ j, j ≠ k → h.block j = f j) :
    (kfree (.block k) h).block = f ∧ (kfree (.block k) h).faults = h.faults := by
  refine ⟨?_, faults_free hk⟩
  rw [kfree, block_free hk]
  funext j
  by_cases hj : j = k
  · rw [hj, Function.update_self, hfk]
  · rw [Function.update_of_ne hj, hf j hj]

/-- The memory after the pending block has grown and taken the new bytes. -/
theorem grown {env : WriteEnv} {buf : List UInt8} {s : State} {h : Memory}
    (hw : s.heap.Releasable s.dev.workingEntry) (hbuf : buf ≠ []) (hg : env.grow.granted = true)
    (hblock : h.block = Function.update s.heap.block s.heap.next (some (writtenCells buf)))
    (hnext : h.next = s.heap.next + 1) :
    ∃ h2 h3, krealloc env.grow s.dev.workingEntry (s.dev.workingSize + buf.length) h =
        (.block (s.heap.next + 1), h2) ∧
      memcpy (.block (s.heap.next + 1)) s.dev.workingSize (.block s.heap.next) 0 buf.length h2 = h3 ∧
      h3.block = Function.update (Function.update (release s.heap.block s.dev.workingEntry)
        s.heap.next (some (writtenCells buf))) (s.heap.next + 1) (some (gathered env buf s)) ∧
      h3.next = s.heap.next + 2 ∧ h3.faults = h.faults := by
  have hlen : buf.length ≠ 0 := by simpa using hbuf
  have hw' : h.Releasable s.dev.workingEntry := by
    intro b hb
    obtain ⟨cs, hcs⟩ := hw b hb
    have := lt_next hcs
    exact ⟨cs, by rw [hblock, Function.update_of_ne (by omega), hcs]⟩
  have hcells : h.cells s.dev.workingEntry = pendingCells s := by
    unfold pendingCells
    cases hp : s.dev.workingEntry with
    | null | emptyToken => rfl
    | block b =>
      obtain ⟨cs, hcs⟩ := hw b hp
      have := lt_next hcs
      simp [cells, hblock, Function.update_of_ne (show b ≠ s.heap.next by omega)]
  obtain ⟨h1, h2, h3, h4⟩ := krealloc_granted
    (show s.dev.workingSize + buf.length ≠ 0 by omega) hg hw'
  rw [hnext] at h1 h2 h3
  rw [hcells, hblock, release_update_comm hw (Nat.le_refl _)] at h2
  have hb : (krealloc env.grow s.dev.workingEntry (s.dev.workingSize + buf.length) h).2.block
      (s.heap.next + 1) =
        some (resized env.grow (pendingCells s) (s.dev.workingSize + buf.length)) := by
    rw [h2, Function.update_self]
  have hk : (krealloc env.grow s.dev.workingEntry (s.dev.workingSize + buf.length) h).2.block
      s.heap.next = some (writtenCells buf) := by
    rw [h2, Function.update_of_ne (by omega), Function.update_self]
  obtain ⟨m1, m2, m3⟩ := memmove_blocks s.dev.workingSize 0 buf.length hb hk
    (by simp) (by simp)
  refine ⟨_, _, Prod.ext h1 rfl, rfl, ?_, m2.trans (by rw [h3]), m3.trans ?_⟩
  · rw [memcpy, m1, h2, Function.update_idem]
    congr 1
    simp [gathered, List.drop_of_length_le]
  · simp [h4, List.take_of_length_le]

/-- The entry's bytes copied into a block of their own. -/
theorem copied_out {h : Memory} {b i : Nat} {cs : List (Cell UInt8)} (a : Alloc)
    (hb : h.block b = some cs) (hi : i + 1 ≤ cs.length) :
    ∃ h2, memcpy (.block h.next) 0 (.block b) 0 (i + 1) (h.alloc (junkCells a.junk 0 (i + 1))) = h2 ∧
      h2.block = Function.update h.block h.next (some (cs.take (i + 1))) ∧
      h2.next = h.next + 1 ∧ h2.faults = useFaults (cs.take (i + 1)) ++ h.faults := by
  have hlt := lt_next hb
  have he : (h.alloc (junkCells a.junk 0 (i + 1))).block h.next =
      some (junkCells a.junk 0 (i + 1)) := by simp
  have hb' : (h.alloc (junkCells a.junk 0 (i + 1))).block b = some cs := by
    rw [block_alloc, Function.update_of_ne (by omega), hb]
  obtain ⟨m1, m2, m3⟩ := memmove_blocks 0 0 (i + 1) he hb' (by omega) (by simp)
  refine ⟨_, rfl, ?_, m2, m3⟩
  rw [memcpy, m1]
  simp [List.drop_of_length_le]

/-- The bytes behind the entry moved to the front of the pending block. -/
theorem moved_down {h : Memory} {b i : Nat} {cs : List (Cell UInt8)} (hb : h.block b = some cs)
    (hi : i + 1 ≤ cs.length) :
    ∃ h2 cs', memmove (.block b) 0 (.block b) (i + 1) (cs.length - (i + 1)) h = h2 ∧
      h2.block = Function.update h.block b (some cs') ∧
      cs'.take (cs.length - (i + 1)) = cs.drop (i + 1) ∧ cs.length - (i + 1) ≤ cs'.length ∧
      h2.next = h.next ∧ h2.faults = useFaults (cs.drop (i + 1)) ++ h.faults := by
  have hlen : (cs.drop (i + 1)).length = cs.length - (i + 1) := List.length_drop
  have hrest : (cs.drop (i + 1)).take (cs.length - (i + 1)) = cs.drop (i + 1) :=
    List.take_of_length_le (by omega)
  obtain ⟨m1, m2, m3⟩ := memmove_blocks 0 (i + 1) (cs.length - (i + 1)) hb hb (by omega) (by omega)
  rw [hrest] at m1 m3
  refine ⟨_, cs.drop (i + 1) ++ cs.drop (cs.length - (i + 1)), rfl, ?_, ?_, ?_, m2, m3⟩
  · rw [m1]
    simp
  · rw [List.take_append_of_le_length (by omega), List.take_of_length_le (by omega)]
  · rw [List.length_append, hlen]
    omega

theorem newFaults_refl (cs : List (Cell UInt8)) (old : List Fault) : NewFaults cs old old :=
  ⟨[], rfl, by simp, fun _ => rfl⟩

/-- Using some of the elements adds no other faults than using all of them. -/
theorem NewFaults.use {cs part : List (Cell UInt8)} {old new : List Fault}
    (h : NewFaults cs old new) (hp : ∀ c ∈ part, c ∈ cs) :
    NewFaults cs old (useFaults part ++ new) := by
  obtain ⟨fs, rfl, huninit, hnil⟩ := h
  refine ⟨useFaults part ++ fs, by simp, ?_, ?_⟩
  · intro f hf
    rcases List.mem_append.mp hf with hf | hf
    · exact mem_useFaults hf
    · exact huninit f hf
  · intro hall
    rw [hnil hall, useFaults_eq_nil.mpr fun c hc => hall c (hp c hc)]
    rfl

/-- The local device record while the call holds the lock. -/
def locked (dev : AesdDev) : AesdDev := { dev with lock := true }

/-- The loop variables when the loop is entered. -/
def entered (buf : List UInt8) (s : State) (h : Memory) : WriteLoop :=
  ⟨⟨h, locked s.dev⟩, 0, buf.length, buf.length, []⟩

/-- The result of the call once its loop has ended with `l`. -/
def finished (s : State) (l : WriteLoop) : WriteResult :=
  ⟨l.retval, ⟨kfree (.block s.heap.next) l.state.heap, unlocked l.state.dev⟩, l.added⟩

section Round

variable {env : WriteEnv} {buf : List UInt8} {s : State} {h : Memory}

theorem round_growRefused (hr : Reaches env buf) (hg : env.grow.granted = false)
    (hblock : h.block = Function.update s.heap.block s.heap.next (some (writtenCells buf)))
    (hfaults : h.faults = s.heap.faults) :
    Effect env buf s (finished s (writeBody env (.block s.heap.next) (entered buf s h)).1) := by
  have hlen : s.dev.workingSize + buf.length ≠ 0 := by
    have := List.length_pos_iff.mpr hr.2.2.2
    omega
  have hbody : (writeBody env (.block s.heap.next) (entered buf s h)).1 =
      ⟨⟨h, { locked s.dev with workingEntry := .null }⟩, 0, buf.length, -eNoMem, []⟩ := by
    simp [writeBody, entered, locked, krealloc_refused hlen hg]
  have hk : h.block s.heap.next = some (writtenCells buf) := by rw [hblock, Function.update_self]
  obtain ⟨hfree, hff⟩ := kfree_kbuf hk (s.heap.fresh _ (Nat.le_refl _)) fun j hj => by
    rw [hblock, Function.update_of_ne hj]
  rw [hbody]
  exact Effect.growRefused _ hr hg hfree (hff.trans hfaults)

theorem round_kept {h3 : Memory} {retval : Int} (hr : Reaches env buf)
    (hg : env.grow.granted = true) (hw : s.heap.Releasable s.dev.workingEntry)
    (hl : (lineEnd env buf s = none ∧ retval = buf.length) ∨
      (lineEnd env buf s ≠ none ∧ env.entry.granted = false ∧ retval = -eNoMem))
    (hblock : h3.block = Function.update (Function.update (release s.heap.block s.dev.workingEntry)
        s.heap.next (some (writtenCells buf))) (s.heap.next + 1) (some (gathered env buf s)))
    (hfaults : NewFaults (gathered env buf s) s.heap.faults h3.faults) :
    Effect env buf s (finished s ⟨⟨h3, { locked s.dev with
      workingEntry := .block (s.heap.next + 1)
      workingSize := s.dev.workingSize + buf.length }⟩, buf.length, 0, retval, []⟩) := by
  have hk : h3.block s.heap.next = some (writtenCells buf) := by
    rw [hblock, Function.update_of_ne (by omega), Function.update_self]
  have hfree : (Function.update (release s.heap.block s.dev.workingEntry) (s.heap.next + 1)
      (some (gathered env buf s))) s.heap.next = none := by
    rw [Function.update_of_ne (by omega)]
    exact release_fresh hw (Nat.le_refl _)
  obtain ⟨hb, hf⟩ := kfree_kbuf hk hfree fun j hj => by
    rw [hblock]
    by_cases hj' : j = s.heap.next + 1
    · rw [hj', Function.update_self, Function.update_self]
    · rw [Function.update_of_ne hj', Function.update_of_ne hj, Function.update_of_ne hj']
  have heff := Effect.kept retval (kfree (.block s.heap.next) h3) (s.heap.next + 1) hr hg hl
    (by omega) hb (by rw [hf]; exact hfaults)
  rw [length_gathered] at heff
  exact heff

/-- The memory after the entry was split off: `kbuf`, the entry in `e`, and the pending block
`b` that still has its old size. -/
def splitBlocks (env : WriteEnv) (buf : List UInt8) (s : State) (i : Nat)
    (cs : List (Cell UInt8)) : Nat → Option (List (Cell UInt8)) :=
  Function.update (Function.update (Function.update (release s.heap.block s.dev.workingEntry)
    s.heap.next (some (writtenCells buf))) (s.heap.next + 2) (some ((gathered env buf s).take (i + 1))))
    (s.heap.next + 1) (some cs)

theorem splitBlocks_shrunk (hw : s.heap.Releasable s.dev.workingEntry) {i : Nat}
    {cs : List (Cell UInt8)} : Function.update (splitBlocks env buf s i cs) (s.heap.next + 1) none =
      Function.update (Function.update (release s.heap.block s.dev.workingEntry) s.heap.next
        (some (writtenCells buf))) (s.heap.next + 2) (some ((gathered env buf s).take (i + 1))) := by
  rw [splitBlocks, Function.update_idem]
  apply Function.update_eq_self_iff.mpr
  rw [Function.update_of_ne (by omega), Function.update_of_ne (by omega)]
  exact (release_fresh hw (by omega)).symm

/-- Giving the rest of the pending block back, in its three outcomes, and then `kbuf`. -/
theorem shrink_cases {h4 : Memory} {i : Nat} {cs : List (Cell UInt8)}
    (hw : s.heap.Releasable s.dev.workingEntry)
    (hblock : h4.block = splitBlocks env buf s i cs) (hnext : h4.next = s.heap.next + 3)
    (hcs : cs.take ((gathered env buf s).length - (i + 1)) = (gathered env buf s).drop (i + 1))
    (hlen : (gathered env buf s).length - (i + 1) ≤ cs.length) :
    ∃ p h5, krealloc env.shrink (.block (s.heap.next + 1))
        ((gathered env buf s).length - (i + 1)) h4 = (p, h5) ∧
      (kfree (.block s.heap.next) h5).faults = h4.faults ∧
      (((gathered env buf s).drop (i + 1) = [] ∧ p = .emptyToken ∧
          (kfree (.block s.heap.next) h5).block =
            Function.update (release s.heap.block s.dev.workingEntry) (s.heap.next + 2)
              (some ((gathered env buf s).take (i + 1)))) ∨
        ((gathered env buf s).drop (i + 1) ≠ [] ∧ env.shrink.granted = true ∧
          p = .block (s.heap.next + 3) ∧ (kfree (.block s.heap.next) h5).block =
            Function.update (Function.update (release s.heap.block s.dev.workingEntry)
              (s.heap.next + 2) (some ((gathered env buf s).take (i + 1)))) (s.heap.next + 3)
              (some ((gathered env buf s).drop (i + 1)))) ∨
        ((gathered env buf s).drop (i + 1) ≠ [] ∧ env.shrink.granted = false ∧ p = .null ∧
          (kfree (.block s.heap.next) h5).block =
            Function.update (Function.update (release s.heap.block s.dev.workingEntry)
              (s.heap.next + 2) (some ((gathered env buf s).take (i + 1)))) (s.heap.next + 1)
              (some cs))) := by
  have hR : release s.heap.block s.dev.workingEntry s.heap.next = none :=
    release_fresh hw (Nat.le_refl _)
  have hb : h4.block (s.heap.next + 1) = some cs := by
    rw [hblock, splitBlocks, Function.update_self]
  have hdrop : ((gathered env buf s).drop (i + 1)).length = (gathered env buf s).length - (i + 1) :=
    List.length_drop
  by_cases hzero : (gathered env buf s).length - (i + 1) = 0
  · refine ⟨.emptyToken, h4.free (.block (s.heap.next + 1)), by rw [hzero, krealloc_zero], ?_⟩
    have h5 := (block_free hb).trans (by rw [hblock, splitBlocks_shrunk hw])
    have hk : (h4.free (.block (s.heap.next + 1))).block s.heap.next = some (writtenCells buf) := by
      rw [h5, Function.update_of_ne (by omega), Function.update_self]
    obtain ⟨hfree, hff⟩ := kfree_kbuf (f := Function.update
        (release s.heap.block s.dev.workingEntry) (s.heap.next + 2)
        (some ((gathered env buf s).take (i + 1)))) hk
      (by rw [Function.update_of_ne (by omega), hR]) fun j hj => by
        rw [h5]
        by_cases hj' : j = s.heap.next + 2
        · rw [hj', Function.update_self, Function.update_self]
        · rw [Function.update_of_ne hj', Function.update_of_ne hj, Function.update_of_ne hj']
    exact ⟨hff.trans (faults_free hb),
      Or.inl ⟨List.eq_nil_of_length_eq_zero (by omega), rfl, hfree⟩⟩
  · have hne : (gathered env buf s).drop (i + 1) ≠ [] := by
      intro he
      rw [he] at hdrop
      exact hzero hdrop.symm
    cases hg : env.shrink.granted with
    | true =>
      obtain ⟨k1, k2, k3, k4⟩ := krealloc_granted hzero hg (p := .block (s.heap.next + 1))
        (h := h4) fun b' hb' => by cases hb'; exact ⟨cs, hb⟩
      rw [cells_block hb, resized_of_length_le _ hlen, hcs, hnext, release_block, hblock,
        splitBlocks_shrunk hw] at k2
      rw [hnext] at k1
      refine ⟨_, _, Prod.ext k1 rfl, ?_⟩
      have hk : (krealloc env.shrink (.block (s.heap.next + 1))
          ((gathered env buf s).length - (i + 1)) h4).2.block s.heap.next =
            some (writtenCells buf) := by
        rw [k2, Function.update_of_ne (by omega), Function.update_of_ne (by omega),
          Function.update_self]
      obtain ⟨hfree, hff⟩ := kfree_kbuf (f := Function.update (Function.update
          (release s.heap.block s.dev.workingEntry) (s.heap.next + 2)
          (some ((gathered env buf s).take (i + 1)))) (s.heap.next + 3)
          (some ((gathered env buf s).drop (i + 1)))) hk
        (by rw [Function.update_of_ne (by omega), Function.update_of_ne (by omega), hR])
        fun j hj => by
          rw [k2]
          simp only [Function.update_apply]
          split_ifs <;> rfl
      exact ⟨hff.trans k4, Or.inr (Or.inl ⟨hne, rfl, rfl, hfree⟩)⟩
    | false =>
      refine ⟨_, _, krealloc_refused hzero hg _ _, ?_⟩
      have hk : h4.block s.heap.next = some (writtenCells buf) := by
        rw [hblock, splitBlocks, Function.update_of_ne (by omega),
          Function.update_of_ne (by omega), Function.update_self]
      obtain ⟨hfree, hff⟩ := kfree_kbuf (f := Function.update (Function.update
          (release s.heap.block s.dev.workingEntry) (s.heap.next + 2)
          (some ((gathered env buf s).take (i + 1)))) (s.heap.next + 1) (some cs)) hk
        (by rw [Function.update_of_ne (by omega), Function.update_of_ne (by omega), hR])
        fun j hj => by
          rw [hblock, splitBlocks]
          simp only [Function.update_apply]
          split_ifs <;> rfl
      exact ⟨hff, Or.inr (Or.inr ⟨hne, rfl, rfl, hfree⟩)⟩

theorem round_granted (hr : Reaches env buf) (hg : env.grow.granted = true)
    (hw : s.heap.Releasable s.dev.workingEntry)
    (hblock : h.block = Function.update s.heap.block s.heap.next (some (writtenCells buf)))
    (hnext : h.next = s.heap.next + 1) (hfaults : h.faults = s.heap.faults) :
    Effect env buf s (finished s (writeBody env (.block s.heap.next) (entered buf s h)).1) := by
  obtain ⟨h2, h3, hgrow, hcopy, hblock3, hnext3, hfaults3⟩ := grown hw hr.2.2.2 hg hblock hnext
  have hb3 : h3.block (s.heap.next + 1) = some (gathered env buf s) := by
    rw [hblock3, Function.update_self]
  have hchr : memchr (.block (s.heap.next + 1)) newline (s.dev.workingSize + buf.length) h3 =
      (lineEnd env buf s, h3.report (useFaults (gathered env buf s))) :=
    memchr_block newline hb3 (length_gathered env buf s).symm
  have hnew : NewFaults (gathered env buf s) s.heap.faults
      (h3.report (useFaults (gathered env buf s))).faults := by
    rw [faults_report, hfaults3, hfaults]
    exact (newFaults_refl _ _).use fun c hc => hc
  cases hl : lineEnd env buf s with
  | none =>
    have hbody : (writeBody env (.block s.heap.next) (entered buf s h)).1 =
        ⟨⟨h3.report (useFaults (gathered env buf s)), { locked s.dev with
          workingEntry := .block (s.heap.next + 1)
          workingSize := s.dev.workingSize + buf.length }⟩, buf.length, 0, buf.length, []⟩ := by
      simp [writeBody, entered, locked, hgrow, hcopy, hchr, hl]
    rw [hbody]
    exact round_kept hr hg hw (Or.inl ⟨hl, rfl⟩) hblock3 hnew
  | some i =>
    cases he : env.entry.granted with
    | false =>
      have hbody : (writeBody env (.block s.heap.next) (entered buf s h)).1 =
          ⟨⟨h3.report (useFaults (gathered env buf s)), { locked s.dev with
            workingEntry := .block (s.heap.next + 1)
            workingSize := s.dev.workingSize + buf.length }⟩, buf.length, 0, -eNoMem, []⟩ := by
        simp [writeBody, entered, locked, hgrow, hcopy, hchr, hl,
          kmalloc_refused (Nat.succ_ne_zero i) he]
      rw [hbody]
      exact round_kept hr hg hw (Or.inr ⟨by simp [hl], he, rfl⟩) hblock3 hnew
    | true =>
      have hi : i + 1 ≤ (gathered env buf s).length := by
        have hlt := (List.findIdx?_eq_some_iff_findIdx_eq.mp hl).1
        rw [List.length_map] at hlt
        exact hlt
      obtain ⟨h4, hout, hblock4, hnext4, hfaults4⟩ := copied_out env.entry
        (h := h3.report (useFaults (gathered env buf s))) hb3 hi
      rw [next_report, hnext3] at hblock4 hout hnext4
      have hb4 : h4.block (s.heap.next + 1) = some (gathered env buf s) := by
        rw [hblock4, Function.update_of_ne (by omega), block_report, hb3]
      obtain ⟨h5, cs, hdown, hblock5, hcs, hcslen, hnext5, hfaults5⟩ := moved_down hb4 hi
      have hsplit : h5.block = splitBlocks env buf s i cs := by
        rw [hblock5, hblock4, block_report, hblock3, splitBlocks]
        funext j
        simp only [Function.update_apply]
        split_ifs <;> rfl
      obtain ⟨p, h6, hshrink, hff, hcases⟩ := shrink_cases hw hsplit
        (by rw [hnext5, hnext4]) hcs hcslen
      have hload : h4.load (.block (s.heap.next + 2)) 0 (i + 1) = (gathered env buf s).take (i + 1) := by
        have : h4.block (s.heap.next + 2) = some ((gathered env buf s).take (i + 1)) := by
          rw [hblock4, Function.update_self]
        simp [load, cells_block this]
      have hbody : (writeBody env (.block s.heap.next) (entered buf s h)).1 =
          ⟨⟨h6, { locked s.dev with
            circBuffer := aesdCircularBufferAddEntry s.dev.circBuffer ⟨.block (s.heap.next + 2), i + 1⟩
            workingEntry := p
            workingSize := (gathered env buf s).length - (i + 1) }⟩, buf.length, 0, buf.length,
            [(gathered env buf s).take (i + 1)]⟩ := by
        have hkm : kmalloc env.entry (i + 1) (h3.report (useFaults (gathered env buf s))) =
            (.block (s.heap.next + 2), (h3.report (useFaults (gathered env buf s))).alloc
              (junkCells env.entry.junk 0 (i + 1))) := by
          rw [kmalloc_granted (Nat.succ_ne_zero i) he, next_report, hnext3]
        rw [length_gathered] at hdown hshrink ⊢
        simp [writeBody, entered, locked, hgrow, hcopy, hchr, hl, hkm, hout, hload, hdown, hshrink]
      rw [hbody]
      have hnew6 : NewFaults (gathered env buf s) s.heap.faults
          (kfree (.block s.heap.next) h6).faults := by
        rw [hff, hfaults5, hfaults4]
        exact (hnew.use fun c hc => List.mem_of_mem_take hc).use fun c hc => List.mem_of_mem_drop hc
      have heff := Effect.committed (kfree (.block s.heap.next) h6) i (s.heap.next + 2) p hr hg hl he
        (by omega) ?_ hnew6
      · rw [List.length_drop] at heff
        exact heff
      · rcases hcases with hc | ⟨h1, h2, h3, h4⟩ | ⟨h1, h2, h3, h4⟩
        · exact Or.inl hc
        · exact Or.inr (Or.inl ⟨h1, h2, s.heap.next + 3, by omega, by omega, h3, h4⟩)
        · exact Or.inr (Or.inr ⟨h1, h2, h3, s.heap.next + 1, cs, by omega, by omega, h4⟩)

end Round

section Frame

variable {env : WriteEnv} {buf : List UInt8} {s : State} {r : WriteResult}

/-- A write touches no older block but the pending one. -/
theorem Effect.frame (h : Effect env buf s r) {b : Nat} (hb : b < s.heap.next)
    (hw : s.dev.workingEntry ≠ .block b) : r.state.heap.block b = s.heap.block b := by
  cases h with
  | interrupted => rfl
  | notStarted _ _ _ _ hblock => exact congrFun hblock b
  | growRefused _ _ _ hblock => exact congrFun hblock b
  | kept _ _ _ _ _ _ hfresh hblock =>
    simp only [hblock]
    rw [Function.update_of_ne (by omega), release_of_ne hw]
  | committed _ _ _ _ _ _ _ _ hfresh hp =>
    rcases hp with ⟨-, -, hblock⟩ | ⟨-, -, w, hfresh', -, -, hblock⟩ | ⟨-, -, -, w, cs, hfresh', -, hblock⟩
    · simp only [hblock]
      rw [Function.update_of_ne (by omega), release_of_ne hw]
    all_goals
      simp only [hblock]
      rw [Function.update_of_ne (by omega), Function.update_of_ne (by omega), release_of_ne hw]

theorem Effect.faults (h : Effect env buf s r) : ∃ fs, r.state.heap.faults = fs ++ s.heap.faults ∧
    (∀ f ∈ fs, f = .uninitialised) ∧ ((∀ c ∈ gathered env buf s, c.written = true) → fs = []) := by
  cases h with
  | interrupted => exact newFaults_refl _ _
  | notStarted _ _ _ _ _ hfaults | growRefused _ _ _ _ hfaults =>
    simp only [hfaults]
    exact newFaults_refl _ _
  | kept _ _ _ _ _ _ _ _ hfaults => exact hfaults
  | committed _ _ _ _ _ _ _ _ _ _ hfaults => exact hfaults

/-- A call that gets as far as the first `krealloc` did not give up before. -/
theorem not_given_up {retval : Int} (h : Reaches env buf)
    (hr : (buf ≠ [] ∧ env.kbuf.granted = false ∧ retval = -eNoMem) ∨
      (buf ≠ [] ∧ env.kbuf.granted = true ∧ env.copyFails = true ∧ retval = -eFault) ∨
      (buf = [] ∧ retval = 0)) : False := by
  obtain ⟨-, hk, hc, hbuf⟩ := h
  rcases hr with ⟨-, hk', -⟩ | ⟨-, -, hc', -⟩ | ⟨hbuf', -⟩
  · simp [hk] at hk'
  · simp [hc] at hc'
  · exact hbuf hbuf'

/-- A refused growing `krealloc` changes the pointer and nothing else. -/
theorem Effect.refuses (h : Effect env buf s r) (hreach : Reaches env buf)
    (hg : env.grow.granted = false) : r.state.heap.block = s.heap.block ∧
      r.state.dev = unlocked { s.dev with workingEntry := .null } := by
  cases h with
  | interrupted hi => simp [hreach.1] at hi
  | notStarted _ _ _ hret => exact (not_given_up hreach hret).elim
  | growRefused heap _ _ hblock => exact ⟨hblock, rfl⟩
  | kept _ _ _ _ hg' | committed _ _ _ _ _ hg' => simp [hg] at hg'

/-- A write that finds a newline and gets its allocations commits an entry. -/
theorem Effect.commits (h : Effect env buf s r) (hreach : Reaches env buf)
    (hg : env.grow.granted = true) (he : env.entry.granted = true) {i : Nat}
    (hl : lineEnd env buf s = some i) :
    ∃ e p, s.heap.next ≤ e ∧ Divided env buf s i e p r.state.heap.block ∧
      r.state.dev = unlocked { s.dev with
        circBuffer := aesdCircularBufferAddEntry s.dev.circBuffer ⟨.block e, i + 1⟩
        workingEntry := p
        workingSize := ((gathered env buf s).drop (i + 1)).length } := by
  cases h with
  | interrupted hi => simp [hreach.1] at hi
  | notStarted _ _ _ hret => exact (not_given_up hreach hret).elim
  | growRefused _ _ hg' => simp [hg] at hg'
  | kept _ _ _ _ _ hl' =>
    rcases hl' with ⟨hnone, -⟩ | ⟨-, he', -⟩
    · simp [hl] at hnone
    · simp [he] at he'
  | committed heap i' e p _ _ hl' _ hnext hp =>
    rw [hl] at hl'
    cases hl'
    exact ⟨e, p, hnext, hp, rfl⟩

theorem Effect.buffer_eq (h : Effect env buf s r) : r.state.dev.buffer = s.dev.buffer := by
  cases h <;> rfl

end Frame

/-- Every call of `aesd_write` on a device whose pending block may be released is one of the
listed cases. -/
theorem aesdWrite_effect (env : WriteEnv) (buf : List UInt8) {s : State}
    (hw : s.heap.Releasable s.dev.workingEntry) : Effect env buf s (aesdWrite env buf s) := by
  cases hi : env.interrupted with
  | true =>
    have : aesdWrite env buf s = ⟨-eRestartSys, s, []⟩ := by
      simp [aesdWrite, mutexLockInterruptible, hi]
    rw [this]
    exact .interrupted hi
  | false =>
    by_cases hbuf : buf = []
    · subst hbuf
      have : aesdWrite env [] s = ⟨0, ⟨s.heap, unlocked s.dev⟩, []⟩ := by
        simp [aesdWrite, mutexLockInterruptible, hi, kmalloc, copyFromUser, writtenCells, writeLoop,
          mutexUnlock, kfree, unlocked]
      rw [this]
      exact .notStarted 0 _ hi (Or.inr (Or.inr ⟨rfl, rfl⟩)) rfl rfl
    · have hlen : buf.length ≠ 0 := by simpa using hbuf
      cases hk : env.kbuf.granted with
      | false =>
        have : aesdWrite env buf s = ⟨-eNoMem, ⟨s.heap, unlocked s.dev⟩, []⟩ := by
          simp [aesdWrite, mutexLockInterruptible, hi, kmalloc_refused hlen hk, mutexUnlock, unlocked]
        rw [this]
        exact .notStarted _ _ hi (Or.inl ⟨hbuf, hk, rfl⟩) rfl rfl
      | true =>
        cases hc : env.copyFails with
        | true =>
          have hjunk : (s.heap.alloc (junkCells env.kbuf.junk 0 buf.length)).block s.heap.next =
              some (junkCells env.kbuf.junk 0 buf.length) := by simp
          have : aesdWrite env buf s = ⟨-eFault, ⟨kfree (.block s.heap.next)
              (s.heap.alloc (junkCells env.kbuf.junk 0 buf.length)), unlocked s.dev⟩, []⟩ := by
            simp [aesdWrite, mutexLockInterruptible, hi, kmalloc_granted hlen hk, copyFromUser, hc,
              hbuf, mutexUnlock, unlocked]
          rw [this]
          obtain ⟨hfree, hff⟩ := kfree_kbuf hjunk (s.heap.fresh _ (Nat.le_refl _)) fun j hj => by
            rw [block_alloc, Function.update_of_ne hj]
          exact .notStarted _ _ hi (Or.inr (Or.inl ⟨hbuf, hk, hc, rfl⟩)) hfree hff
        | false =>
          obtain ⟨h1, hcopy, hblock, hnext, hfaults⟩ := kbuf_filled s.heap env.kbuf.junk buf
          obtain ⟨n, hn⟩ : ∃ n, buf.length = n + 1 := ⟨buf.length - 1, by omega⟩
          have hloop : writeLoop env (.block s.heap.next) buf.length (entered buf s h1) =
              (writeBody env (.block s.heap.next) (entered buf s h1)).1 := by
            rw [hn]
            exact writeLoop_eq (by simpa [entered] using hbuf)
          have : aesdWrite env buf s =
              finished s (writeBody env (.block s.heap.next) (entered buf s h1)).1 := by
            rw [← hloop]
            simp [aesdWrite, mutexLockInterruptible, hi, kmalloc_granted hlen hk, hc, hcopy,
              mutexUnlock, finished, unlocked, entered, locked]
          rw [this]
          have hr : Reaches env buf := ⟨hi, hk, hc, hbuf⟩
          cases hg : env.grow.granted with
          | false => exact round_growRefused hr hg hblock hfaults
          | true => exact round_granted hr hg hw hblock hnext hfaults

end Aesd.WriteEffect
