import Aesd.Driver.Pending
import Mathlib.Data.List.Nodup

/-!
# The lifetime of kernel memory

Between the calls every live block should have exactly one owner, and none
should be left once the module is gone. Three steps of the driver drop the last
pointer to a live block: the two `krealloc` refusals that lose the pending
bytes, and the addition of an entry to a full ring. `aesd_cleanup_module`
releases everything but `buffer`.
-/
namespace Aesd.Lifetime

open BlockHeap BlockHeap.Heap Kernel CircularBuffer CharDevice WriteEffect Ownership Position Pending
open CyclicSlots

/-- Every live block is owned, and by one pointer alone; nothing was released that was not live. -/
structure Ledger (s : State) : Prop where
  live_iff : ∀ n, (∃ cs, s.heap.block n = some cs) ↔ n ∈ owned s
  nodup : (owned s).Nodup
  freed_once : Fault.invalidFree ∉ s.heap.faults

/-- The write commits an entry while the ring is full. -/
def EvictsByWrite (env : WriteEnv) (buf : List UInt8) (s : State) : Prop :=
  Reaches env buf ∧ env.grow.granted = true ∧ env.entry.granted = true ∧
    newlineAt buf s ≠ none ∧ s.dev.circBuffer.full = true

def Evicts (x : Session) : Op → Prop
  | .write _ env buf => EvictsByWrite env buf x.state
  | _ => False

variable {s : State} {env : WriteEnv} {buf : List UInt8} {r : WriteResult}

/-- Sound devices can only miss the ledger by a block nobody owns. -/
theorem ledger_iff_owned (hs : Sound s) :
    Ledger s ↔ ∀ n cs, s.heap.block n = some cs → n ∈ owned s := by
  constructor
  · intro h n cs hn
    exact (h.live_iff n).mp ⟨cs, hn⟩
  · intro h
    refine ⟨fun n => ⟨fun ⟨cs, hn⟩ => h n cs hn, hs.live_of_mem_owned⟩, hs.nodup, fun hf => ?_⟩
    cases hs.faults _ hf

/-- What is left once the pending block is released. -/
theorem kept_of_release (hl : Ledger s) {n : Nat} {cs : List (Cell UInt8)}
    (hn : release s.heap.block s.dev.workingEntry n = some cs) :
    s.dev.buffer = .block n ∨ n ∈ slotBlocks s.dev.circBuffer := by
  have hne : s.dev.workingEntry ≠ .block n := by
    intro hw
    rw [hw, release_block, Function.update_self] at hn
    cases hn
  rw [release_of_ne hne] at hn
  rcases mem_owned.mp ((hl.live_iff n).mp ⟨cs, hn⟩) with h | h | h
  · exact Or.inl h
  · exact absurd h hne
  · exact Or.inr h

/-- Below ten entries an addition drops none. -/
theorem slotBlocks_add (hs : Sound s) (hfull : s.dev.circBuffer.full = false) (e : AesdBufferEntry) :
    slotBlocks (aesdCircularBufferAddEntry s.dev.circBuffer e) =
      slotBlocks s.dev.circBuffer ++ ptrBlocks e.buffptr := by
  obtain ⟨es, hes⟩ := hs.ring
  have hlen : es.length < 10 := by
    apply Nat.lt_of_not_le
    rw [← hes.full_iff, hfull]
    decide
  have hocc : (occupied s.dev.circBuffer).length = es.length := by
    rw [occupied, length_window, hes.occupiedCount_eq]
    omega
  have hadd : occupied (aesdCircularBufferAddEntry s.dev.circBuffer e) =
      occupied s.dev.circBuffer ++ [e] := by
    rw [hs.occupied_add, List.rtake, Nat.sub_eq_zero_of_le, List.drop_zero]
    rw [List.length_append, List.length_singleton]
    omega
  simp [slotBlocks, hadd]

/-- Without a loss or an eviction a write keeps the ledger. -/
theorem ledger_write (hs : Sound s) (hr : Represented s) (hl : Ledger s) (h : Effect env buf s r)
    (hlose : ¬ (LosesGrow env buf s ∨ LosesShrink env buf s))
    (hevict : ¬ EvictsByWrite env buf s) : Ledger r.state := by
  rw [not_or] at hlose
  rw [ledger_iff_owned (hs.write h)]
  intro n cs hn
  cases h with
  | interrupted => exact (hl.live_iff n).mp ⟨cs, hn⟩
  | notStarted _ _ _ _ hblock =>
    simp only [hblock] at hn
    exact (hl.live_iff n).mp ⟨cs, hn⟩
  | growRefused heap hreach hg hblock =>
    simp only [hblock] at hn
    rcases mem_owned.mp ((hl.live_iff n).mp ⟨cs, hn⟩) with hb | hw | hslot
    · exact mem_owned.mpr (Or.inl hb)
    · obtain ⟨cs', -, hlen, hne⟩ := hs.working n hw
      have hpos := List.length_pos_iff.mpr hne
      exact absurd ⟨hreach, hg, by omega⟩ hlose.1
    · exact mem_owned.mpr (Or.inr (Or.inr hslot))
  | kept _ heap b _ _ _ _ hblock =>
    by_cases hb : n = b
    · exact mem_owned.mpr (Or.inr (Or.inl (by rw [hb]; rfl)))
    · simp only [hblock, Function.update_of_ne hb] at hn
      exact mem_owned.mpr ((kept_of_release hl hn).imp_right Or.inr)
  | committed heap i e p hreach hg hline he _ hp =>
    rw [lineEnd_eq hs hr] at hline
    have hfull : s.dev.circBuffer.full = false := by
      rw [← Bool.not_eq_true]
      exact fun hfull => hevict ⟨hreach, hg, he, by simp [hline], hfull⟩
    have hkept : n ≠ e → release s.heap.block s.dev.workingEntry n = some cs →
        s.dev.buffer = .block n ∨ p = .block n ∨
          n ∈ slotBlocks (aesdCircularBufferAddEntry s.dev.circBuffer ⟨.block e, i + 1⟩) := by
      intro _ hrel
      rw [slotBlocks_add hs hfull]
      rcases kept_of_release hl hrel with hb | hslot
      · exact Or.inl hb
      · exact Or.inr (Or.inr (List.mem_append_left _ hslot))
    by_cases hne : n = e
    · refine mem_owned.mpr (Or.inr (Or.inr ?_))
      simp [unlocked, slotBlocks_add hs hfull, ptrBlocks, hne]
    · rcases hp with ⟨-, -, hblock⟩ | ⟨-, -, w, -, -, rfl, hblock⟩ | ⟨hdrop, hsh, -⟩
      · simp only [hblock, Function.update_of_ne hne] at hn
        exact mem_owned.mpr (hkept hne hn)
      · by_cases hw : n = w
        · exact mem_owned.mpr (Or.inr (Or.inl (by rw [hw]; rfl)))
        · simp only [hblock, Function.update_of_ne hw, Function.update_of_ne hne] at hn
          exact mem_owned.mpr (hkept hne hn)
      · have hpos := List.length_pos_iff.mpr hdrop
        rw [List.length_drop, length_gathered] at hpos
        exact absurd ⟨hreach, hg, he, hsh, i, hline, by omega⟩ hlose.2

/-- The oldest entry of a full ring gives way to the new one. -/
theorem evicted_block (hs : Sound s) (hfull : s.dev.circBuffer.full = true) :
    ∃ n, n ∈ slotBlocks s.dev.circBuffer ∧ ∀ e : AesdBufferEntry, e.buffptr ≠ .block n →
      n ∉ slotBlocks (aesdCircularBufferAddEntry s.dev.circBuffer e) := by
  have hlen : (occupied s.dev.circBuffer).length = 10 := by
    rw [occupied, length_window, occupiedCount, if_pos hfull]
  cases hocc : occupied s.dev.circBuffer with
  | nil => simp [hocc] at hlen
  | cons oldest rest =>
    obtain ⟨n, hn, -⟩ := (hs.slot oldest (by simp [hocc])).cells
    have hnd := hs.nodup
    simp only [owned, slotBlocks, hocc, List.flatMap_cons, List.nodup_append, hn, ptrBlocks] at hnd
    refine ⟨n, by simp [slotBlocks, hocc, hn, ptrBlocks], fun e he hmem => ?_⟩
    rw [mem_slotBlocks, hs.occupied_add, List.rtake, hocc] at hmem
    rw [hocc, List.length_cons] at hlen
    simp only [List.cons_append, List.length_cons, List.length_append, List.length_nil,
      show rest.length + (0 + 1) + 1 - 10 = 1 by omega, List.drop_succ_cons, List.drop_zero,
      List.mem_append, List.mem_singleton] at hmem
    obtain ⟨e', hmem | rfl, he'⟩ := hmem
    · exact hnd.2.1.2.2 n (by simp) n
        (List.mem_flatMap.mpr ⟨e', hmem, mem_ptrBlocks.mpr he'⟩) rfl
    · exact he he'

/-- After a loss or an eviction a live block has no owner. -/
theorem not_ledger_write (hs : Sound s) (hr : Represented s) (h : Effect env buf s r)
    (hbad : (LosesGrow env buf s ∨ LosesShrink env buf s) ∨ EvictsByWrite env buf s) :
    ¬ Ledger r.state := by
  intro hl'
  rcases hbad with (⟨hreach, hg, hpos⟩ | ⟨hreach, hg, he, hsh, i, hi, hlt⟩) |
    ⟨hreach, hg, he, hi, hfull⟩
  · obtain ⟨hblock, hdev⟩ := h.refuses hreach hg
    rcases hr with hzero | ⟨b, cs, hw, hlive, -⟩
    · omega
    · rcases mem_owned.mp ((hl'.live_iff b).mp ⟨cs, by rw [hblock, hlive]⟩) with hb | hb | hb <;>
        rw [hdev] at hb
      · exact hs.working_ne (Or.inl hb) hw
      · cases hb
      · exact hs.working_ne (Or.inr hb) hw
  · rw [← lineEnd_eq hs hr env buf] at hi
    obtain ⟨e, p, hnext, hp, hdev⟩ := h.commits hreach hg he hi
    have hpos : 0 < ((gathered env buf s).drop (i + 1)).length := by
      rw [List.length_drop, length_gathered]
      omega
    rcases hp with ⟨hnil, -⟩ | ⟨-, hsh', -⟩ | ⟨-, -, rfl, w, cs, hw, hwe, hblock⟩
    · simp [hnil] at hpos
    · simp [hsh] at hsh'
    · have hlive : r.state.heap.block w = some cs := by rw [hblock, Function.update_self]
      rcases mem_owned.mp ((hl'.live_iff w).mp ⟨cs, hlive⟩) with hb | hb | hb <;> rw [hdev] at hb
      · have := hs.lt_of_mem_owned (mem_owned.mpr (Or.inl hb))
        omega
      · cases hb
      · rcases List.mem_append.mp ((slotBlocks_add_sublist hs _ rfl).subset hb) with hb | hb
        · have := hs.lt_of_mem_owned (mem_owned.mpr (Or.inr (Or.inr hb)))
          omega
        · exact hwe (List.mem_singleton.mp hb)
  · obtain ⟨i, hi⟩ := Option.ne_none_iff_exists'.mp hi
    rw [← lineEnd_eq hs hr env buf] at hi
    obtain ⟨e, p, hnext, hp, hdev⟩ := h.commits hreach hg he hi
    obtain ⟨n, hslot, hgone⟩ := evicted_block hs hfull
    have hlt := hs.lt_of_mem_owned (mem_owned.mpr (Or.inr (Or.inr hslot)))
    obtain ⟨cs, hlive⟩ := hs.live_of_mem_owned (mem_owned.mpr (Or.inr (Or.inr hslot)))
    rw [← hs.kept_block h (Or.inr hslot)] at hlive
    rcases mem_owned.mp ((hl'.live_iff n).mp ⟨cs, hlive⟩) with hb | hb | hb <;> rw [hdev] at hb
    · have hnd := hs.nodup
      rw [owned, List.append_assoc, List.nodup_append] at hnd
      exact hnd.2.2 n (mem_ptrBlocks.mpr hb) n (List.mem_append_right _ hslot) rfl
    · have := ((committed_blocks hp).2 n hb).1
      omega
    · refine hgone _ ?_ hb
      simp only [ne_eq, Ptr.block.injEq]
      omega

/-- A slot that leads to a block is occupied. -/
theorem slot_offset (hs : Sound s) {i n : Nat} (hi : i < 10)
    (hin : (s.dev.circBuffer.entry i).buffptr = .block n) :
    ∃ j < occupiedCount s.dev.circBuffer, (s.dev.circBuffer.outOffs + j) % 10 = i := by
  obtain ⟨es, hes⟩ := hs.ring
  obtain ⟨j, hj, rfl⟩ := exists_offset hes.out_lt hi
  refine ⟨j, ?_, rfl⟩
  apply Nat.lt_of_not_le
  intro hle
  rw [hes.occupiedCount_eq] at hle
  rw [hes.zero j (by omega) hj] at hin
  cases hin

theorem mem_slotBlocks_iff (hs : Sound s) {n : Nat} : n ∈ slotBlocks s.dev.circBuffer ↔
    ∃ i < 10, (s.dev.circBuffer.entry i).buffptr = .block n := by
  rw [mem_slotBlocks]
  constructor
  · rintro ⟨e, he, hn⟩
    obtain ⟨j, -, rfl⟩ := mem_window.mp he
    exact ⟨_, Nat.mod_lt _ (by decide), hn⟩
  · rintro ⟨i, hi, hn⟩
    obtain ⟨j, hj, rfl⟩ := slot_offset hs hi hn
    exact ⟨_, mem_window.mpr ⟨j, hj, rfl⟩, hn⟩

/-- Two slots never share a block. -/
theorem slot_injective (hs : Sound s) {i i' n : Nat} (hi : i < 10) (hi' : i' < 10)
    (hin : (s.dev.circBuffer.entry i).buffptr = .block n)
    (hin' : (s.dev.circBuffer.entry i').buffptr = .block n) : i = i' := by
  obtain ⟨j, hj, rfl⟩ := slot_offset hs hi hin
  obtain ⟨j', hj', rfl⟩ := slot_offset hs hi' hin'
  have hnd := hs.nodup
  rw [owned, List.nodup_append, slotBlocks, List.nodup_flatMap, occupied, window,
    List.pairwise_map] at hnd
  have hpair := List.pairwise_iff_getElem.mp hnd.2.1.2
  have hne : ∀ a b, a < b → b < occupiedCount s.dev.circBuffer →
      (s.dev.circBuffer.entry ((s.dev.circBuffer.outOffs + a) % 10)).buffptr = .block n →
      (s.dev.circBuffer.entry ((s.dev.circBuffer.outOffs + b) % 10)).buffptr ≠ .block n := by
    intro a b hab hb ha hb'
    have hdisj := hpair a b (by simpa using hab.trans hb) (by simpa using hb) hab
    simp only [List.getElem_range] at hdisj
    exact hdisj (mem_ptrBlocks.mpr ha) (mem_ptrBlocks.mpr hb')
  rcases Nat.lt_trichotomy j j' with h | h | h
  · exact absurd hin' (hne j j' h hj' hin)
  · rw [h]
  · exact absurd hin (hne j' j h hj hin')

/-- After the first `k` rounds of the clean-up the blocks of the first `k` slots are gone. -/
theorem cleanup_loop (hs : Sound s) (k : Nat) (hk : k ≤ 10) :
    let t := (List.range k).foldl cleanupEntry s
    (∀ n, t.heap.block n = none ↔ s.heap.block n = none ∨
        ∃ i < k, (s.dev.circBuffer.entry i).buffptr = .block n) ∧
      t.heap.faults = s.heap.faults ∧ t.dev.workingEntry = s.dev.workingEntry ∧
      ∀ j, k ≤ j → t.dev.circBuffer.entry j = s.dev.circBuffer.entry j := by
  induction k with
  | zero => simp
  | succ k ih =>
    obtain ⟨hblock, hfaults, hworking, hentry⟩ := ih (by omega)
    simp only [List.range_succ, List.foldl_append, List.foldl_cons, List.foldl_nil]
    generalize (List.range k).foldl cleanupEntry s = t at hblock hfaults hworking hentry ⊢
    have hk' := hentry k (Nat.le_refl k)
    have hsplit : ∀ n, (∃ i < k + 1, (s.dev.circBuffer.entry i).buffptr = .block n) ↔
        (∃ i < k, (s.dev.circBuffer.entry i).buffptr = .block n) ∨
          (s.dev.circBuffer.entry k).buffptr = .block n := by
      intro n
      simp only [Nat.lt_succ_iff_lt_or_eq, or_and_right, exists_or, exists_eq_left]
    have hlater : ∀ j, k + 1 ≤ j → Function.update t.dev.circBuffer.entry k zeroEntry j =
        s.dev.circBuffer.entry j := fun j hj => by
      rw [Function.update_of_ne (by omega), hentry j (by omega)]
    cases hp : (s.dev.circBuffer.entry k).buffptr with
    | null =>
      simp only [cleanupEntry, hk', hp, if_true, hsplit]
      exact ⟨by simpa using hblock, hfaults, hworking, fun j hj => hentry j (by omega)⟩
    | emptyToken =>
      simp only [cleanupEntry, hk', hp, kfree, hsplit]
      exact ⟨by simpa using hblock, hfaults, hworking, hlater⟩
    | block b =>
      have hlive : ∃ cs, t.heap.block b = some cs := by
        apply Option.ne_none_iff_exists'.mp
        rw [ne_eq, hblock]
        rintro (hnone | ⟨i, hi, hib⟩)
        · have hmem := (mem_slotBlocks_iff hs).mpr ⟨k, by omega, hp⟩
          obtain ⟨cs, hcs⟩ := hs.live_of_mem_owned (mem_owned.mpr (Or.inr (Or.inr hmem)))
          rw [hnone] at hcs
          cases hcs
        · have := slot_injective hs (by omega) (by omega) hib hp
          omega
      obtain ⟨cs, hcs⟩ := hlive
      simp only [cleanupEntry, hk', hp, kfree, hsplit, reduceCtorEq, if_false]
      refine ⟨fun n => ?_, (faults_free hcs).trans hfaults, hworking, hlater⟩
      rw [block_free hcs]
      by_cases hn : n = b
      · rw [hn, Function.update_self]
        simp
      · rw [Function.update_of_ne hn, hblock]
        simp [Ne.symm hn]

/-- The clean-up releases the slots and the pending block, each once. -/
theorem cleanup_block (hs : Sound s) :
    (∀ n, (aesdCleanupModule s).heap.block n = none ↔ s.heap.block n = none ∨
        n ∈ slotBlocks s.dev.circBuffer ∨ s.dev.workingEntry = .block n) ∧
      (aesdCleanupModule s).heap.faults = s.heap.faults := by
  obtain ⟨hblock, hfaults, hworking, -⟩ := cleanup_loop hs 10 (Nat.le_refl _)
  simp only [← mem_slotBlocks_iff hs] at hblock
  unfold aesdCleanupModule
  rw [maxWriteOperationsSupported_eq]
  generalize (List.range 10).foldl cleanupEntry s = t at hblock hfaults hworking ⊢
  cases hp : s.dev.workingEntry with
  | null =>
    simp only [hworking, hp, if_true, reduceCtorEq, or_false]
    exact ⟨hblock, hfaults⟩
  | emptyToken =>
    simp only [hworking, hp, reduceCtorEq, if_false, kfree, free_emptyToken, or_false]
    exact ⟨hblock, hfaults⟩
  | block b =>
    have hlive : ∃ cs, t.heap.block b = some cs := by
      apply Option.ne_none_iff_exists'.mp
      rw [ne_eq, hblock]
      rintro (hnone | hslot)
      · obtain ⟨cs, hcs, -⟩ := hs.working b hp
        rw [hnone] at hcs
        cases hcs
      · exact hs.working_ne (Or.inr hslot) hp
    obtain ⟨cs, hcs⟩ := hlive
    simp only [hworking, hp, reduceCtorEq, if_false, kfree]
    refine ⟨fun n => ?_, (faults_free hcs).trans hfaults⟩
    rw [block_free hcs]
    by_cases hn : n = b
    · rw [hn, Function.update_self]
      simp
    · rw [Function.update_of_ne hn, hblock]
      simp [Ne.symm hn]

theorem run_buffer (buffer : Alloc) (dev : AesdDev) (ops : List Op) :
    ((Session.start buffer dev).run ops).state.dev.buffer =
      if buffer.granted then .block 0 else .null := by
  have hs := run_sound (start_sound buffer dev)
  induction ops using List.reverseRecOn with
  | nil =>
    rw [Session.run_nil, start_state]
    split <;> rfl
  | append_singleton ops op ih =>
    rw [Session.run_concat, apply_state (hs ops), ← ih]
    cases op with
    | write _ env buf => exact (aesdWrite_effect env buf (hs ops).releasable).buffer_eq
    | read | llseek | ioctl => rfl

/-- The module can be removed without a trace exactly when `buffer` was never allocated. -/
theorem cleanup_empty_iff (buffer : Alloc) (dev : AesdDev) (ops : List Op)
    (hl : Ledger ((Session.start buffer dev).run ops).state) :
    (∀ n, (aesdCleanupModule ((Session.start buffer dev).run ops).state).heap.block n = none) ↔
      buffer.granted = false := by
  have hs := run_sound (start_sound buffer dev) ops
  have hbuf := run_buffer buffer dev ops
  obtain ⟨hblock, -⟩ := cleanup_block hs
  cases hg : buffer.granted with
  | true =>
    rw [hg, if_pos rfl] at hbuf
    simp only [Bool.true_eq_false, iff_false, not_forall]
    refine ⟨0, fun hnone => ?_⟩
    rcases (hblock 0).mp hnone with h | h | h
    · obtain ⟨cs, hcs⟩ := hs.buffer 0 hbuf
      rw [h] at hcs
      cases hcs
    · have hnd := hs.nodup
      rw [owned, List.append_assoc, List.nodup_append] at hnd
      exact hnd.2.2 0 (mem_ptrBlocks.mpr hbuf) 0 (List.mem_append_right _ h) rfl
    · exact hs.working_ne (Or.inl hbuf) h
  | false =>
    rw [hg, if_neg (by decide)] at hbuf
    simp only [iff_true]
    intro n
    rw [hblock]
    cases hn : ((Session.start buffer dev).run ops).state.heap.block n with
    | none => exact Or.inl rfl
    | some cs =>
      rcases mem_owned.mp ((hl.live_iff n).mp ⟨cs, hn⟩) with h | h | h
      · rw [hbuf] at h
        cases h
      · exact Or.inr (Or.inr h)
      · exact Or.inr (Or.inl h)

theorem start_ledger (buffer : Alloc) (dev : AesdDev) :
    Ledger (Session.start buffer dev).state := by
  rw [ledger_iff_owned (start_sound buffer dev), start_state]
  cases buffer.granted with
  | true =>
    intro n cs hn
    by_cases h0 : n = 0
    · simp [owned, ptrBlocks, h0]
    · simp [Heap.empty, Function.update_of_ne h0] at hn
  | false =>
    intro n cs hn
    cases hn

/-- One call keeps the ledger exactly when it neither loses nor evicts a block. -/
theorem ledger_apply {x : Session} (hs : Sound x.state) (hr : Represented x.state)
    (hl : Ledger x.state) (op : Op) :
    Ledger (x.apply op).state ↔ ¬ Loses x op ∧ ¬ Evicts x op := by
  rw [apply_state hs]
  cases op with
  | write _ env buf =>
    have heff := aesdWrite_effect env buf hs.releasable
    constructor
    · intro hl'
      exact ⟨fun hlose => not_ledger_write hs hr heff (Or.inl hlose) hl',
        fun hevict => not_ledger_write hs hr heff (Or.inr hevict) hl'⟩
    · rintro ⟨hlose, hevict⟩
      exact ledger_write hs hr hl heff hlose hevict
  | read | llseek | ioctl => exact ⟨fun _ => ⟨id, id⟩, fun _ => hl⟩

/-- As long as the ledger is exact the pending bytes are represented. -/
theorem represented_of_ledger (buffer : Alloc) (dev : AesdDev) {ops : List Op}
    (h : ∀ pre, pre <+: ops → Ledger ((Session.start buffer dev).run pre).state) :
    Represented ((Session.start buffer dev).run ops).state := by
  induction ops using List.reverseRecOn with
  | nil => exact (start_clean buffer dev).1
  | append_singleton ops op ih =>
    have hs := run_sound (start_sound buffer dev) ops
    have hr := ih fun pre hp => h pre (hp.trans (List.prefix_append _ _))
    have hl' := h _ List.prefix_rfl
    rw [Session.run_concat] at hl' ⊢
    exact represented_apply hs hr ((ledger_apply hs hr (h ops (List.prefix_append _ _)) op).mp hl').1

theorem ledger_of_steps (buffer : Alloc) (dev : AesdDev) {ops : List Op}
    (h : ∀ pre op, pre ++ [op] <+: ops → ¬ Loses ((Session.start buffer dev).run pre) op ∧
      ¬ Evicts ((Session.start buffer dev).run pre) op) :
    Ledger ((Session.start buffer dev).run ops).state := by
  induction ops using List.reverseRecOn with
  | nil => exact start_ledger buffer dev
  | append_singleton ops op ih =>
    have hs := run_sound (start_sound buffer dev) ops
    have hl := ih fun pre op' hp => h pre op' (hp.trans (List.prefix_append _ _))
    have hr := (run_intact buffer dev fun pre op' hp =>
      (h pre op' (hp.trans (List.prefix_append _ _))).1).1.represented
    rw [Session.run_concat]
    exact (ledger_apply hs hr hl op).mpr (h ops op List.prefix_rfl)

theorem run_ledger_iff (buffer : Alloc) (dev : AesdDev) (ops : List Op) :
    (∀ pre, pre <+: ops → Ledger ((Session.start buffer dev).run pre).state) ↔
      ∀ pre op, pre ++ [op] <+: ops → ¬ Loses ((Session.start buffer dev).run pre) op ∧
        ¬ Evicts ((Session.start buffer dev).run pre) op := by
  constructor
  · intro h pre op hp
    have hp' : pre <+: ops := (List.prefix_append _ _).trans hp
    have hr := represented_of_ledger buffer dev fun pre' hp'' => h pre' (hp''.trans hp')
    have hl' := h _ hp
    rw [Session.run_concat] at hl'
    exact (ledger_apply (run_sound (start_sound buffer dev) pre) hr (h pre hp') op).mp hl'
  · intro h pre hp
    exact ledger_of_steps buffer dev fun pre' op hp' => h pre' op (hp'.trans hp)

/-- The live blocks are at every moment those the device owns, and none is left after the
clean-up, exactly when `buffer` was not allocated and no write loses the pending block or
evicts an entry. -/
theorem nothing_leaks_iff (buffer : Alloc) (dev : AesdDev) (ops : List Op) :
    ((∀ pre, pre <+: ops → Ledger ((Session.start buffer dev).run pre).state) ∧
        (∀ n, (aesdCleanupModule ((Session.start buffer dev).run ops).state).heap.block n = none) ∧
        Fault.invalidFree ∉
          (aesdCleanupModule ((Session.start buffer dev).run ops).state).heap.faults) ↔
      buffer.granted = false ∧
        ∀ pre op, pre ++ [op] <+: ops → ¬ Loses ((Session.start buffer dev).run pre) op ∧
          ¬ Evicts ((Session.start buffer dev).run pre) op := by
  rw [← run_ledger_iff]
  constructor
  · rintro ⟨hl, hempty, -⟩
    exact ⟨(cleanup_empty_iff buffer dev ops (hl ops List.prefix_rfl)).mp hempty, hl⟩
  · rintro ⟨hg, hl⟩
    refine ⟨hl, (cleanup_empty_iff buffer dev ops (hl ops List.prefix_rfl)).mpr hg, fun hf => ?_⟩
    have hs := run_sound (start_sound buffer dev) ops
    rw [(cleanup_block hs).2] at hf
    cases hs.faults _ hf

/-- Eleven lines, every service granted: the block of the first line is live and nobody's, and
at the end `buffer` is left over, too. -/
theorem evicted_line_leaks : ¬ ∀ (buffer : Alloc) (dev : AesdDev) (ops : List Op),
    (∀ pre, pre <+: ops → Ledger ((Session.start buffer dev).run pre).state) ∧
      (∀ n, (aesdCleanupModule ((Session.start buffer dev).run ops).state).heap.block n = none) ∧
      Fault.invalidFree ∉
        (aesdCleanupModule ((Session.start buffer dev).run ops).state).heap.faults := by
  intro h
  have hl := (h grant blank (List.replicate 11 (.write 0 fine [10]))).1 _ List.prefix_rfl
  have hlive : ∃ cs, ((Session.start grant blank).run
      (List.replicate 11 (.write 0 fine [10]))).state.heap.block 3 = some cs :=
    Option.isSome_iff_exists.mp (by decide +kernel)
  have hmem := (hl.live_iff 3).mp hlive
  revert hmem
  decide +kernel

end Aesd.Lifetime
