import Aesd.Driver.Following
import Aesd.Driver.Lifetime
import Mathlib.Data.Set.Card

/-!
# How much memory the driver loses

A block is lost when the device gives up its last pointer to it. A write does
so with the oldest entry of a full ring and with the pending block when a
`krealloc` is refused; nothing else is ever lost, and nothing comes back.
-/
namespace Aesd.Leaks

open BlockHeap BlockHeap.Heap Kernel CircularBuffer CharDevice WriteEffect Ownership Position
open Lifetime Following Pending Reading

/-- The live blocks to which the device has no pointer. -/
def leaked (s : State) : Set Nat := {n | s.heap.block n ≠ none ∧ n ∉ owned s}

/-- A refused `krealloc` takes the place of the pointer to the pending bytes: the growing one while
there is a pending block, or the shrinking one, which is called only if bytes follow the newline. -/
def forgets (env : WriteEnv) (buf : List UInt8) (s : State) : Bool :=
  !env.interrupted && env.kbuf.granted && !env.copyFails && !buf.isEmpty &&
    if env.grow.granted then
      env.entry.granted && !env.shrink.granted &&
        (lineEnd env buf s).any fun i => !((gathered env buf s).drop (i + 1)).isEmpty
    else !(ptrBlocks s.dev.workingEntry).isEmpty

/-- The writes that forget a block. -/
def forgotten (x : Session) : Op → List Op
  | .write file env buf => if forgets env buf x.state then [.write file env buf] else []
  | _ => []

variable {s : State} {env : WriteEnv} {buf : List UInt8} {r : WriteResult}

theorem forgets_of_reaches (h : Reaches env buf) : forgets env buf s =
    if env.grow.granted then
      env.entry.granted && !env.shrink.granted &&
        (lineEnd env buf s).any fun i => !((gathered env buf s).drop (i + 1)).isEmpty
    else !(ptrBlocks s.dev.workingEntry).isEmpty := by
  obtain ⟨hi, hk, hc, hb⟩ := h
  simp [forgets, hi, hk, hc, hb]

theorem leaked_finite (s : State) : (leaked s).Finite := by
  refine (Set.finite_lt_nat s.heap.next).subset fun n hn => ?_
  obtain ⟨cs, hcs⟩ := Option.ne_none_iff_exists'.mp hn.1
  exact lt_next hcs

/-- A full ring gives up its oldest block for the new one, any other gives up none. -/
theorem slotBlocks_added (hs : Sound s) {e : AesdBufferEntry} {b : Nat} (he : e.buffptr = .block b) :
    ∃ gone kept : List Nat, gone.length = (if s.dev.circBuffer.full then 1 else 0) ∧
      slotBlocks s.dev.circBuffer = gone ++ kept ∧
        slotBlocks (aesdCircularBufferAddEntry s.dev.circBuffer e) = kept ++ [b] := by
  cases hfull : s.dev.circBuffer.full with
  | false => exact ⟨[], _, rfl, rfl, by rw [slotBlocks_add hs hfull, he]; rfl⟩
  | true =>
    have hlen : (occupied s.dev.circBuffer).length = 10 := by
      rw [occupied, CyclicSlots.length_window, occupiedCount, if_pos hfull]
    obtain ⟨oldest, rest, hocc⟩ := List.exists_cons_of_length_eq_add_one hlen
    obtain ⟨n, hn, -⟩ := (hs.slot oldest (by simp [hocc])).cells
    rw [hocc, List.length_cons] at hlen
    have hadd : occupied (aesdCircularBufferAddEntry s.dev.circBuffer e) = rest ++ [e] := by
      rw [hs.occupied_add, hocc, List.rtake, List.length_append, List.length_cons,
        List.length_singleton, show rest.length + 1 + 1 - 10 = 1 by omega]
      rfl
    refine ⟨[n], rest.flatMap fun e => ptrBlocks e.buffptr, rfl, ?_, ?_⟩
    · simp [slotBlocks, hocc, hn, ptrBlocks]
    · simp [slotBlocks, hadd, he, ptrBlocks]

/-- What stays live without the pending block and is not kept in a slot was lost before or is now. -/
theorem released_iff (hs : Sound s) {gone kept : List Nat}
    (hslots : slotBlocks s.dev.circBuffer = gone ++ kept) (n : Nat) :
    (release s.heap.block s.dev.workingEntry n ≠ none ∧ s.dev.buffer ≠ .block n ∧ n ∉ kept) ↔
      n ∈ leaked s ∨ n ∈ gone := by
  have hrelease : release s.heap.block s.dev.workingEntry n ≠ none ↔
      s.heap.block n ≠ none ∧ s.dev.workingEntry ≠ .block n := by
    by_cases hw : s.dev.workingEntry = .block n
    · simp [hw, release_block]
    · rw [release_of_ne hw]
      simp [hw]
  have howned : n ∈ owned s ↔ s.dev.buffer = .block n ∨ s.dev.workingEntry = .block n ∨
      n ∈ gone ∨ n ∈ kept := by rw [mem_owned, hslots, List.mem_append]
  rw [hrelease]
  constructor
  · rintro ⟨⟨hlive, hw⟩, hb, hkept⟩
    by_cases hgone : n ∈ gone
    · exact Or.inr hgone
    · refine Or.inl ⟨hlive, ?_⟩
      rw [howned]
      simp [hb, hw, hgone, hkept]
  · rintro (⟨hlive, hn⟩ | hgone)
    · rw [howned, not_or, not_or, not_or] at hn
      exact ⟨⟨hlive, hn.2.1⟩, hn.1, hn.2.2.2⟩
    · have hslot : n ∈ slotBlocks s.dev.circBuffer := hslots ▸ List.mem_append_left _ hgone
      obtain ⟨cs, hcs⟩ := hs.live_of_mem_owned (mem_owned.mpr (Or.inr (Or.inr hslot)))
      have hnd := hs.nodup
      rw [owned, hslots, List.append_assoc, List.nodup_append, List.nodup_append,
        List.nodup_append] at hnd
      refine ⟨⟨hcs ▸ Option.some_ne_none _, hs.working_ne (Or.inr hslot)⟩, fun hb => ?_,
        fun hkept => ?_⟩
      · exact hnd.2.2 n (mem_ptrBlocks.mpr hb) n
          (List.mem_append_right _ (List.mem_append_left _ hgone)) rfl
      · exact hnd.2.1.2.1.2.2 n hgone n hkept rfl

/-- No block that is handed out later is among them. -/
theorem released_lt (hs : Sound s) {gone kept : List Nat}
    (hslots : slotBlocks s.dev.circBuffer = gone ++ kept) {n : Nat} (hn : n ∈ leaked s ∨ n ∈ gone) :
    n < s.heap.next := by
  rcases hn with ⟨hlive, -⟩ | hgone
  · obtain ⟨cs, hcs⟩ := Option.ne_none_iff_exists'.mp hlive
    exact lt_next hcs
  · exact hs.lt_of_mem_owned (mem_owned.mpr (Or.inr (Or.inr (hslots ▸ List.mem_append_left _ hgone))))

/-- Blocks come in, some of them with a pointer to them, and the pending block and `gone` go out. -/
theorem mem_leaked (hs : Sound s) {gone kept : List Nat}
    (hslots : slotBlocks s.dev.circBuffer = gone ++ kept) {t : State} (fresh pointed : List Nat)
    (hfresh : ∀ b ∈ fresh, s.heap.next ≤ b ∧ t.heap.block b ≠ none)
    (hblock : ∀ n, n ∉ fresh → t.heap.block n = release s.heap.block s.dev.workingEntry n)
    (howned : ∀ n, n ∈ owned t ↔ s.dev.buffer = .block n ∨ n ∈ kept ∨ n ∈ pointed)
    (hpointed : ∀ n ∈ pointed, n ∈ fresh) (n : Nat) :
    n ∈ leaked t ↔ (n ∈ leaked s ∨ n ∈ gone) ∨ (n ∈ fresh ∧ n ∉ pointed) := by
  rw [leaked, Set.mem_ofPred_eq, howned]
  by_cases hn : n ∈ fresh
  · obtain ⟨hnext, hlive⟩ := hfresh n hn
    have hold : ∀ m ∈ owned s, m ≠ n := by
      rintro m hm rfl
      exact absurd (hs.lt_of_mem_owned hm) (Nat.not_lt.mpr hnext)
    have hbuffer : s.dev.buffer ≠ .block n := fun hb => hold n (mem_owned.mpr (Or.inl hb)) rfl
    have hkept : n ∉ kept := fun hk => hold n (mem_owned.mpr (Or.inr (Or.inr (by
      rw [hslots]
      exact List.mem_append_right _ hk)))) rfl
    have hnot : ¬ (n ∈ leaked s ∨ n ∈ gone) := fun h =>
      absurd (released_lt hs hslots h) (Nat.not_lt.mpr hnext)
    simp [hlive, hbuffer, hkept, hnot, hn]
  · have hnp : n ∉ pointed := fun hp => hn (hpointed n hp)
    rw [hblock n hn, ← released_iff hs hslots n]
    simp [hn, hnp]

/-- What a write leaves with no pointer: as much as the ring and `forgets` say, and none of it was
lost before. -/
theorem leaked_write (hs : Sound s) (h : Effect env buf s r) : ∃ gone : List Nat, gone.Nodup ∧
    (∀ n ∈ gone, n ∉ leaked s) ∧ leaked r.state = leaked s ∪ {n | n ∈ gone} ∧
      gone.length = (if r.added ≠ [] ∧ s.dev.circBuffer.full then 1 else 0) +
        if forgets env buf s then 1 else 0 := by
  cases h with
  | interrupted hi =>
    have hforgets : forgets env buf s = false := by simp [forgets, hi]
    exact ⟨[], List.nodup_nil, List.forall_mem_nil _, by simp, by simp [hforgets]⟩
  | notStarted retval heap hi hr hblock =>
    have hforgets : forgets env buf s = false := by
      rcases hr with ⟨-, hk, -⟩ | ⟨-, -, hc, -⟩ | ⟨rfl, -⟩
      · simp [forgets, hk]
      · simp [forgets, hc]
      · simp [forgets]
    refine ⟨[], List.nodup_nil, List.forall_mem_nil _, ?_, by simp [hforgets]⟩
    ext n
    simp [leaked, hblock, unlocked, owned]
  | growRefused heap hr hg hblock =>
    have hforgets : forgets env buf s = !(ptrBlocks s.dev.workingEntry).isEmpty := by
      rw [forgets_of_reaches hr, hg]
      rfl
    refine ⟨ptrBlocks s.dev.workingEntry, nodup_ptrBlocks _, fun n hn hleaked => ?_, ?_, ?_⟩
    · exact hleaked.2 (mem_owned.mpr (Or.inr (Or.inl (mem_ptrBlocks.mp hn))))
    · ext n
      simp only [leaked, Set.mem_union, Set.mem_ofPred_eq, mem_owned, mem_ptrBlocks, hblock, unlocked,
        reduceCtorEq, false_or]
      by_cases hw : s.dev.workingEntry = .block n
      · obtain ⟨cs, hcs, -⟩ := hs.working n hw
        have hb : s.dev.buffer ≠ .block n := fun hb => hs.working_ne (Or.inl hb) hw
        have hslot : n ∉ slotBlocks s.dev.circBuffer := fun hn => hs.working_ne (Or.inr hn) hw
        simp [hw, hcs, hb, hslot]
      · simp [hw]
    · rw [hforgets]
      cases s.dev.workingEntry <;> rfl
  | kept retval heap b hr hg hl hb hblock =>
    have hforgets : forgets env buf s = false := by
      rw [forgets_of_reaches hr, hg, if_pos rfl]
      rcases hl with ⟨hnone, -⟩ | ⟨-, he, -⟩
      · simp [hnone]
      · simp [he]
    have hslots : slotBlocks s.dev.circBuffer = [] ++ slotBlocks s.dev.circBuffer := rfl
    refine ⟨[], List.nodup_nil, List.forall_mem_nil _, ?_, by simp [hforgets]⟩
    ext n
    refine (mem_leaked hs hslots [b] [b] ?_ ?_ ?_ ?_ n).trans ?_
    · simp [hb, hblock]
    · intro m hm
      simp only [hblock, Function.update_of_ne (List.ne_of_not_mem_cons hm)]
    · intro m
      simp only [mem_owned, unlocked, Ptr.block.injEq, List.mem_singleton, eq_comm (a := b)]
      exact or_congr_right or_comm
    · exact fun m => id
    · simp
  | committed heap i e p hr hg hl he hnext hp =>
    obtain ⟨gone, kept, hlength, hslots, hadded⟩ :=
      slotBlocks_added hs (e := ⟨.block e, i + 1⟩) (b := e) rfl
    have hforgets : forgets env buf s =
        (!env.shrink.granted && !((gathered env buf s).drop (i + 1)).isEmpty) := by
      rw [forgets_of_reaches hr, hg, if_pos rfl, he, hl]
      rfl
    have hnodup : gone.Nodup := by
      have hnd := hs.nodup
      rw [owned, hslots, List.nodup_append] at hnd
      exact (List.nodup_append.mp hnd.2.1).1
    have hold : ∀ n ∈ gone, n ∉ leaked s ∧ n < s.heap.next := fun n hn =>
      ⟨fun hleaked => hleaked.2 (mem_owned.mpr (Or.inr (Or.inr (hslots ▸ List.mem_append_left _ hn)))),
        released_lt hs hslots (Or.inr hn)⟩
    rcases hp with ⟨hnil, rfl, hblock⟩ | ⟨hrest, hshrink, w, hw, hwe, rfl, hblock⟩ |
      ⟨hrest, hshrink, rfl, w, cs, hw, hwe, hblock⟩
    · refine ⟨gone, hnodup, fun n hn => (hold n hn).1, ?_, by simp [hlength, hforgets, hnil]⟩
      ext n
      refine (mem_leaked hs hslots [e] [e] ?_ ?_ ?_ ?_ n).trans ?_
      · simp [hnext, hblock]
      · intro m hm
        simp only [hblock, Function.update_of_ne (List.ne_of_not_mem_cons hm)]
      · intro m
        simp [mem_owned, unlocked, hadded]
      · exact fun m => id
      · simp
    · refine ⟨gone, hnodup, fun n hn => (hold n hn).1, ?_, by simp [hlength, hforgets, hshrink]⟩
      ext n
      refine (mem_leaked hs hslots [w, e] [w, e] ?_ ?_ ?_ ?_ n).trans ?_
      · simp [hnext, hblock, hw, Function.update_of_ne (Ne.symm hwe)]
      · intro m hm
        simp only [List.mem_cons, List.not_mem_nil, or_false, not_or] at hm
        simp only [hblock, Function.update_of_ne hm.1, Function.update_of_ne hm.2]
      · intro m
        simp only [mem_owned, unlocked, hadded, Ptr.block.injEq, List.mem_append, List.mem_cons,
          List.not_mem_nil, or_false, eq_comm (a := w)]
        exact or_congr_right or_left_comm
      · exact fun m => id
      · exact or_iff_left (not_and_not_right.mpr id)
    · have hfresh : w ∉ gone := fun hn => absurd (hold w hn).2 (Nat.not_lt.mpr hw)
      refine ⟨w :: gone, List.nodup_cons.mpr ⟨hfresh, hnodup⟩, ?_, ?_, ?_⟩
      · refine List.forall_mem_cons.mpr ⟨fun hleaked => ?_, fun n hn => (hold n hn).1⟩
        exact absurd (released_lt hs hslots (Or.inl hleaked)) (Nat.not_lt.mpr hw)
      · ext n
        refine (mem_leaked hs hslots [w, e] [e] ?_ ?_ ?_ ?_ n).trans ?_
        · simp [hnext, hblock, hw, Function.update_of_ne (Ne.symm hwe)]
        · intro m hm
          simp only [List.mem_cons, List.not_mem_nil, or_false, not_or] at hm
          simp only [hblock, Function.update_of_ne hm.1, Function.update_of_ne hm.2]
        · intro m
          simp [mem_owned, unlocked, hadded]
        · exact fun m => List.mem_cons_of_mem w
        · by_cases hn : n = w
          · simp [hn, hwe]
          · simp [hn]
      · simp [hlength, hforgets, hshrink, hrest]

/-- One call. -/
theorem leaked_apply {x : Session} (hs : Sound x.state) (op : Op) :
    (leaked (x.apply op).state).ncard = (leaked x.state).ncard +
      (if x.added op ≠ [] ∧ x.state.dev.circBuffer.full then 1 else 0) + (forgotten x op).length := by
  rw [apply_state hs]
  cases op with
  | write file env buf =>
    obtain ⟨gone, hnodup, hnew, hleaked, hlength⟩ :=
      leaked_write hs (aesdWrite_effect env buf hs.releasable)
    have hdisjoint : Disjoint (leaked x.state) {n | n ∈ gone} :=
      Set.disjoint_left.mpr fun n hn hgone => hnew n hgone hn
    have hcard : Set.ncard {n | n ∈ gone} = gone.length := by
      rw [← List.coe_toFinset, Set.ncard_coe_finset, List.toFinset_card_of_nodup hnodup]
    rw [hleaked, Set.ncard_union_eq hdisjoint (leaked_finite _) (List.finite_toSet gone), hcard,
      hlength, ← Nat.add_assoc, forgotten]
    congr 1
    split_ifs <;> rfl
  | read | llseek | ioctl => simp [Session.added, forgotten]

/-- A call adds at most one entry. -/
theorem length_added_le {x : Session} (hs : Sound x.state) (op : Op) : (x.added op).length ≤ 1 := by
  cases op with
  | write file env buf =>
    have heff := aesdWrite_effect env buf hs.releasable
    rw [Session.added]
    generalize aesdWrite env buf x.state = r at heff ⊢
    cases heff <;> simp
  | read | llseek | ioctl => exact Nat.zero_le 1

/-- The ring is full from the tenth entry on. -/
theorem full_iff (buffer : Alloc) (dev : AesdDev) (ops : List Op) :
    ((Session.start buffer dev).run ops).state.dev.circBuffer.full = true ↔
      10 ≤ ((Session.start buffer dev).observe Session.added ops).length := by
  have hs := start_sound buffer dev
  obtain ⟨es, hes⟩ := (run_sound hs ops).ring
  have hlength := congrArg List.length (contents_run hs (start_contents buffer dev) ops)
  rw [contents, List.length_map, hes.occupied_eq, List.rtake, List.rtake, List.length_drop,
    List.length_drop] at hlength
  rw [hes.full_iff]
  omega

/-- The blocks lost so far: one for every entry beyond the tenth, and one for every write that has
forgotten the pending block. -/
theorem leaked_run (buffer : Alloc) (dev : AesdDev) (ops : List Op) :
    (leaked ((Session.start buffer dev).run ops).state).ncard =
      ((Session.start buffer dev).observe Session.added ops).length - 10 +
        ((Session.start buffer dev).observe forgotten ops).length := by
  induction ops using List.reverseRecOn with
  | nil =>
    have hl := start_ledger buffer dev
    have hnone : leaked (Session.start buffer dev).state = ∅ := by
      refine Set.eq_empty_of_forall_notMem fun n hn => hn.2 ((hl.live_iff n).mp ?_)
      exact Option.ne_none_iff_exists'.mp hn.1
    simp [hnone]
  | append_singleton ops op ih =>
    have hs := run_sound (start_sound buffer dev) ops
    have hfull := full_iff buffer dev ops
    rw [Session.run_concat, leaked_apply hs, ih, Session.observe_concat, Session.observe_concat,
      List.length_append, List.length_append]
    have hone := length_added_le hs op
    cases hadded : ((Session.start buffer dev).run ops).added op with
    | nil => simp [Nat.add_assoc]
    | cons entry rest =>
      rw [hadded, List.length_cons] at hone
      simp only [ne_eq, reduceCtorEq, not_false_eq_true, true_and, hfull, List.length_cons]
      split_ifs <;> omega

/-- What the module keeps allocated while it is loaded and what it leaves behind for good: `buffer`,
every line it has ever dropped from the ring, and every pending block it has forgotten. -/
theorem left_behind (buffer : Alloc) (dev : AesdDev) (ops : List Op) :
    let x := Session.start buffer dev
    let lost := (x.observe Session.added ops).length - 10 + (x.observe forgotten ops).length
    {n | (x.run ops).state.heap.block n ≠ none}.ncard = (owned (x.run ops).state).length + lost ∧
      {n | (aesdCleanupModule (x.run ops).state).heap.block n ≠ none}.ncard =
        (if buffer.granted then 1 else 0) + lost := by
  intro x lost
  have hs : Sound (x.run ops).state := run_sound (start_sound buffer dev) ops
  have hlost : (leaked (x.run ops).state).ncard = lost := leaked_run buffer dev ops
  have hfinite := leaked_finite (x.run ops).state
  constructor
  · have hlive : {n | (x.run ops).state.heap.block n ≠ none} =
        {n | n ∈ owned (x.run ops).state} ∪ leaked (x.run ops).state := by
      ext n
      simp only [leaked, Set.mem_union, Set.mem_ofPred_eq]
      by_cases hn : n ∈ owned (x.run ops).state
      · obtain ⟨cs, hcs⟩ := hs.live_of_mem_owned hn
        exact iff_of_true (hcs ▸ Option.some_ne_none cs) (Or.inl hn)
      · simp [hn]
    have hdisjoint : Disjoint {n | n ∈ owned (x.run ops).state} (leaked (x.run ops).state) :=
      Set.disjoint_left.mpr fun n hn hleaked => hleaked.2 hn
    have hcard : Set.ncard {n | n ∈ owned (x.run ops).state} = (owned (x.run ops).state).length := by
      rw [← List.coe_toFinset, Set.ncard_coe_finset, List.toFinset_card_of_nodup hs.nodup]
    rw [hlive, Set.ncard_union_eq hdisjoint (List.finite_toSet _) hfinite, hcard, hlost]
  · have hleft : {n | (aesdCleanupModule (x.run ops).state).heap.block n ≠ none} =
        {n | n ∈ ptrBlocks (x.run ops).state.dev.buffer} ∪ leaked (x.run ops).state := by
      ext n
      simp only [leaked, Set.mem_union, Set.mem_ofPred_eq, ne_eq, (cleanup_block hs).1 n, mem_ptrBlocks]
      by_cases hb : (x.run ops).state.dev.buffer = .block n
      · have hn := mem_owned.mpr (Or.inl hb)
        obtain ⟨cs, hcs⟩ := hs.buffer n hb
        have hw : (x.run ops).state.dev.workingEntry ≠ .block n := hs.working_ne (Or.inl hb)
        have hslot : n ∉ slotBlocks (x.run ops).state.dev.circBuffer := fun hslot => by
          have hnd := hs.nodup
          rw [owned, List.append_assoc, List.nodup_append] at hnd
          exact hnd.2.2 n (mem_ptrBlocks.mpr hb) n (List.mem_append_right _ hslot) rfl
        simp [hb, hcs, hw, hslot]
      · simp only [mem_owned, hb, false_or, not_or]
        exact and_congr_right fun _ => and_comm
    have hdisjoint : Disjoint {n | n ∈ ptrBlocks (x.run ops).state.dev.buffer}
        (leaked (x.run ops).state) :=
      Set.disjoint_left.mpr fun n hn hleaked => hleaked.2 (mem_owned.mpr (Or.inl (mem_ptrBlocks.mp hn)))
    have hcard : Set.ncard {n | n ∈ ptrBlocks (x.run ops).state.dev.buffer} =
        if buffer.granted then 1 else 0 := by
      rw [← List.coe_toFinset, Set.ncard_coe_finset, List.toFinset_card_of_nodup (nodup_ptrBlocks _),
        run_buffer]
      split_ifs <;> rfl
    rw [hleft, Set.ncard_union_eq hdisjoint (List.finite_toSet _) hfinite, hcard, hlost]

end Aesd.Leaks
