import Aesd.Driver.WriteEffect
import Mathlib.Data.List.Flatten

/-!
# What every operation keeps true

Whatever fails, the occupied slots hold lines in live blocks of their own, and
the pending block, if there is one, is as long as `working_size` says.
-/
namespace Aesd.Ownership

open BlockHeap BlockHeap.Heap Kernel CircularBuffer CharDevice WriteEffect Segments CyclicSlots

/-- The block a pointer leads to, if it leads to one. -/
def ptrBlocks : Ptr → List Nat
  | .block b => [b]
  | _ => []

theorem mem_ptrBlocks {p : Ptr} {b : Nat} : b ∈ ptrBlocks p ↔ p = .block b := by
  cases p <;> simp [ptrBlocks, eq_comm]

theorem nodup_ptrBlocks (p : Ptr) : (ptrBlocks p).Nodup := by
  cases p <;> simp [ptrBlocks]

def slotBlocks (b : AesdCircularBuffer) : List Nat :=
  (occupied b).flatMap fun e => ptrBlocks e.buffptr

/-- The blocks the device points to. -/
def owned (s : State) : List Nat :=
  ptrBlocks s.dev.buffer ++ ptrBlocks s.dev.workingEntry ++ slotBlocks s.dev.circBuffer

/-- The contents of an entry. -/
def entryCells (h : Memory) (e : AesdBufferEntry) : List (Cell UInt8) := h.load e.buffptr 0 e.size

/-- What is stored, oldest first. -/
def contents (s : State) : List (List (Cell UInt8)) :=
  (occupied s.dev.circBuffer).map (entryCells s.heap)

/-- `working_entry[0..working_size)` -/
def pending (s : State) : List (Cell UInt8) := s.heap.load s.dev.workingEntry 0 s.dev.workingSize

/-- An entry whose buffer is a live block of its size that holds one line. -/
structure GoodEntry (h : Memory) (e : AesdBufferEntry) : Prop where
  live : ∃ b cs, e.buffptr = .block b ∧ h.block b = some cs ∧ cs.length = e.size
  line : IsLine newline ((entryCells h e).map Cell.val)

structure Sound (s : State) : Prop where
  lock_free : s.dev.lock = false
  ring : ∃ es, Holds s.dev.circBuffer es
  slot : ∀ e ∈ occupied s.dev.circBuffer, GoodEntry s.heap e
  working : ∀ b, s.dev.workingEntry = .block b →
    ∃ cs, s.heap.block b = some cs ∧ cs.length = s.dev.workingSize ∧ cs ≠ []
  buffer : ∀ b, s.dev.buffer = .block b → ∃ cs, s.heap.block b = some cs
  nodup : (owned s).Nodup
  faults : ∀ f ∈ s.heap.faults, f = .uninitialised

variable {s : State}

theorem mem_slotBlocks {b : AesdCircularBuffer} {n : Nat} :
    n ∈ slotBlocks b ↔ ∃ e ∈ occupied b, e.buffptr = .block n := by
  simp [slotBlocks, mem_ptrBlocks]

theorem mem_owned {n : Nat} : n ∈ owned s ↔ s.dev.buffer = .block n ∨
    s.dev.workingEntry = .block n ∨ n ∈ slotBlocks s.dev.circBuffer := by
  simp [owned, mem_ptrBlocks]

theorem GoodEntry.cells {h : Memory} {e : AesdBufferEntry} (hg : GoodEntry h e) :
    ∃ b, e.buffptr = .block b ∧ h.block b = some (entryCells h e) ∧
      (entryCells h e).length = e.size := by
  obtain ⟨b, cs, hp, hb, hlen⟩ := hg.live
  have : entryCells h e = cs := by
    rw [entryCells, load, hp, cells_block hb, List.drop_zero, List.take_of_length_le (by omega)]
  exact ⟨b, hp, by rw [this, hb], by rw [this, hlen]⟩

/-- An entry is as good in any memory that has the same block for it. -/
theorem GoodEntry.congr {h h' : Memory} {e : AesdBufferEntry} (hg : GoodEntry h e)
    (hb : ∀ b, e.buffptr = .block b → h'.block b = h.block b) :
    GoodEntry h' e ∧ entryCells h' e = entryCells h e := by
  obtain ⟨b, cs, hp, hlive, hlen⟩ := hg.live
  have hlive' : h'.block b = some cs := by rw [hb b hp, hlive]
  have hcells : entryCells h' e = entryCells h e := by
    rw [entryCells, entryCells, load, load, hp, cells_block hlive, cells_block hlive']
  exact ⟨⟨⟨b, cs, hp, hlive', hlen⟩, by rw [hcells]; exact hg.line⟩, hcells⟩

theorem Sound.releasable (hs : Sound s) : s.heap.Releasable s.dev.workingEntry := by
  intro b hb
  obtain ⟨cs, hcs, -⟩ := hs.working b hb
  exact ⟨cs, hcs⟩

theorem Sound.live_of_mem_owned (hs : Sound s) {n : Nat} (hn : n ∈ owned s) :
    ∃ cs, s.heap.block n = some cs := by
  rcases mem_owned.mp hn with h | h | h
  · exact hs.buffer n h
  · exact hs.releasable n h
  · obtain ⟨e, he, hp⟩ := mem_slotBlocks.mp h
    obtain ⟨b, hb, hlive, -⟩ := (hs.slot e he).cells
    rw [hp] at hb
    cases hb
    exact ⟨_, hlive⟩

theorem Sound.lt_of_mem_owned (hs : Sound s) {n : Nat} (hn : n ∈ owned s) : n < s.heap.next := by
  obtain ⟨cs, hcs⟩ := hs.live_of_mem_owned hn
  exact lt_next hcs

/-- Neither a slot nor `buffer` shares its block with the pending bytes. -/
theorem Sound.working_ne (hs : Sound s) {n : Nat}
    (hn : s.dev.buffer = .block n ∨ n ∈ slotBlocks s.dev.circBuffer) :
    s.dev.workingEntry ≠ .block n := by
  intro hw
  have hnd := hs.nodup
  have hmem := mem_ptrBlocks.mpr hw
  rw [owned, List.nodup_append, List.nodup_append] at hnd
  obtain ⟨⟨-, -, hbw⟩, -, hsw⟩ := hnd
  rcases hn with h | h
  · exact hbw n (mem_ptrBlocks.mpr h) n hmem rfl
  · exact hsw n (List.mem_append_right _ hmem) n h rfl

/-- The pending block replaced by a fresh one, or by none. -/
theorem Sound.nodup_replaced (hs : Sound s) {p : Ptr} (hp : ∀ b, p = .block b → s.heap.next ≤ b) :
    (ptrBlocks s.dev.buffer ++ ptrBlocks p ++ slotBlocks s.dev.circBuffer).Nodup := by
  have hnd := hs.nodup
  have hlt : ∀ n, s.dev.buffer = .block n ∨ n ∈ slotBlocks s.dev.circBuffer → n < s.heap.next :=
    fun n hn => hs.lt_of_mem_owned (mem_owned.mpr (hn.imp_right Or.inr))
  rw [owned, List.nodup_append, List.nodup_append] at hnd
  obtain ⟨-, hslots, hdisj⟩ := hnd
  rw [List.nodup_append, List.nodup_append]
  refine ⟨⟨nodup_ptrBlocks _, nodup_ptrBlocks _, ?_⟩, hslots, ?_⟩
  · rintro a ha b hb rfl
    have := hp a (mem_ptrBlocks.mp hb)
    have := hlt a (Or.inl (mem_ptrBlocks.mp ha))
    omega
  · rintro a ha b hb rfl
    rcases List.mem_append.mp ha with ha | ha
    · exact hdisj a (List.mem_append_left _ ha) a hb rfl
    · have := hp a (mem_ptrBlocks.mp ha)
      have := hlt a (Or.inr hb)
      omega

/-- A fresh block appended to the slots, of which the oldest may go. -/
theorem Sound.nodup_added (hs : Sound s) {p : Ptr} {e : Nat} (he : s.heap.next ≤ e)
    (hp : ∀ b, p = .block b → s.heap.next ≤ b ∧ b ≠ e) {slots : List Nat}
    (hsub : slots.Sublist (slotBlocks s.dev.circBuffer ++ [e])) :
    (ptrBlocks s.dev.buffer ++ ptrBlocks p ++ slots).Nodup := by
  have hall : (ptrBlocks s.dev.buffer ++ ptrBlocks p ++
      (slotBlocks s.dev.circBuffer ++ [e])).Nodup := by
    rw [← List.append_assoc, List.nodup_append]
    refine ⟨hs.nodup_replaced fun b hb => (hp b hb).1, by simp, ?_⟩
    rintro a ha b hb rfl
    obtain rfl := List.mem_singleton.mp hb
    simp only [List.mem_append, mem_ptrBlocks] at ha
    rcases ha with (ha | ha) | ha
    · have := hs.lt_of_mem_owned (mem_owned.mpr (Or.inl ha))
      omega
    · exact (hp a ha).2 rfl
    · have := hs.lt_of_mem_owned (mem_owned.mpr (Or.inr (Or.inr ha)))
      omega
  exact hall.sublist (List.Sublist.append_left hsub _)

/-- Adding an entry appends it to the occupied slots and keeps the newest ten. -/
theorem Sound.occupied_add (hs : Sound s) (e : AesdBufferEntry) :
    occupied (aesdCircularBufferAddEntry s.dev.circBuffer e) =
      (occupied s.dev.circBuffer ++ [e]).rtake 10 := by
  obtain ⟨es, hes⟩ := hs.ring
  exact hes.occupied_add e

theorem slotBlocks_add_sublist (hs : Sound s) (e : AesdBufferEntry) {n : Nat}
    (hn : e.buffptr = .block n) :
    (slotBlocks (aesdCircularBufferAddEntry s.dev.circBuffer e)).Sublist
      (slotBlocks s.dev.circBuffer ++ [n]) := by
  have hone : slotBlocks s.dev.circBuffer ++ [n] =
      (occupied s.dev.circBuffer ++ [e]).flatMap fun e => ptrBlocks e.buffptr := by
    simp [slotBlocks, hn, ptrBlocks]
  rw [hone, slotBlocks, hs.occupied_add]
  exact List.Sublist.flatMap (List.drop_sublist _ _) _

theorem Sound.contents_length (hs : Sound s) : (contents s).length ≤ 10 := by
  obtain ⟨es, hes⟩ := hs.ring
  rw [contents, List.length_map, hes.occupied_eq, List.rtake, List.length_drop]
  omega

/-- A module just loaded: an empty ring, nothing pending, and `buffer` if it was granted. -/
theorem start_state (buffer : Alloc) (dev : AesdDev) :
    (Session.start buffer dev).state =
      if buffer.granted then
        ⟨Heap.empty.alloc (junkCells buffer.junk 0 aesdBufferSize),
          ⟨.block 0, 0, false, ⟨fun _ => zeroEntry, 0, 0, false⟩, .null, 0⟩⟩
      else ⟨Heap.empty, ⟨.null, 0, false, ⟨fun _ => zeroEntry, 0, 0, false⟩, .null, 0⟩⟩ := by
  have hsize : aesdBufferSize ≠ 0 := by decide
  cases h : buffer.granted with
  | true =>
    simp [Session.start, aesdInitModule, initWorkingEntry, initCircBuffer, initBuffer, initLock,
      clearDevice, aesdCircularBufferInit, kmalloc_granted hsize h, Heap.empty]
  | false =>
    simp [Session.start, aesdInitModule, initWorkingEntry, initCircBuffer, initBuffer, initLock,
      clearDevice, aesdCircularBufferInit, kmalloc_refused hsize h]

theorem start_sound (buffer : Alloc) (dev : AesdDev) : Sound (Session.start buffer dev).state := by
  have hring : Holds ⟨fun _ => zeroEntry, 0, 0, false⟩ [] := init_holds ⟨fun _ => zeroEntry, 0, 0, false⟩
  have hempty : occupied ⟨fun _ => zeroEntry, 0, 0, false⟩ = [] := hring.occupied_eq
  rw [start_state]
  cases hg : buffer.granted with
  | true =>
    constructor
    case lock_free => rfl
    case ring => exact ⟨[], hring⟩
    case slot => simp [hempty]
    case working => simp
    case buffer =>
      intro b hb
      cases hb
      exact ⟨junkCells buffer.junk 0 aesdBufferSize, by simp [Heap.empty]⟩
    case nodup => simp [owned, ptrBlocks, slotBlocks, hempty]
    case faults => simp [Heap.empty]
  | false =>
    constructor
    case lock_free => rfl
    case ring => exact ⟨[], hring⟩
    case slot => simp [hempty]
    case working => simp
    case buffer => simp
    case nodup => simp [owned, ptrBlocks, slotBlocks, hempty]
    case faults => simp [Heap.empty]

section Write

variable {env : WriteEnv} {buf : List UInt8} {r : WriteResult}

/-- The blocks of the slots and of `buffer` come through a write. -/
theorem Sound.kept_block (hs : Sound s) (h : Effect env buf s r) {n : Nat}
    (hn : s.dev.buffer = .block n ∨ n ∈ slotBlocks s.dev.circBuffer) :
    r.state.heap.block n = s.heap.block n := by
  apply h.frame _ (hs.working_ne hn)
  apply hs.lt_of_mem_owned
  rw [mem_owned]
  rcases hn with h | h
  · exact Or.inl h
  · exact Or.inr (Or.inr h)

theorem Sound.kept_slot (hs : Sound s) (h : Effect env buf s r) {e : AesdBufferEntry}
    (he : e ∈ occupied s.dev.circBuffer) :
    GoodEntry r.state.heap e ∧ entryCells r.state.heap e = entryCells s.heap e :=
  (hs.slot e he).congr fun _ hb => hs.kept_block h (Or.inr (mem_slotBlocks.mpr ⟨e, he, hb⟩))

/-- The entry a write commits holds the gathered bytes up to the first newline. -/
theorem goodEntry_added {h : Memory} {i e : Nat} (hl : lineEnd env buf s = some i)
    (hb : h.block e = some ((gathered env buf s).take (i + 1))) :
    GoodEntry h ⟨.block e, i + 1⟩ ∧
      entryCells h ⟨.block e, i + 1⟩ = (gathered env buf s).take (i + 1) := by
  have hi : i < ((gathered env buf s).map Cell.val).length :=
    (List.findIdx?_eq_some_iff_findIdx_eq.mp hl).1
  rw [List.length_map] at hi
  have hcells : entryCells h ⟨.block e, i + 1⟩ = (gathered env buf s).take (i + 1) := by
    simp [entryCells, load, cells_block hb]
  refine ⟨⟨⟨e, _, rfl, hb, by simp only [List.length_take]; omega⟩, ?_⟩,
    hcells⟩
  rw [hcells, List.map_take]
  exact isLine_take_of_findIdx hl

/-- Where a committing write leaves the entry and the rest. -/
theorem committed_blocks {heap : Memory} {i e : Nat} {p : Ptr}
    (hp : Divided env buf s i e p heap.block) :
    heap.block e = some ((gathered env buf s).take (i + 1)) ∧
      ∀ w, p = .block w → s.heap.next ≤ w ∧ w ≠ e ∧ (gathered env buf s).drop (i + 1) ≠ [] ∧
        heap.block w = some ((gathered env buf s).drop (i + 1)) := by
  rcases hp with ⟨-, rfl, hb⟩ | ⟨hne, -, w, hw, hwe, rfl, hb⟩ | ⟨-, -, rfl, w, cs, -, hwe, hb⟩
  · exact ⟨by rw [hb, Function.update_self], fun w hw => by cases hw⟩
  · refine ⟨by rw [hb, Function.update_of_ne (Ne.symm hwe), Function.update_self], ?_⟩
    intro w' hw'
    cases hw'
    exact ⟨hw, hwe, hne, by rw [hb, Function.update_self]⟩
  · exact ⟨by rw [hb, Function.update_of_ne (Ne.symm hwe), Function.update_self],
      fun w hw => by cases hw⟩

/-- A write appends what it commits to the contents, of which the newest ten stay. -/
theorem Sound.contents_write (hs : Sound s) (h : Effect env buf s r) :
    contents r.state = (contents s ++ r.added).rtake 10 := by
  have hkept : (occupied s.dev.circBuffer).map (entryCells r.state.heap) = contents s :=
    List.map_congr_left fun e he => (hs.kept_slot h he).2
  have hsame : contents s = (contents s ++ []).rtake 10 := by
    rw [List.append_nil, List.rtake, Nat.sub_eq_zero_of_le hs.contents_length, List.drop_zero]
  cases h with
  | interrupted => exact hsame
  | notStarted | growRefused | kept => exact hkept.trans hsame
  | committed heap i e p _ _ hl _ _ hp =>
    obtain ⟨-, hcells⟩ := goodEntry_added hl (committed_blocks hp).1
    simp only [contents, unlocked, hs.occupied_add, List.rtake] at hkept ⊢
    rw [List.map_drop, List.map_append, hkept]
    simp [hcells]

/-- A write keeps the device sound, whatever fails. -/
theorem Sound.write (hs : Sound s) (h : Effect env buf s r) : Sound r.state := by
  have hslot := fun e he => (hs.kept_slot h (e := e) he).1
  have hbuffer : ∀ b, s.dev.buffer = .block b → ∃ cs, r.state.heap.block b = some cs := by
    intro b hb
    rw [hs.kept_block h (Or.inl hb)]
    exact hs.buffer b hb
  have hfaults : ∀ f ∈ r.state.heap.faults, f = .uninitialised := by
    obtain ⟨fs, hfs, hnew, -⟩ := h.faults
    intro f hf
    rw [hfs] at hf
    exact (List.mem_append.mp hf).elim (hnew f) (hs.faults f)
  cases h with
  | interrupted => exact hs
  | notStarted retval heap _ _ hblock =>
    refine ⟨rfl, hs.ring, hslot, ?_, hbuffer, hs.nodup, hfaults⟩
    intro b hb
    simp only [hblock]
    exact hs.working b hb
  | growRefused heap =>
    refine ⟨rfl, hs.ring, hslot, ?_, hbuffer, hs.nodup_replaced ?_, hfaults⟩ <;>
    · intro b hb
      cases hb
  | kept retval heap w hr _ _ hw hblock =>
    refine ⟨rfl, hs.ring, hslot, ?_, hbuffer, hs.nodup_replaced ?_, hfaults⟩
    · intro b hb
      cases hb
      refine ⟨gathered env buf s, by simp [hblock], rfl, ?_⟩
      intro he
      have hlen := congrArg List.length he
      rw [length_gathered, List.length_nil] at hlen
      exact hr.2.2.2 (List.eq_nil_of_length_eq_zero (by omega))
    · intro b hb
      cases hb
      exact hw
  | committed heap i e p _ _ hl _ he hp =>
    obtain ⟨hentry, hw⟩ := committed_blocks hp
    obtain ⟨es, hes⟩ := hs.ring
    refine ⟨rfl, ⟨_, add_holds hes _⟩, ?_, ?_, hbuffer, ?_, hfaults⟩
    · intro e' he'
      simp only [unlocked, hs.occupied_add] at he'
      rcases List.mem_append.mp (List.mem_of_mem_drop he') with he' | he'
      · exact hslot e' he'
      · obtain rfl := List.mem_singleton.mp he'
        exact (goodEntry_added hl hentry).1
    · intro b hb
      obtain ⟨-, -, hne, hblock⟩ := hw b hb
      exact ⟨_, hblock, rfl, hne⟩
    · exact hs.nodup_added he (fun b hb => ⟨(hw b hb).1, (hw b hb).2.1⟩)
        (slotBlocks_add_sublist hs _ rfl)

end Write

end Aesd.Ownership
