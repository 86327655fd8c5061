import Aesd.Lib.BlockHeap
import Aesd.Lib.CyclicSlots

/-!
# The circular buffer of write commands

`aesd-circular-buffer.c`: ten slots, an index for the next write, an index for
the oldest entry, and a flag that tells the full buffer from the empty one.
The slots are a function of the index, of which only the first ten are used;
that the indices never leave them is proved below.
-/
namespace Aesd.CircularBuffer

open BlockHeap (Ptr)
open CyclicSlots

/-- `AESDCHAR_MAX_WRITE_OPERATIONS_SUPPORTED` -/
def maxWriteOperationsSupported : Nat := 10

@[simp] theorem maxWriteOperationsSupported_eq : maxWriteOperationsSupported = 10 := rfl

/-- `struct aesd_buffer_entry` -/
structure AesdBufferEntry where
  buffptr : Ptr
  size : Nat
  deriving DecidableEq, Repr

/-- The all-zero slot `memset` leaves. -/
def zeroEntry : AesdBufferEntry := ⟨.null, 0⟩

/-- `struct aesd_circular_buffer` -/
structure AesdCircularBuffer where
  entry : Nat → AesdBufferEntry
  inOffs : Nat
  outOffs : Nat
  full : Bool

/-- `memset(buffer, 0, sizeof(struct aesd_circular_buffer))`: whatever was there is lost. -/
def aesdCircularBufferInit (_buffer : AesdCircularBuffer) : AesdCircularBuffer :=
  ⟨fun _ => zeroEntry, 0, 0, false⟩

/-- The replaced entry is not reported to the caller: the function returns `void`. -/
def aesdCircularBufferAddEntry (buffer : AesdCircularBuffer) (addEntry : AesdBufferEntry) :
    AesdCircularBuffer :=
  let outOffs := if buffer.full then (buffer.outOffs + 1) % maxWriteOperationsSupported
    else buffer.outOffs
  let inOffs := (buffer.inOffs + 1) % maxWriteOperationsSupported
  { entry := Function.update buffer.entry buffer.inOffs addEntry
    inOffs := inOffs
    outOffs := outOffs
    full := if inOffs = outOffs then true else buffer.full }

/-- `entries` of the search: three formulas for the number of valid entries. -/
def validEntries (buffer : AesdCircularBuffer) : Nat :=
  if buffer.full then maxWriteOperationsSupported
  else if buffer.inOffs ≥ buffer.outOffs then buffer.inOffs - buffer.outOffs
  else (maxWriteOperationsSupported - buffer.outOffs) + buffer.inOffs

/-- The `for` loop of the search with `entries - i` rounds left. -/
def findLoop (buffer : AesdCircularBuffer) (charOffset : Nat) : Nat → Nat → Nat → Option (Nat × Nat)
  | 0, _, _ => none
  | n + 1, idx, bytesSearched =>
    let entry := buffer.entry idx
    if charOffset < bytesSearched + entry.size then some (idx, charOffset - bytesSearched)
    else findLoop buffer charOffset n ((idx + 1) % maxWriteOperationsSupported)
      (bytesSearched + entry.size)

/-- The slot found and the value stored through `entry_offset_byte_rtn`; `none` is the
NULL result, which leaves that location alone. -/
def aesdCircularBufferFindEntryOffsetForFpos (buffer : AesdCircularBuffer) (charOffset : Nat) :
    Option (Nat × Nat) :=
  findLoop buffer charOffset (validEntries buffer) buffer.outOffs 0

/-- How many slots are occupied: all, or the cyclic distance of the indices. -/
def occupiedCount (b : AesdCircularBuffer) : Nat :=
  if b.full then 10
  else (b.inOffs + 10 - b.outOffs) % 10

/-- The occupied slots, oldest first. -/
def occupied (b : AesdCircularBuffer) : List AesdBufferEntry :=
  window 10 b.entry b.outOffs (occupiedCount b)

/-- What the buffer is for: after the additions `es` it holds the newest ten. -/
structure Holds (b : AesdCircularBuffer) (es : List AesdBufferEntry) : Prop where
  out_lt : b.outOffs < 10
  in_eq : b.inOffs = (b.outOffs + min es.length 10) % 10
  full_iff : b.full = true ↔ 10 ≤ es.length
  window_eq : window 10 b.entry b.outOffs
    (min es.length 10) = es.rtake 10
  zero : ∀ j, es.length ≤ j → j < 10 →
    b.entry ((b.outOffs + j) % 10) = zeroEntry

theorem init_holds (b : AesdCircularBuffer) : Holds (aesdCircularBufferInit b) [] where
  out_lt := by simp [aesdCircularBufferInit]
  in_eq := rfl
  full_iff := by simp [aesdCircularBufferInit]
  window_eq := rfl
  zero := fun _ _ _ => rfl

theorem Holds.in_lt {b : AesdCircularBuffer} {es : List AesdBufferEntry} (h : Holds b es) :
    b.inOffs < 10 := by
  rw [h.in_eq]
  exact Nat.mod_lt _ (by decide)

theorem Holds.in_eq_out {b : AesdCircularBuffer} {es : List AesdBufferEntry} (h : Holds b es)
    (hfull : b.full = true) : b.inOffs = b.outOffs := by
  rw [h.in_eq, Nat.min_eq_right (h.full_iff.mp hfull), Nat.add_mod_right, Nat.mod_eq_of_lt h.out_lt]

theorem Holds.occupiedCount_eq {b : AesdCircularBuffer} {es : List AesdBufferEntry} (h : Holds b es) :
    occupiedCount b = min es.length 10 := by
  have hout := h.out_lt
  have hin := h.in_eq
  unfold occupiedCount
  by_cases hfull : b.full = true
  · have hlen := h.full_iff.mp hfull
    rw [if_pos hfull, Nat.min_eq_right hlen]
  · have hlen := mt h.full_iff.mpr hfull
    rw [if_neg hfull]
    omega

theorem Holds.occupied_eq {b : AesdCircularBuffer} {es : List AesdBufferEntry} (h : Holds b es) :
    occupied b = es.rtake 10 := by
  rw [occupied, h.occupiedCount_eq, h.window_eq]

/-- Below ten entries the addition fills the slot behind the window. -/
theorem add_holds_of_not_full {b : AesdCircularBuffer} {es : List AesdBufferEntry}
    (h : Holds b es) (e : AesdBufferEntry) (hlen : es.length < 10) :
    Holds (aesdCircularBufferAddEntry b e) (es ++ [e]) := by
  have hout := h.out_lt
  have hfull : b.full = false := by
    rw [← Bool.not_eq_true, h.full_iff]
    omega
  have hmin : min es.length 10 = es.length := by omega
  have hmin' : min (es ++ [e]).length 10 = es.length + 1 := by
    rw [List.length_append, List.length_singleton]
    omega
  have hin : b.inOffs = (b.outOffs + es.length) % 10 := by
    rw [h.in_eq, hmin]
  constructor
  · simpa [aesdCircularBufferAddEntry, hfull] using hout
  · rw [hmin']
    simp only [aesdCircularBufferAddEntry, maxWriteOperationsSupported_eq, hfull,
      Bool.false_eq_true, if_false]
    rw [hin, Nat.mod_add_mod, Nat.add_assoc]
  · simp only [aesdCircularBufferAddEntry, maxWriteOperationsSupported_eq, hfull,
      Bool.false_eq_true, if_false, List.length_append, List.length_singleton]
    rw [hin]
    split <;> simp <;> omega
  · rw [hmin']
    simp only [aesdCircularBufferAddEntry, hfull, Bool.false_eq_true, if_false]
    have hold := h.window_eq
    rw [hmin] at hold
    rw [hin, window_fill e hlen, hold]
    exact (rtake_concat_of_length_le e (by omega)).symm
  · intro j hj hj'
    simp only [List.length_append, List.length_singleton] at hj
    simp only [aesdCircularBufferAddEntry, hfull, Bool.false_eq_true, if_false]
    rw [hin, Function.update_of_ne, h.zero j (by omega) hj']
    intro he
    have := offset_injective b.outOffs hj' hlen he
    omega

/-- From ten entries on the addition overwrites the oldest and moves `out_offs` past it. -/
theorem add_holds_of_full {b : AesdCircularBuffer} {es : List AesdBufferEntry}
    (h : Holds b es) (e : AesdBufferEntry) (hlen : 10 ≤ es.length) :
    Holds (aesdCircularBufferAddEntry b e) (es ++ [e]) := by
  have hfull : b.full = true := h.full_iff.mpr hlen
  have hin : b.inOffs = b.outOffs := h.in_eq_out hfull
  have hmin : min (es ++ [e]).length 10 = 10 := by
    rw [List.length_append, List.length_singleton]
    omega
  constructor
  · simp only [aesdCircularBufferAddEntry, hfull, if_true]
    exact Nat.mod_lt _ (by decide)
  · rw [hmin]
    simp [aesdCircularBufferAddEntry, hfull, hin]
  · simp only [aesdCircularBufferAddEntry, hfull, hin, if_true, List.length_append,
      List.length_singleton, true_iff]
    omega
  · rw [hmin]
    simp only [aesdCircularBufferAddEntry, maxWriteOperationsSupported_eq, hfull, hin, if_true]
    have hold := h.window_eq
    rw [Nat.min_eq_right hlen] at hold
    rw [window_overwrite e h.out_lt, hold]
    exact (rtake_concat_of_lt_length e (by omega)).symm
  · intro j hj hj'
    simp only [List.length_append, List.length_singleton] at hj
    omega

theorem add_holds {b : AesdCircularBuffer} {es : List AesdBufferEntry} (h : Holds b es)
    (e : AesdBufferEntry) : Holds (aesdCircularBufferAddEntry b e) (es ++ [e]) := by
  by_cases hlen : es.length < 10
  · exact add_holds_of_not_full h e hlen
  · exact add_holds_of_full h e (by omega)

/-- Any number of additions to a buffer, through any number of wraparounds. -/
theorem foldl_add_holds {b : AesdCircularBuffer} {es : List AesdBufferEntry} (h : Holds b es)
    (new : List AesdBufferEntry) :
    Holds (new.foldl aesdCircularBufferAddEntry b) (es ++ new) := by
  induction new generalizing b es with
  | nil => simpa using h
  | cons e new ih =>
    rw [List.foldl_cons, List.append_cons]
    exact ih (add_holds h e)

/-- An addition appends to the occupied slots and keeps the newest ten. -/
theorem Holds.occupied_add {b : AesdCircularBuffer} {es : List AesdBufferEntry} (h : Holds b es)
    (e : AesdBufferEntry) :
    occupied (aesdCircularBufferAddEntry b e) = (occupied b ++ [e]).rtake 10 := by
  rw [(add_holds h e).occupied_eq, h.occupied_eq, rtake_rtake_append]

/-- The ring after `init` and the additions `es`, whatever memory it was built in. -/
theorem ring_refines_newest (b : AesdCircularBuffer) (es : List AesdBufferEntry) :
    let r := es.foldl aesdCircularBufferAddEntry (aesdCircularBufferInit b)
    (r.inOffs < 10 ∧ r.outOffs < 10) ∧
    (r.full = true ↔ 10 ≤ es.length) ∧
    (r.full = true → r.inOffs = r.outOffs) ∧
    occupied r = es.rtake (min es.length 10) ∧
    (r.full = false → ∀ i < 10,
      (∀ j < occupiedCount r, (r.outOffs + j) % 10 ≠ i) →
      r.entry i = zeroEntry) := by
  intro r
  have h : Holds r es := foldl_add_holds (init_holds b) es
  refine ⟨⟨h.in_lt, h.out_lt⟩, h.full_iff, h.in_eq_out, ?_, ?_⟩
  · rw [h.occupied_eq]
    unfold List.rtake
    congr 1
    omega
  · intro hfull i hi hfree
    have hlen : ¬ 10 ≤ es.length := by
      rw [← h.full_iff, hfull]
      decide
    obtain ⟨j, hj, rfl⟩ := exists_offset h.out_lt hi
    apply h.zero j ?_ hj
    apply Nat.le_of_not_lt
    intro hlt
    refine hfree j ?_ rfl
    rw [h.occupiedCount_eq]
    omega

end Aesd.CircularBuffer
