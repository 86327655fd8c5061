import Aesd.Driver.Position

/-!
# The search in machine arithmetic

`aesd_circular_buffer_find_entry_offset_for_fpos` once more, with its sums in
`size_t` and with the variable its caller wants filled. On any indices and any
sizes whose sum fits, it is the search without bounds.
-/
namespace Aesd.Search

open CircularBuffer Position CyclicSlots Pieces

/-- `a + b` in a `size_t` -/
def addSizeT (a b : Nat) : Nat := (a + b) % 2 ^ 64

/-- `a - b` in a `size_t` -/
def subSizeT (a b : Nat) : Nat := (a + (2 ^ 64 - b % 2 ^ 64)) % 2 ^ 64

/-- The `for` loop with `entries - i` rounds left; `rtn` is what lies at
`entry_offset_byte_rtn`. -/
def findLoopRtn (buffer : AesdCircularBuffer) (charOffset rtn : Nat) :
    Nat → Nat → Nat → Option Nat × Nat
  | 0, _, _ => (none, rtn)
  | n + 1, idx, bytesSearched =>
    let entry := buffer.entry idx
    if charOffset < addSizeT bytesSearched entry.size then
      (some idx, subSizeT charOffset bytesSearched)
    else findLoopRtn buffer charOffset rtn n ((idx + 1) % maxWriteOperationsSupported)
      (addSizeT bytesSearched entry.size)

/-- The slot of the entry returned, and what lies at `entry_offset_byte_rtn` then. Neither
pointer is NULL. -/
def findEntryOffsetForFpos (buffer : AesdCircularBuffer) (charOffset rtn : Nat) : Option Nat × Nat :=
  findLoopRtn buffer charOffset rtn (validEntries buffer) buffer.outOffs 0

/-- The sizes of the occupied slots, oldest first. -/
def sizes (b : AesdCircularBuffer) : List Nat := (occupied b).map AesdBufferEntry.size

variable {b : AesdCircularBuffer} {charOffset rtn : Nat}

@[simp] theorem length_sizes (b : AesdCircularBuffer) : (sizes b).length = occupiedCount b := by
  simp [sizes, occupied]

/-- As long as the sums fit, no round of the loop wraps. -/
theorem findLoopRtn_eq (rtn n : Nat) {first acc : Nat} (hf : first < 10) (hacc : acc ≤ charOffset)
    (hoff : charOffset < 2 ^ 64)
    (hsum : acc + ((window 10 b.entry first n).map AesdBufferEntry.size).sum < 2 ^ 64) :
    findLoopRtn b charOffset rtn n first acc =
      match findLoop b charOffset n first acc with
      | some (idx, off) => (some idx, off)
      | none => (none, rtn) := by
  induction n generalizing first acc with
  | zero => rfl
  | succ n ih =>
    rw [window_succ_left, Nat.mod_eq_of_lt hf, List.map_cons, List.sum_cons] at hsum
    have hadd : addSizeT acc (b.entry first).size = acc + (b.entry first).size :=
      Nat.mod_eq_of_lt (by omega)
    have hsub : subSizeT charOffset acc = charOffset - acc := by
      unfold subSizeT
      omega
    simp only [findLoopRtn, findLoop, hadd, hsub, maxWriteOperationsSupported_eq]
    by_cases h : charOffset < acc + (b.entry first).size
    · rw [if_pos h, if_pos h]
    · rw [if_neg h, if_neg h]
      exact ih (Nat.mod_lt _ (by decide)) (by omega) (by omega)

/-- The search in machine arithmetic finds the place among the occupied slots. -/
theorem findEntryOffsetForFpos_eq (rtn : Nat) (hin : b.inOffs < 10) (hout : b.outOffs < 10)
    (hsum : (sizes b).sum < 2 ^ 64) (hoff : charOffset < 2 ^ 64) :
    findEntryOffsetForFpos b charOffset rtn =
      match locate (sizes b) charOffset with
      | some (k, off) => (some ((b.outOffs + k) % 10), off)
      | none => (none, rtn) := by
  have hentries := validEntries_eq hin hout
  have hloop := findLoopRtn_eq rtn (validEntries b) hout (Nat.zero_le _) hoff
    (by rw [hentries, Nat.zero_add]; exact hsum)
  have hfind := find_eq charOffset hin hout
  rw [aesdCircularBufferFindEntryOffsetForFpos] at hfind
  rw [findEntryOffsetForFpos, hloop, hfind]
  change _ = match locate ((occupied b).map AesdBufferEntry.size) charOffset with
    | some (k, off) => (some ((b.outOffs + k) % 10), off)
    | none => (none, rtn)
  cases locate ((occupied b).map AesdBufferEntry.size) charOffset <;> rfl

/-- The bytes before the `k`-th oldest entry. -/
def start (b : AesdCircularBuffer) (k : Nat) : Nat := ((sizes b).take k).sum

/-- What the search promises about its result and the variable of its caller. -/
structure Finds (b : AesdCircularBuffer) (charOffset rtn : Nat) (r : Option Nat × Nat) : Prop where
  missing : r.1 = none ↔ (sizes b).sum ≤ charOffset
  untouched : r.1 = none → r.2 = rtn
  /-- the slot is the only one around the position, and it is not empty -/
  found : ∀ idx, r.1 = some idx → ∃ k < occupiedCount b, idx = (b.outOffs + k) % 10 ∧
    start b k ≤ charOffset ∧ charOffset < start b (k + 1) ∧ r.2 = charOffset - start b k ∧
      r.2 < (b.entry idx).size ∧
        ∀ j, start b j ≤ charOffset → charOffset < start b (j + 1) → j = k

theorem start_succ {k size : Nat} (hk : (sizes b)[k]? = some size) :
    start b (k + 1) = start b k + size := by
  obtain ⟨hlt, rfl⟩ := List.getElem?_eq_some_iff.mp hk
  rw [start, List.take_succ_eq_append_getElem hlt, List.sum_append, List.sum_singleton, start]

theorem size_of_start {j : Nat} (hlo : start b j ≤ charOffset) (hhi : charOffset < start b (j + 1)) :
    ∃ size, (sizes b)[j]? = some size ∧ charOffset - start b j < size := by
  cases hj : (sizes b)[j]? with
  | none =>
    have hlen := List.getElem?_eq_none_iff.mp hj
    rw [start, List.take_of_length_le (by omega)] at hlo hhi
    omega
  | some size =>
    rw [start_succ hj] at hhi
    exact ⟨size, rfl, by omega⟩

/-- The bounds name the place. -/
theorem locate_of_start {j : Nat} (hlo : start b j ≤ charOffset)
    (hhi : charOffset < start b (j + 1)) :
    locate (sizes b) charOffset = some (j, charOffset - start b j) := by
  obtain ⟨size, hsize, hlt⟩ := size_of_start hlo hhi
  exact locate_eq_some.mpr ⟨size, hsize, hlt, Nat.add_sub_cancel' hlo⟩

theorem size_of_slot {k size : Nat} (hk : (sizes b)[k]? = some size) :
    (b.entry ((b.outOffs + k) % 10)).size = size := by
  have hlt : k < occupiedCount b := by
    have := (List.getElem?_eq_some_iff.mp hk).1
    rwa [length_sizes] at this
  rw [sizes, List.getElem?_map, occupied, getElem?_window hlt] at hk
  exact Option.some.inj hk

/-- For any indices, any flag and any sizes whose sum fits a `size_t`, the search finds the place
of the position in the cyclic order of the occupied slots, and nothing but these slots matters. -/
theorem search_finds (b : AesdCircularBuffer) (charOffset rtn : Nat) (hin : b.inOffs < 10)
    (hout : b.outOffs < 10) (hsum : (sizes b).sum < 2 ^ 64) (hoff : charOffset < 2 ^ 64) :
    Finds b charOffset rtn (findEntryOffsetForFpos b charOffset rtn) ∧
      ∀ entry : Nat → AesdBufferEntry,
        (∀ k < occupiedCount b, entry ((b.outOffs + k) % 10) = b.entry ((b.outOffs + k) % 10)) →
          findEntryOffsetForFpos { b with entry := entry } charOffset rtn =
            findEntryOffsetForFpos b charOffset rtn := by
  refine ⟨?_, fun entry hagree => ?_⟩
  · rw [findEntryOffsetForFpos_eq rtn hin hout hsum hoff]
    cases hplace : locate (sizes b) charOffset with
    | none =>
      have hend := locate_eq_none.mp hplace
      exact ⟨iff_of_true rfl hend, fun _ => rfl, by simp⟩
    | some place =>
      obtain ⟨k, off⟩ := place
      obtain ⟨size, hsize, hlt, hsplit⟩ := locate_eq_some.mp hplace
      have hlo : start b k + off = charOffset := hsplit
      have hhi : charOffset < start b (k + 1) := by
        rw [start_succ hsize]
        omega
      have hend : ¬ (sizes b).sum ≤ charOffset := by
        rw [← locate_eq_none, hplace]
        simp
      refine ⟨iff_of_false (by simp) hend, by simp, fun idx hidx => ?_⟩
      cases hidx
      refine ⟨k, ?_, rfl, by omega, hhi, by dsimp only; omega, ?_, fun j hj hj' => ?_⟩
      · have := (List.getElem?_eq_some_iff.mp hsize).1
        rwa [length_sizes] at this
      · rw [size_of_slot hsize]
        exact hlt
      · have hplaces := (locate_of_start hj hj').symm.trans hplace
        exact (Prod.mk.inj (Option.some.inj hplaces)).1
  · have hwindow : occupied { b with entry := entry } = occupied b := by
      apply List.map_congr_left
      intro k hk
      exact hagree k (List.mem_range.mp hk)
    have hsizes : sizes { b with entry := entry } = sizes b := by rw [sizes, hwindow, sizes]
    have hother := findEntryOffsetForFpos_eq (b := { b with entry := entry }) rtn hin hout
      (hsizes.symm ▸ hsum) hoff
    rw [hother, hsizes, findEntryOffsetForFpos_eq rtn hin hout hsum hoff]

/-- A partly filled ring that wraps, with an empty entry in the middle. -/
def wrapped : AesdCircularBuffer :=
  ⟨fun i => if i = 8 then ⟨.block 0, 3⟩ else if i = 0 then ⟨.block 1, 2⟩ else ⟨.null, 0⟩, 1, 8, false⟩

theorem search_finds_wrapped : Finds wrapped 3 7 (some 0, 0) :=
  (search_finds wrapped 3 7 (by decide) (by decide) (by decide) (by decide)).1

end Aesd.Search
