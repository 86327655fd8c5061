import Mathlib.Data.List.DropRight
import Mathlib.Data.List.Nodup
import Mathlib.Data.Nat.ModEq
import Mathlib.Logic.Function.Basic

/-!
# Slots read cyclically

`capacity` slots hold a window of a sequence: `count` slots are in use, read
from a first slot onwards and wrapping behind the last one. Two updates keep
such a window current: filling the slot behind it, and, once every slot is in
use, overwriting the oldest one and moving the first slot on.
-/
namespace CyclicSlots

variable {α : Type*} {capacity : Nat}

/-- The `count` slots in use, oldest first. -/
def window (capacity : Nat) (slot : Nat → α) (first count : Nat) : List α :=
  (List.range count).map fun i => slot ((first + i) % capacity)

@[simp] theorem length_window (slot : Nat → α) (first count : Nat) :
    (window capacity slot first count).length = count := by simp [window]

@[simp] theorem window_zero (slot : Nat → α) (first : Nat) :
    window capacity slot first 0 = [] := rfl

theorem window_succ (slot : Nat → α) (first count : Nat) :
    window capacity slot first (count + 1) =
      window capacity slot first count ++ [slot ((first + count) % capacity)] := by
  simp [window, List.range_succ]

theorem window_succ_left (slot : Nat → α) (first count : Nat) :
    window capacity slot first (count + 1) =
      slot (first % capacity) :: window capacity slot ((first + 1) % capacity) count := by
  simp only [window, List.range_succ_eq_map, List.map_cons, List.map_map, Nat.add_zero]
  congr 1
  apply List.map_congr_left
  intro i _
  simp only [Function.comp, Nat.mod_add_mod]
  congr 2
  omega

theorem mem_window {slot : Nat → α} {first count : Nat} {a : α} :
    a ∈ window capacity slot first count ↔ ∃ i < count, slot ((first + i) % capacity) = a := by
  simp [window]

theorem getElem?_window {slot : Nat → α} {first count k : Nat} (h : k < count) :
    (window capacity slot first count)[k]? = some (slot ((first + k) % capacity)) := by
  simp [window, List.getElem?_range h]

/-- A shorter window is the beginning of a longer one. -/
theorem take_window {slot : Nat → α} {first count k : Nat} (h : k ≤ count) :
    (window capacity slot first count).take k = window capacity slot first k := by
  rw [window, ← List.map_take, List.take_range, Nat.min_eq_left h]
  rfl

/-- Distinct offsets below the capacity are distinct slots. -/
theorem offset_injective (first : Nat) {i j : Nat} (hi : i < capacity) (hj : j < capacity)
    (h : (first + i) % capacity = (first + j) % capacity) : i = j := by
  have hmod : i % capacity = j % capacity := Nat.ModEq.add_left_cancel' first h
  rwa [Nat.mod_eq_of_lt hi, Nat.mod_eq_of_lt hj] at hmod

/-- Every slot is some offset away from the first. -/
theorem exists_offset {first i : Nat} (hf : first < capacity) (hi : i < capacity) :
    ∃ j < capacity, i = (first + j) % capacity := by
  refine ⟨(i + (capacity - first)) % capacity, Nat.mod_lt _ (by omega), ?_⟩
  rw [Nat.add_mod_mod, show first + (i + (capacity - first)) = i + capacity by omega,
    Nat.add_mod_right, Nat.mod_eq_of_lt hi]

/-- A window as long as the capacity holds every slot once. -/
theorem window_perm (slot : Nat → α) {first : Nat} (hf : first < capacity) :
    (window capacity slot first capacity).Perm ((List.range capacity).map slot) := by
  have hslots : ((List.range capacity).map fun i => (first + i) % capacity).Perm
      (List.range capacity) := by
    refine (List.perm_ext_iff_of_nodup ?_ List.nodup_range).mpr fun i => ?_
    · exact List.nodup_range.map_on fun i hi j hj h =>
        offset_injective first (List.mem_range.mp hi) (List.mem_range.mp hj) h
    · simp only [List.mem_map, List.mem_range]
      constructor
      · rintro ⟨j, -, rfl⟩
        exact Nat.mod_lt _ (by omega)
      · intro hi
        obtain ⟨j, hj, rfl⟩ := exists_offset hf hi
        exact ⟨j, hj, rfl⟩
  simpa [window, Function.comp_def] using hslots.map slot

theorem window_update_of_ne {slot : Nat → α} {first count i : Nat} (a : α)
    (h : ∀ j < count, (first + j) % capacity ≠ i) :
    window capacity (Function.update slot i a) first count = window capacity slot first count := by
  apply List.map_congr_left
  intro j hj
  rw [Function.update_of_ne (h j (List.mem_range.mp hj))]

/-- Filling the slot behind the window appends to it. -/
theorem window_fill {slot : Nat → α} {first count : Nat} (a : α) (h : count < capacity) :
    window capacity (Function.update slot ((first + count) % capacity) a) first (count + 1) =
      window capacity slot first count ++ [a] := by
  rw [window_succ, Function.update_self, window_update_of_ne]
  intro j hj he
  have := offset_injective first (by omega) h he
  omega

/-- Overwriting the oldest of all slots drops it and appends. -/
theorem window_overwrite {slot : Nat → α} {first : Nat} (a : α) (hf : first < capacity) :
    window capacity (Function.update slot first a) ((first + 1) % capacity) capacity =
      (window capacity slot first capacity).tail ++ [a] := by
  obtain ⟨n, rfl⟩ : ∃ n, capacity = n + 1 := ⟨capacity - 1, by omega⟩
  have hlast : ((first + 1) % (n + 1) + n) % (n + 1) = first := by
    rw [Nat.mod_add_mod, show first + 1 + n = first + (n + 1) by omega, Nat.add_mod_right,
      Nat.mod_eq_of_lt hf]
  have hother : ∀ j < n, ((first + 1) % (n + 1) + j) % (n + 1) ≠ first := by
    intro j hj he
    have := offset_injective ((first + 1) % (n + 1)) (by omega) (by omega)
      (he.trans hlast.symm)
    omega
  rw [window_succ, hlast, Function.update_self, window_update_of_ne a hother, window_succ_left]
  rfl

/-- The newest `k + 1` of a sequence that grew by one. -/
theorem rtake_concat_of_length_le {l : List α} {k : Nat} (a : α) (h : l.length ≤ k) :
    (l ++ [a]).rtake (k + 1) = l.rtake (k + 1) ++ [a] := by
  rw [List.rtake_concat_succ]
  simp [List.rtake, Nat.sub_eq_zero_of_le h, Nat.sub_eq_zero_of_le (Nat.le_succ_of_le h)]

theorem rtake_concat_of_lt_length {l : List α} {k : Nat} (a : α) (h : k < l.length) :
    (l ++ [a]).rtake (k + 1) = (l.rtake (k + 1)).tail ++ [a] := by
  rw [List.rtake_concat_succ]
  congr 1
  simp only [List.rtake, List.tail_drop]
  congr 1
  omega

theorem map_rtake {β : Type*} (f : α → β) (l : List α) (k : Nat) :
    (l.rtake k).map f = (l.map f).rtake k := by
  simp [List.rtake, List.map_drop]

/-- What was dropped before stays dropped. -/
theorem rtake_rtake_append (l l' : List α) (k : Nat) :
    (l.rtake k ++ l').rtake k = (l ++ l').rtake k := by
  unfold List.rtake
  rw [← List.drop_append_of_le_length (by omega), List.drop_drop]
  congr 1
  simp only [List.length_append, List.length_drop]
  omega

end CyclicSlots
