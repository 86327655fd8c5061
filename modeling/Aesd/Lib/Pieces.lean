import Mathlib.Algebra.BigOperators.Group.List.Basic
import Mathlib.Algebra.Ring.Nat

/-!
# Positions in concatenated pieces

A position in a list of pieces laid end to end belongs to one piece, at one
offset inside it, or lies behind all of them. Pieces may be empty.
-/
namespace Pieces

variable {α : Type*}

/-- The piece a position falls into, and its offset there. -/
def locate : List Nat → Nat → Option (Nat × Nat)
  | [], _ => none
  | size :: sizes, n =>
    if n < size then some (0, n) else (locate sizes (n - size)).map fun (k, off) => (k + 1, off)

/-- Exactly the positions inside the pieces have a place. -/
theorem locate_eq_none {sizes : List Nat} {n : Nat} : locate sizes n = none ↔ sizes.sum ≤ n := by
  induction sizes generalizing n with
  | nil => simp [locate]
  | cons size sizes ih =>
    by_cases h : n < size
    · simp [locate, h]
      omega
    · simp only [locate, if_neg h, Option.map_eq_none_iff, ih, List.sum_cons]
      omega

/-- The place is the piece whose predecessors leave less than its own size. -/
theorem locate_eq_some {sizes : List Nat} {n k off : Nat} :
    locate sizes n = some (k, off) ↔
      ∃ size, sizes[k]? = some size ∧ off < size ∧ (sizes.take k).sum + off = n := by
  induction sizes generalizing n k with
  | nil => simp [locate]
  | cons size sizes ih =>
    by_cases h : n < size
    · simp only [locate, if_pos h, Option.some.injEq, Prod.mk.injEq]
      constructor
      · rintro ⟨rfl, rfl⟩
        exact ⟨size, rfl, h, by simp⟩
      · rintro ⟨z, hz, hoff, hsum⟩
        cases k with
        | zero => simpa using hsum.symm
        | succ k =>
          simp only [List.take_succ_cons, List.sum_cons] at hsum
          omega
    · simp only [locate, if_neg h, Option.map_eq_some_iff, Prod.exists, Prod.mk.injEq]
      cases k with
      | zero =>
        simp only [Nat.succ_ne_zero, false_and, and_false, exists_false, false_iff]
        rintro ⟨z, hz, hoff, hsum⟩
        simp only [List.getElem?_cons_zero, Option.some.injEq] at hz
        simp only [List.take_zero, List.sum_nil] at hsum
        omega
      | succ k =>
        constructor
        · rintro ⟨k', off', hloc, hk, rfl⟩
          obtain rfl : k' = k := by omega
          obtain ⟨z, hz, hoff, hsum⟩ := ih.mp hloc
          refine ⟨z, by simpa using hz, hoff, ?_⟩
          simp only [List.take_succ_cons, List.sum_cons]
          omega
        · rintro ⟨z, hz, hoff, hsum⟩
          simp only [List.take_succ_cons, List.sum_cons] at hsum
          exact ⟨k, off, ih.mpr ⟨z, by simpa using hz, hoff, by omega⟩, rfl, rfl⟩

/-- What lies from the position on begins with the rest of its piece. -/
theorem drop_flatten_of_locate {l : List (List α)} {n k off : Nat}
    (h : locate (l.map List.length) n = some (k, off)) :
    ∃ piece, l[k]? = some piece ∧ off < piece.length ∧
      l.flatten.drop n = piece.drop off ++ (l.drop (k + 1)).flatten := by
  induction l generalizing n k with
  | nil => simp [locate] at h
  | cons piece l ih =>
    by_cases hn : n < piece.length
    · simp only [List.map_cons, locate, if_pos hn, Option.some.injEq, Prod.mk.injEq] at h
      obtain ⟨rfl, rfl⟩ := h
      exact ⟨piece, rfl, hn, by simp [List.drop_append_of_le_length (Nat.le_of_lt hn)]⟩
    · simp only [List.map_cons, locate, if_neg hn, Option.map_eq_some_iff, Prod.exists,
        Prod.mk.injEq] at h
      obtain ⟨k, off, hloc, rfl, rfl⟩ := h
      obtain ⟨piece', hk, hoff, hdrop⟩ := ih hloc
      refine ⟨piece', by simpa using hk, hoff, ?_⟩
      rw [List.flatten_cons, List.drop_append, List.drop_of_length_le (by omega), List.nil_append,
        hdrop]
      rfl

/-- Pieces below a bound, laid end to end. -/
theorem length_flatten_le {l : List (List α)} {n : Nat} (h : ∀ q ∈ l, q.length < n) :
    l.flatten.length ≤ l.length * n := by
  induction l with
  | nil => simp
  | cons q l ih =>
    have hq := h q (by simp)
    have hl := ih fun q' hq' => h q' (List.mem_cons_of_mem _ hq')
    rw [List.flatten_cons, List.length_append, List.length_cons, Nat.succ_mul]
    omega

end Pieces
