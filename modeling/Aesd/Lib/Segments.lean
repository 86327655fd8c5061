import Mathlib.Data.List.Basic
import Mathlib.Data.List.Infix

/-!
# Delimited segments of a stream

A stream is cut behind every delimiter. The complete segments and the
remainder behind the last delimiter determine each other uniquely, and that
uniqueness is the tool with which every way of gathering the stream is
compared.
-/
namespace Segments

variable {α : Type*}

/-- A segment ends with the only delimiter it holds. -/
def IsLine (d : α) (s : List α) : Prop := ∃ r, s = r ++ [d] ∧ d ∉ r

theorem IsLine.ne_nil {d : α} {s : List α} (h : IsLine d s) : s ≠ [] := by
  obtain ⟨r, rfl, -⟩ := h
  simp

theorem IsLine.mem {d : α} {s : List α} (h : IsLine d s) : d ∈ s := by
  obtain ⟨r, rfl, -⟩ := h
  simp

theorem isLine_concat {d : α} {r : List α} (h : d ∉ r) : IsLine d (r ++ [d]) := ⟨r, rfl, h⟩

/-- The end of a line is a line. -/
theorem IsLine.suffix {d : α} {s t : List α} (h : IsLine d s) (ht : t <:+ s) (hne : t ≠ []) :
    IsLine d t := by
  obtain ⟨r, rfl, hr⟩ := h
  obtain ⟨u, hu⟩ := ht
  obtain ⟨t', b, rfl⟩ := List.eq_nil_or_concat' t |>.resolve_left hne
  rw [← List.append_assoc] at hu
  obtain ⟨hr', hb⟩ := List.append_inj' hu rfl
  obtain rfl := List.singleton_inj.mp hb
  exact ⟨t', rfl, fun hmem => hr (hr' ▸ List.mem_append_right _ hmem)⟩

variable [DecidableEq α]

theorem IsLine.count {d : α} {s : List α} (h : IsLine d s) : s.count d = 1 := by
  obtain ⟨r, rfl, hr⟩ := h
  simp [List.count_eq_zero.mpr hr]

/-- One more element: the delimiter closes the segment being gathered. -/
def feed (d : α) (s : List (List α) × List α) (a : α) : List (List α) × List α :=
  if a = d then (s.1 ++ [s.2 ++ [a]], []) else (s.1, s.2 ++ [a])

def split (d : α) (l : List α) : List (List α) × List α := l.foldl (feed d) ([], [])

/-- The complete segments of the stream, each with its delimiter. -/
def segments (d : α) (l : List α) : List (List α) := (split d l).1

/-- What follows the last delimiter. -/
def remainder (d : α) (l : List α) : List α := (split d l).2

@[simp] theorem segments_nil (d : α) : segments d [] = [] := rfl
@[simp] theorem remainder_nil (d : α) : remainder d [] = [] := rfl

theorem split_concat (d : α) (l : List α) (a : α) : split d (l ++ [a]) = feed d (split d l) a := by
  simp [split]

@[simp] theorem segments_concat_self (d : α) (l : List α) :
    segments d (l ++ [d]) = segments d l ++ [remainder d l ++ [d]] := by
  simp [segments, remainder, split_concat, feed]

@[simp] theorem remainder_concat_self (d : α) (l : List α) : remainder d (l ++ [d]) = [] := by
  simp [remainder, split_concat, feed]

theorem segments_concat_ne {d a : α} (h : a ≠ d) (l : List α) :
    segments d (l ++ [a]) = segments d l := by
  simp [segments, split_concat, feed, h]

theorem remainder_concat_ne {d a : α} (h : a ≠ d) (l : List α) :
    remainder d (l ++ [a]) = remainder d l ++ [a] := by
  simp [remainder, split_concat, feed, h]

/-- Cutting loses nothing. -/
theorem flatten_segments_append_remainder (d : α) (l : List α) :
    (segments d l).flatten ++ remainder d l = l := by
  induction l using List.reverseRecOn with
  | nil => rfl
  | append_singleton l a ih =>
    by_cases h : a = d
    · subst h
      rw [segments_concat_self, remainder_concat_self]
      simp [← List.append_assoc, ih]
    · rw [segments_concat_ne h, remainder_concat_ne h, ← List.append_assoc, ih]

theorem not_mem_remainder (d : α) (l : List α) : d ∉ remainder d l := by
  induction l using List.reverseRecOn with
  | nil => simp
  | append_singleton l a ih =>
    by_cases h : a = d
    · subst h
      simp
    · rw [remainder_concat_ne h]
      simp [ih, Ne.symm h]

theorem isLine_of_mem_segments {d : α} {l s : List α} (h : s ∈ segments d l) : IsLine d s := by
  induction l using List.reverseRecOn with
  | nil => simp at h
  | append_singleton l a ih =>
    by_cases ha : a = d
    · subst ha
      rw [segments_concat_self, List.mem_append, List.mem_singleton] at h
      rcases h with h | rfl
      · exact ih h
      · exact isLine_concat (not_mem_remainder a l)
    · rw [segments_concat_ne ha] at h
      exact ih h

theorem split_append_of_not_mem {d : α} {r : List α} (h : d ∉ r) (l : List α) :
    segments d (l ++ r) = segments d l ∧ remainder d (l ++ r) = remainder d l ++ r := by
  induction r using List.reverseRecOn with
  | nil => simp
  | append_singleton r a ih =>
    simp only [List.mem_append, List.mem_singleton, not_or] at h
    obtain ⟨hs, hr⟩ := ih h.1
    rw [← List.append_assoc]
    exact ⟨(segments_concat_ne (Ne.symm h.2) _).trans hs, by
      rw [remainder_concat_ne (Ne.symm h.2), hr, List.append_assoc]⟩

/-- The parts are determined by the stream: any lines followed by delimiter-free
rest are its segments and its remainder. -/
theorem split_unique {d : α} {ss : List (List α)} {r : List α} (hs : ∀ s ∈ ss, IsLine d s)
    (hr : d ∉ r) : segments d (ss.flatten ++ r) = ss ∧ remainder d (ss.flatten ++ r) = r := by
  have hlines : segments d ss.flatten = ss ∧ remainder d ss.flatten = [] := by
    induction ss using List.reverseRecOn with
    | nil => exact ⟨rfl, rfl⟩
    | append_singleton ss s ih =>
      obtain ⟨hss, hrem⟩ := ih (fun t ht => hs t (List.mem_append_left _ ht))
      obtain ⟨q, rfl, hq⟩ := hs s (by simp)
      obtain ⟨hsq, hrq⟩ := split_append_of_not_mem hq ss.flatten
      rw [List.flatten_concat, ← List.append_assoc]
      rw [segments_concat_self, remainder_concat_self, hsq, hrq, hss, hrem]
      simp
  obtain ⟨hseg, hrem⟩ := split_append_of_not_mem hr ss.flatten
  rw [hseg, hrem, hlines.1, hlines.2]
  exact ⟨rfl, rfl⟩

theorem segments_eq_of_flatten {d : α} {ss : List (List α)} {r l : List α}
    (hs : ∀ s ∈ ss, IsLine d s) (hr : d ∉ r) (h : l = ss.flatten ++ r) :
    segments d l = ss ∧ remainder d l = r := by
  subst h
  exact split_unique hs hr

theorem segments_of_not_mem {d : α} {l : List α} (h : d ∉ l) :
    segments d l = [] ∧ remainder d l = l :=
  segments_eq_of_flatten (by simp) h (by simp)

/-- A stream may be cut in instalments: only the remainder is carried over. -/
theorem split_append (d : α) (l l' : List α) :
    segments d (l ++ l') = segments d l ++ segments d (remainder d l ++ l') ∧
      remainder d (l ++ l') = remainder d (remainder d l ++ l') := by
  apply segments_eq_of_flatten
  · intro s hs
    rcases List.mem_append.mp hs with hs | hs <;> exact isLine_of_mem_segments hs
  · exact not_mem_remainder d _
  · rw [List.flatten_append, List.append_assoc, flatten_segments_append_remainder,
      ← List.append_assoc, flatten_segments_append_remainder]

theorem segments_prefix (d : α) (l l' : List α) : segments d l <+: segments d (l ++ l') :=
  ⟨_, (split_append d l l').1.symm⟩

/-- There are as many segments as delimiters. -/
theorem length_segments (d : α) (l : List α) : (segments d l).length = l.count d := by
  induction l using List.reverseRecOn with
  | nil => rfl
  | append_singleton l a ih =>
    by_cases h : a = d
    · subst h
      simp [ih]
    · simp [segments_concat_ne h, ih, h]

/-- The position of the first delimiter cuts off the first segment. -/
theorem isLine_take_of_findIdx {d : α} {l : List α} {i : Nat}
    (h : l.findIdx? (· = d) = some i) : IsLine d (l.take (i + 1)) := by
  induction l generalizing i with
  | nil => simp at h
  | cons a l ih =>
    rw [List.findIdx?_cons] at h
    by_cases ha : a = d
    · subst ha
      simp only [decide_true, if_true, Option.some.injEq] at h
      subst h
      exact ⟨[], by simp, by simp⟩
    · simp only [ha, decide_false, Bool.false_eq_true, if_false, Option.map_eq_some_iff] at h
      obtain ⟨j, hj, rfl⟩ := h
      obtain ⟨r, hr, hd⟩ := ih hj
      exact ⟨a :: r, by simp [hr], by simp [hd, Ne.symm ha]⟩

end Segments
