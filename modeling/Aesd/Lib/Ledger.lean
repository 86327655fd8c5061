import Mathlib.Data.Set.Insert

/-!
# A ledger of allocated things

Whatever is allocated is lost or belongs to one owner. An owner may own several
things, and things are equal or not, nothing else is asked of them.
-/
namespace Ledger

variable {α ι : Type*} {stock lost : Set α} {own : ι → α → Prop} {a : α} {i : ι}

/-- The stock is the disjoint union of what is lost and what each owner has. -/
structure Balanced (stock lost : Set α) (own : ι → α → Prop) : Prop where
  single : ∀ i j a, own i a → own j a → i = j
  kept : ∀ i a, own i a → a ∉ lost
  accounted : ∀ a, a ∈ stock ↔ a ∈ lost ∨ ∃ i, own i a

theorem Balanced.mem (h : Balanced stock lost own) (hown : own i a) : a ∈ stock :=
  (h.accounted a).mpr (Or.inr ⟨i, hown⟩)

/-- What is not in stock belongs to nobody. -/
theorem Balanced.not_own (h : Balanced stock lost own) (hnew : a ∉ stock) : ¬ own i a :=
  fun hown => hnew (h.mem hown)

/-- Something new is lost at once. -/
theorem Balanced.lose (h : Balanced stock lost own) (hnew : a ∉ stock) :
    Balanced (insert a stock) (insert a lost) own where
  single := h.single
  kept i b hown := by
    rintro (rfl | hlost)
    · exact h.not_own hnew hown
    · exact h.kept i b hown hlost
  accounted b := by rw [Set.mem_insert_iff, Set.mem_insert_iff, h.accounted b, or_assoc]

/-- Something new gets an owner. -/
theorem Balanced.gain (h : Balanced stock lost own) (hnew : a ∉ stock) (i : ι) :
    Balanced (insert a stock) lost (fun j b => own j b ∨ j = i ∧ b = a) where
  single := by
    rintro j k b (hj | ⟨rfl, rfl⟩) (hk | ⟨rfl, hb⟩)
    · exact h.single j k b hj hk
    · exact absurd (hb ▸ hj) (h.not_own hnew)
    · exact absurd hk (h.not_own hnew)
    · rfl
  kept := by
    rintro j b (hj | ⟨rfl, rfl⟩)
    · exact h.kept j b hj
    · exact fun hlost => hnew ((h.accounted b).mpr (Or.inl hlost))
  accounted b := by
    rw [Set.mem_insert_iff, h.accounted b]
    constructor
    · rintro (rfl | hlost | ⟨j, hj⟩)
      · exact Or.inr ⟨i, Or.inr ⟨rfl, rfl⟩⟩
      · exact Or.inl hlost
      · exact Or.inr ⟨j, Or.inl hj⟩
    · rintro (hlost | ⟨j, hj | ⟨rfl, rfl⟩⟩)
      · exact Or.inr (Or.inl hlost)
      · exact Or.inr (Or.inr ⟨j, hj⟩)
      · exact Or.inl rfl

/-- An owner gives back the only thing it has. -/
theorem Balanced.release (h : Balanced stock lost own) (hown : own i a)
    (honly : ∀ b, own i b → b = a) :
    Balanced (stock \ {a}) lost (fun j b => own j b ∧ j ≠ i) where
  single j k b hj hk := h.single j k b hj.1 hk.1
  kept j b hj := h.kept j b hj.1
  accounted b := by
    rw [Set.mem_sdiff, h.accounted b, Set.mem_singleton_iff]
    constructor
    · rintro ⟨hlost | ⟨j, hj⟩, hne⟩
      · exact Or.inl hlost
      · refine Or.inr ⟨j, hj, ?_⟩
        rintro rfl
        exact hne (honly b hj)
    · rintro (hlost | ⟨j, hj, hne⟩)
      · refine ⟨Or.inl hlost, ?_⟩
        rintro rfl
        exact h.kept i b hown hlost
      · refine ⟨Or.inr ⟨j, hj⟩, ?_⟩
        rintro rfl
        exact hne (h.single j i b hj hown)

end Ledger
