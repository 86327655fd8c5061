import Mathlib.Data.List.Count

/-!
# Threads and one lock

A lock that can be taken only while it is free and that anyone may release.
Threads that acquire it before they go inside and release it on their way out
keep each other out, and every release answers one acquisition.
-/
namespace Exclusion

variable {ι : Type*}

/-- What a step does with the lock. -/
inductive Use where
  | acquire
  | release
  | other
  deriving DecidableEq, Repr

/-- The holder behind a step of thread `i`; `none` when the thread has to wait. -/
def after (holder : Option ι) (i : ι) : Use → Option (Option ι)
  | .acquire => if holder.isNone then some (some i) else none
  | .release => some none
  | .other => some holder

/-- Whoever is inside holds the lock. -/
def Guarded (holder : Option ι) (inside : ι → Prop) : Prop := ∀ i, inside i → holder = some i

/-- A step goes inside only by acquiring the lock, and releases it only on the way out. -/
def Bracketed (use : Use) (before behind : Prop) : Prop :=
  match use with
  | .acquire => True
  | .release => before ∧ ¬ behind
  | .other => behind → before

theorem after_acquire {holder next : Option ι} {i : ι} (h : after holder i .acquire = some next) :
    holder = none ∧ next = some i := by
  unfold after at h
  split_ifs at h with hnone
  cases h
  exact ⟨Option.isNone_iff_eq_none.mp hnone, rfl⟩

/-- Nobody meets anybody inside. -/
theorem Guarded.alone {holder : Option ι} {inside : ι → Prop} (h : Guarded holder inside) {i j : ι}
    (hi : inside i) (hj : inside j) : i = j :=
  Option.some.inj ((h i hi).symm.trans (h j hj))

/-- One step of thread `i`, which moves no other thread inside. -/
theorem Guarded.step {holder next : Option ι} {inside inside' : ι → Prop} {i : ι} {use : Use}
    (h : Guarded holder inside) (hnext : after holder i use = some next)
    (hothers : ∀ j, j ≠ i → inside' j → inside j) (hself : Bracketed use (inside i) (inside' i)) :
    Guarded next inside' := by
  intro j hj
  cases use with
  | acquire =>
    obtain ⟨hfree, rfl⟩ := after_acquire hnext
    by_cases hij : j = i
    · rw [hij]
    · simpa [hfree] using h j (hothers j hij hj)
  | release =>
    by_cases hij : j = i
    · exact absurd (hij ▸ hj) hself.2
    · exact absurd (h.alone (hothers j hij hj) hself.1) hij
  | other =>
    cases hnext
    by_cases hij : j = i
    · subst hij
      exact h j (hself hj)
    · exact h j (hothers j hij hj)

/-- Whoever has taken the lock last is still at it: nobody leaves the lock behind. -/
def Attended (holder : Option ι) (busy : ι → Prop) : Prop := ∀ i, holder = some i → busy i

/-- A step of thread `i` that leaves the lock only by releasing it. -/
theorem Attended.step {holder next : Option ι} {busy busy' : ι → Prop} {i : ι} {use : Use}
    (h : Attended holder busy) (hnext : after holder i use = some next)
    (hothers : ∀ j, j ≠ i → busy j → busy' j)
    (hself : (use = .acquire → busy' i) ∧ (use = .other → busy i → busy' i)) : Attended next busy' := by
  intro j hj
  cases use with
  | acquire =>
    obtain ⟨-, rfl⟩ := after_acquire hnext
    cases hj
    exact hself.1 rfl
  | release =>
    cases hnext
    cases hj
  | other =>
    cases hnext
    by_cases hij : j = i
    · subst hij
      exact hself.2 rfl (h j hj)
    · exact hothers j hij (h j hj)

variable [DecidableEq ι]

/-- Every thread has released the lock as often as it has acquired it, but for the holder. -/
def Balanced (uses : List (ι × Use)) (holder : Option ι) : Prop :=
  ∀ i, uses.count (i, .acquire) = uses.count (i, .release) + if holder = some i then 1 else 0

theorem balanced_nil : Balanced ([] : List (ι × Use)) none := by simp [Balanced]

theorem Balanced.step {uses : List (ι × Use)} {holder next : Option ι} {i : ι} {use : Use}
    (h : Balanced uses holder) (hnext : after holder i use = some next)
    (hrelease : use = .release → holder = some i) : Balanced (uses ++ [(i, use)]) next := by
  intro j
  have hj := h j
  cases use with
  | acquire =>
    obtain ⟨rfl, rfl⟩ := after_acquire hnext
    by_cases hij : i = j <;> simp_all
  | release =>
    have hi := hrelease rfl
    cases hnext
    by_cases hij : i = j <;> simp_all
  | other =>
    cases hnext
    simpa using hj

end Exclusion
