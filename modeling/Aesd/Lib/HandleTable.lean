import Mathlib.Algebra.BigOperators.Group.List.Basic
import Mathlib.Algebra.Order.Group.Multiset
import Mathlib.Data.Multiset.UnionInter

/-!
# A table of open handles

A handle enters the table when it is opened and leaves it when it is closed.
The table is a multiset, so that its balance needs no assumption on the
handles; where every opened handle is a new one, the table is a set.
-/
namespace HandleTable

/-- What a step does with the table. -/
inductive Use (α : Type*) where
  | opened (h : α)
  | closed (h : α)
  | other
  deriving DecidableEq

variable {α : Type*}

/-- Only what is open is closed. -/
def Closable (t : Multiset α) : Use α → Prop
  | .closed h => h ∈ t
  | _ => True

/-- Only what is not open is opened. -/
def Openable (t : Multiset α) : Use α → Prop
  | .opened h => h ∉ t
  | _ => True

theorem Closable.add {own : Multiset α} {use : Use α} (h : Closable own use) (t : Multiset α) :
    Closable (t + own) use := by
  cases use with
  | closed a => exact Multiset.mem_add.mpr (Or.inr h)
  | opened | other => trivial

/-- The sum over a list in which one summand changes. -/
theorem sum_set {β : Type*} {l : List β} {i : Nat} {b : β} (f : β → Multiset α) (h : l[i]? = some b)
    (b' : β) :
    ∃ rest, (l.map f).sum = rest + f b ∧ ((l.set i b').map f).sum = rest + f b' := by
  induction l generalizing i with
  | nil => simp at h
  | cons a l ih =>
    cases i with
    | zero =>
      obtain rfl : a = b := by simpa using h
      exact ⟨(l.map f).sum, by simp [add_comm], by simp [add_comm]⟩
    | succ i =>
      obtain ⟨rest, hsum, hset⟩ := ih (by simpa using h)
      refine ⟨f a + rest, ?_, ?_⟩
      · rw [List.map_cons, List.sum_cons, hsum, add_assoc]
      · rw [List.set_cons_succ, List.map_cons, List.sum_cons, hset, add_assoc]

variable [DecidableEq α]

def track (t : Multiset α) : Use α → Multiset α
  | .opened h => h ::ₘ t
  | .closed h => t.erase h
  | .other => t

def table (t : Multiset α) (uses : List (Use α)) : Multiset α := uses.foldl track t

instance (t : Multiset α) : DecidablePred (Openable t) := fun use =>
  match use with
  | .opened h => inferInstanceAs (Decidable (h ∉ t))
  | .closed _ => inferInstanceAs (Decidable True)
  | .other => inferInstanceAs (Decidable True)

/-- Every handle is new when it is opened. -/
def Fresh : Multiset α → List (Use α) → Prop
  | _, [] => True
  | t, use :: uses => Openable t use ∧ Fresh (track t use) uses

instance decidableFresh : (t : Multiset α) → (uses : List (Use α)) → Decidable (Fresh t uses)
  | _, [] => inferInstanceAs (Decidable True)
  | t, use :: uses =>
    have := decidableFresh (track t use) uses
    inferInstanceAs (Decidable (Openable t use ∧ Fresh (track t use) uses))

@[simp] theorem table_nil (t : Multiset α) : table t [] = t := rfl

@[simp] theorem table_concat (t : Multiset α) (uses : List (Use α)) (use : Use α) :
    table t (uses ++ [use]) = track (table t uses) use := by simp [table]

theorem fresh_append {t : Multiset α} {uses uses' : List (Use α)} (h : Fresh t (uses ++ uses')) :
    Fresh t uses := by
  induction uses generalizing t with
  | nil => trivial
  | cons use uses ih => exact ⟨h.1, ih h.2⟩

theorem track_nodup {t : Multiset α} {use : Use α} (h : t.Nodup) (hopen : Openable t use) :
    (track t use).Nodup := by
  cases use with
  | opened a => exact Multiset.nodup_cons.mpr ⟨hopen, h⟩
  | closed a => exact h.erase a
  | other => exact h

theorem table_nodup {t : Multiset α} {uses : List (Use α)} (h : t.Nodup) (hfresh : Fresh t uses) :
    (table t uses).Nodup := by
  induction uses generalizing t with
  | nil => exact h
  | cons use uses ih => exact ih (track_nodup h hfresh.1) hfresh.2

/-- One owner's step on the table of all owners. -/
theorem track_add {t own : Multiset α} {use : Use α} (h : Closable own use) :
    track (t + own) use = t + track own use := by
  cases use with
  | opened a => exact (Multiset.add_cons a t own).symm
  | closed a => exact Multiset.erase_add_right_pos t h
  | other => rfl

end HandleTable
