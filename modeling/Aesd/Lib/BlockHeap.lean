import Mathlib.Data.List.Basic
import Mathlib.Logic.Function.Basic

/-!
# A heap of named blocks

Blocks have names that are never used twice, so that a dangling pointer can
never meet a younger block. Every element remembers whether the program wrote
it or whether it is left over from before the allocation. Accesses outside a
live block, uses of elements nobody wrote, and releases of blocks that are not
live are recorded as faults, and the heap then stays as it is.
-/
namespace BlockHeap

variable {α : Type*}

structure Cell (α : Type*) where
  val : α
  written : Bool
  deriving DecidableEq, Repr

/-- The null pointer, the token an allocator answers to an empty request, or
the start of a block. -/
inductive Ptr where
  | null
  | emptyToken
  | block (b : Nat)
  deriving DecidableEq, Repr

inductive Fault where
  | invalidFree
  | outOfBounds
  | uninitialised
  deriving DecidableEq, Repr

/-- The live blocks and the faults so far. Names from `next` on are unused. -/
@[ext] structure Heap (α : Type*) where
  block : Nat → Option (List (Cell α))
  next : Nat
  faults : List Fault
  fresh : ∀ b, next ≤ b → block b = none

/-- The elements of a block, as whoever fills it writes them. -/
def writtenCells (l : List α) : List (Cell α) := l.map fun a => ⟨a, true⟩

/-- `n` elements nobody wrote; `junk` says what happens to be there. -/
def junkCells (junk : Nat → α) (start n : Nat) : List (Cell α) :=
  (List.range n).map fun i => ⟨junk (start + i), false⟩

@[simp] theorem length_writtenCells (l : List α) : (writtenCells l).length = l.length := by
  simp [writtenCells]

@[simp] theorem length_junkCells (junk : Nat → α) (start n : Nat) :
    (junkCells junk start n).length = n := by simp [junkCells]

@[simp] theorem map_val_writtenCells (l : List α) : (writtenCells l).map Cell.val = l := by
  induction l with
  | nil => rfl
  | cons a l ih => exact congrArg (a :: ·) ih

@[simp] theorem writtenCells_nil : writtenCells ([] : List α) = [] := rfl

@[simp] theorem writtenCells_append (l l' : List α) :
    writtenCells (l ++ l') = writtenCells l ++ writtenCells l' := by simp [writtenCells]

theorem flatten_writtenCells (ls : List (List α)) :
    (ls.map writtenCells).flatten = writtenCells ls.flatten := by
  induction ls with
  | nil => rfl
  | cons l ls ih => simp [ih]

theorem take_writtenCells (l : List α) (n : Nat) :
    (writtenCells l).take n = writtenCells (l.take n) := by simp [writtenCells]

theorem drop_writtenCells (l : List α) (n : Nat) :
    (writtenCells l).drop n = writtenCells (l.drop n) := by simp [writtenCells]

theorem written_of_mem_writtenCells {l : List α} {c : Cell α} (h : c ∈ writtenCells l) :
    c.written = true := by
  simp only [writtenCells, List.mem_map] at h
  obtain ⟨a, -, rfl⟩ := h
  rfl

/-- The fault of using these elements, if one of them was never written. -/
def useFaults (cs : List (Cell α)) : List Fault :=
  if cs.all Cell.written then [] else [.uninitialised]

theorem useFaults_eq_nil {cs : List (Cell α)} : useFaults cs = [] ↔ ∀ c ∈ cs, c.written = true := by
  simp [useFaults]

@[simp] theorem useFaults_writtenCells (l : List α) : useFaults (writtenCells l) = [] :=
  useFaults_eq_nil.mpr fun _ h => written_of_mem_writtenCells h

theorem mem_useFaults {cs : List (Cell α)} {f : Fault} (h : f ∈ useFaults cs) :
    f = .uninitialised := by
  unfold useFaults at h
  split at h
  · cases h
  · simpa using h

namespace Heap

/-- Nothing is live yet. -/
def empty : Heap α := ⟨fun _ => none, 0, [], fun _ _ => rfl⟩

theorem lt_next {h : Heap α} {b : Nat} {cs : List (Cell α)} (hb : h.block b = some cs) :
    b < h.next := by
  apply Nat.lt_of_not_le
  intro hle
  rw [h.fresh b hle] at hb
  cases hb

def report (h : Heap α) (fs : List Fault) : Heap α := { h with faults := fs ++ h.faults }

@[simp] theorem block_report (h : Heap α) (fs : List Fault) : (h.report fs).block = h.block := rfl
@[simp] theorem next_report (h : Heap α) (fs : List Fault) : (h.report fs).next = h.next := rfl
@[simp] theorem faults_report (h : Heap α) (fs : List Fault) :
    (h.report fs).faults = fs ++ h.faults := rfl
@[simp] theorem report_nil (h : Heap α) : h.report [] = h := rfl

/-- A new block named `h.next`. -/
def alloc (h : Heap α) (cs : List (Cell α)) : Heap α where
  block := Function.update h.block h.next (some cs)
  next := h.next + 1
  faults := h.faults
  fresh := fun b hb => by
    rw [Function.update_of_ne (by omega)]
    exact h.fresh b (by omega)

@[simp] theorem block_alloc (h : Heap α) (cs : List (Cell α)) :
    (h.alloc cs).block = Function.update h.block h.next (some cs) := rfl
@[simp] theorem next_alloc (h : Heap α) (cs : List (Cell α)) :
    (h.alloc cs).next = h.next + 1 := rfl
@[simp] theorem faults_alloc (h : Heap α) (cs : List (Cell α)) :
    (h.alloc cs).faults = h.faults := rfl

/-- Releasing NULL or the empty token does nothing. -/
def free (h : Heap α) (p : Ptr) : Heap α :=
  match p with
  | .block b =>
    match h.block b with
    | some _ =>
      { h with
        block := Function.update h.block b none
        fresh := fun b' hb' => by
          by_cases hbb : b' = b
          · rw [hbb, Function.update_self]
          · rw [Function.update_of_ne hbb]
            exact h.fresh b' hb' }
    | none => h.report [.invalidFree]
  | _ => h

@[simp] theorem free_null (h : Heap α) : h.free .null = h := rfl
@[simp] theorem free_emptyToken (h : Heap α) : h.free .emptyToken = h := rfl

theorem block_free {h : Heap α} {b : Nat} {cs : List (Cell α)} (hb : h.block b = some cs) :
    (h.free (.block b)).block = Function.update h.block b none := by
  simp [free, hb]

theorem faults_free {h : Heap α} {b : Nat} {cs : List (Cell α)} (hb : h.block b = some cs) :
    (h.free (.block b)).faults = h.faults := by
  simp [free, hb]

/-- A pointer that may be released: NULL, the token, or a live block. -/
def Releasable (h : Heap α) (p : Ptr) : Prop := ∀ b, p = .block b → ∃ cs, h.block b = some cs

/-- The blocks that stay when `p` is released. -/
def release (block : Nat → Option (List (Cell α))) : Ptr → Nat → Option (List (Cell α))
  | .block b => Function.update block b none
  | _ => block

@[simp] theorem release_null (block : Nat → Option (List (Cell α))) : release block .null = block :=
  rfl
@[simp] theorem release_emptyToken (block : Nat → Option (List (Cell α))) :
    release block .emptyToken = block := rfl
@[simp] theorem release_block (block : Nat → Option (List (Cell α))) (b : Nat) :
    release block (.block b) = Function.update block b none := rfl

theorem free_of_releasable {h : Heap α} {p : Ptr} (hp : h.Releasable p) :
    (h.free p).block = release h.block p ∧ (h.free p).faults = h.faults := by
  cases p with
  | null | emptyToken => exact ⟨rfl, rfl⟩
  | block b =>
    obtain ⟨cs, hb⟩ := hp b rfl
    exact ⟨block_free hb, faults_free hb⟩

theorem release_update_comm {h : Heap α} {p : Ptr} (hp : h.Releasable p) {b : Nat}
    (hb : h.next ≤ b) (f : Nat → Option (List (Cell α))) (c : Option (List (Cell α))) :
    release (Function.update f b c) p = Function.update (release f p) b c := by
  cases p with
  | null | emptyToken => rfl
  | block b' =>
    obtain ⟨cs, hcs⟩ := hp b' rfl
    have := lt_next hcs
    exact Function.update_comm (by omega) _ _ _

theorem release_of_ne {p : Ptr} {b : Nat} (hb : p ≠ .block b)
    (f : Nat → Option (List (Cell α))) : release f p b = f b := by
  cases p with
  | null | emptyToken => rfl
  | block b' =>
    apply Function.update_of_ne
    rintro rfl
    exact hb rfl

theorem release_fresh {h : Heap α} {p : Ptr} (hp : h.Releasable p) {b : Nat} (hb : h.next ≤ b) :
    release h.block p b = none := by
  rw [release_of_ne, h.fresh b hb]
  rintro rfl
  obtain ⟨cs, hcs⟩ := hp b rfl
  have := lt_next hcs
  omega

@[simp] theorem next_free (h : Heap α) (p : Ptr) : (h.free p).next = h.next := by
  cases p with
  | null | emptyToken => rfl
  | block b =>
    simp only [free]
    split <;> rfl

/-- The elements of the block behind a pointer, none where there is no block. -/
def cells (h : Heap α) (p : Ptr) : List (Cell α) :=
  match p with
  | .block b => (h.block b).getD []
  | _ => []

@[simp] theorem cells_null (h : Heap α) : h.cells .null = [] := rfl
@[simp] theorem cells_emptyToken (h : Heap α) : h.cells .emptyToken = [] := rfl

theorem cells_block {h : Heap α} {b : Nat} {cs : List (Cell α)} (hb : h.block b = some cs) :
    h.cells (.block b) = cs := by
  simp [cells, hb]

/-- Read `n` elements from offset `off` on. -/
def load (h : Heap α) (p : Ptr) (off n : Nat) : List (Cell α) := ((h.cells p).drop off).take n

/-- The fault of an access that leaves the block. -/
def boundsFaults (h : Heap α) (p : Ptr) (off n : Nat) : List Fault :=
  if off + n ≤ (h.cells p).length ∨ n = 0 then [] else [.outOfBounds]

/-- Write elements from offset `off` on. -/
def store (h : Heap α) (p : Ptr) (off : Nat) (cs : List (Cell α)) : Heap α :=
  match p with
  | .block b =>
    match hb : h.block b with
    | some old =>
      if off + cs.length ≤ old.length then
        { h with
          block := Function.update h.block b (some (old.take off ++ cs ++ old.drop (off + cs.length)))
          fresh := fun b' hb' => by
            have hlt := lt_next hb
            rw [Function.update_of_ne (by omega)]
            exact h.fresh b' hb' }
      else h.report [.outOfBounds]
    | none => h.report [.outOfBounds]
  | _ => if cs = [] then h else h.report [.outOfBounds]

theorem store_block {h : Heap α} {b : Nat} (off : Nat) {cs old : List (Cell α)}
    (hb : h.block b = some old) (hl : off + cs.length ≤ old.length) :
    (h.store (.block b) off cs).block =
        Function.update h.block b (some (old.take off ++ cs ++ old.drop (off + cs.length))) ∧
      (h.store (.block b) off cs).next = h.next ∧ (h.store (.block b) off cs).faults = h.faults := by
  unfold store
  split
  · rename_i b' he
    cases he
    split
    · rename_i old' hb'
      rw [hb] at hb'
      cases hb'
      rw [if_pos hl]
      exact ⟨rfl, rfl, rfl⟩
    · rename_i hb'
      rw [hb] at hb'
      cases hb'
  · rename_i hne
    exact absurd rfl (hne b)

@[simp] theorem store_nil_emptyToken (h : Heap α) (off : Nat) : h.store .emptyToken off [] = h := rfl

end Heap

end BlockHeap
