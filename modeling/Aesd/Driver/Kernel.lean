import Aesd.Lib.BlockHeap
import Mathlib.Data.List.Infix

/-!
# The kernel services the driver calls

Allocation, release and copying of kernel memory on a heap of named blocks.
The allocator may refuse every request for at least one byte; a request for no
bytes is always answered with `ZERO_SIZE_PTR`, the empty token. A `krealloc`
that succeeds ends the old block and starts a new one, wherever it lies.
-/
namespace Aesd.Kernel

open BlockHeap BlockHeap.Heap

abbrev Memory := Heap UInt8

/-- The allocator's answer to one request, and what the memory held before. -/
structure Alloc where
  granted : Bool
  junk : Nat → UInt8

def kmalloc (a : Alloc) (n : Nat) (h : Memory) : Ptr × Memory :=
  if n = 0 then (.emptyToken, h)
  else if a.granted then (.block h.next, h.alloc (junkCells a.junk 0 n))
  else (.null, h)

def kfree (p : Ptr) (h : Memory) : Memory := h.free p

/-- A block's contents after a change of its size. -/
def resized (a : Alloc) (old : List (Cell UInt8)) (n : Nat) : List (Cell UInt8) :=
  old.take n ++ junkCells a.junk old.length (n - old.length)

/-- A refused request leaves the old block live; a request for size 0 frees it. -/
def krealloc (a : Alloc) (p : Ptr) (n : Nat) (h : Memory) : Ptr × Memory :=
  if n = 0 then (.emptyToken, h.free p)
  else if a.granted then (.block h.next, (h.alloc (resized a (h.cells p) n)).free p)
  else (.null, h)

/-- Whether the copy failed, which it cannot for no bytes, and the memory after it. A copy
that fails may have filled part of the block; its caller throws the block away. -/
def copyFromUser (fails : Bool) (p : Ptr) (buf : List UInt8) (h : Memory) : Bool × Memory :=
  if fails = true ∧ buf ≠ [] then (true, h) else (false, h.store p 0 (writtenCells buf))

/-- The source is read before the destination is written, so the ranges may overlap. -/
def memmove (dst : Ptr) (dstOff : Nat) (src : Ptr) (srcOff n : Nat) (h : Memory) : Memory :=
  let cs := h.load src srcOff n
  (h.report (h.boundsFaults src srcOff n ++ useFaults cs)).store dst dstOff cs

/-- For ranges that do not overlap, the same copy. -/
def memcpy (dst : Ptr) (dstOff : Nat) (src : Ptr) (srcOff n : Nat) (h : Memory) : Memory :=
  memmove dst dstOff src srcOff n h

/-- The offset of the first `c` among the first `n` bytes. -/
def memchr (p : Ptr) (c : UInt8) (n : Nat) (h : Memory) : Option Nat × Memory :=
  let cs := h.load p 0 n
  ((cs.map Cell.val).findIdx? (· = c), h.report (h.boundsFaults p 0 n ++ useFaults cs))

@[simp] theorem length_resized (a : Alloc) (old : List (Cell UInt8)) (n : Nat) :
    (resized a old n).length = n := by
  simp only [resized, List.length_append, List.length_take, length_junkCells]
  omega

theorem resized_of_length_le (a : Alloc) {old : List (Cell UInt8)} {n : Nat} (h : n ≤ old.length) :
    resized a old n = old.take n := by
  simp [resized, Nat.sub_eq_zero_of_le h, junkCells]

theorem take_resized (a : Alloc) {old : List (Cell UInt8)} {n : Nat} (h : old.length ≤ n) :
    (resized a old n).take old.length = old := by
  simp [resized, List.take_of_length_le h]

theorem kmalloc_refused {a : Alloc} {n : Nat} (hn : n ≠ 0) (ha : a.granted = false) (h : Memory) :
    kmalloc a n h = (.null, h) := by simp [kmalloc, hn, ha]

theorem kmalloc_granted {a : Alloc} {n : Nat} (hn : n ≠ 0) (ha : a.granted = true) (h : Memory) :
    kmalloc a n h = (.block h.next, h.alloc (junkCells a.junk 0 n)) := by simp [kmalloc, hn, ha]

theorem krealloc_refused {a : Alloc} {n : Nat} (hn : n ≠ 0) (ha : a.granted = false) (p : Ptr)
    (h : Memory) : krealloc a p n h = (.null, h) := by simp [krealloc, hn, ha]

theorem krealloc_zero (a : Alloc) (p : Ptr) (h : Memory) :
    krealloc a p 0 h = (.emptyToken, h.free p) := by simp [krealloc]

/-- A granted `krealloc` swaps the block behind `p` for a new one with its contents. -/
theorem krealloc_granted {a : Alloc} {n : Nat} (hn : n ≠ 0) (ha : a.granted = true) {p : Ptr}
    {h : Memory} (hp : h.Releasable p) :
    (krealloc a p n h).1 = .block h.next ∧
      (krealloc a p n h).2.block =
        Function.update (release h.block p) h.next (some (resized a (h.cells p) n)) ∧
      (krealloc a p n h).2.next = h.next + 1 ∧ (krealloc a p n h).2.faults = h.faults := by
  have hp' : (h.alloc (resized a (h.cells p) n)).Releasable p := by
    intro b hb
    obtain ⟨cs, hcs⟩ := hp b hb
    have := lt_next hcs
    exact ⟨cs, by rw [block_alloc, Function.update_of_ne (by omega), hcs]⟩
  obtain ⟨hblock, hfaults⟩ := free_of_releasable hp'
  simp only [krealloc, hn, ha, if_false, if_true]
  refine ⟨trivial, ?_, by simp, by rw [hfaults, faults_alloc]⟩
  rw [hblock, block_alloc, release_update_comm hp (Nat.le_refl _)]

/-- A copy between live blocks inside their bounds. -/
theorem memmove_blocks (dstOff srcOff n : Nat) {h : Memory} {d s : Nat} {ds ss : List (Cell UInt8)}
    (hd : h.block d = some ds) (hs : h.block s = some ss) (hsn : srcOff + n ≤ ss.length)
    (hdn : dstOff + n ≤ ds.length) :
    (memmove (.block d) dstOff (.block s) srcOff n h).block =
        Function.update h.block d
          (some (ds.take dstOff ++ (ss.drop srcOff).take n ++ ds.drop (dstOff + n))) ∧
      (memmove (.block d) dstOff (.block s) srcOff n h).next = h.next ∧
      (memmove (.block d) dstOff (.block s) srcOff n h).faults =
        useFaults ((ss.drop srcOff).take n) ++ h.faults := by
  have hlen : ((ss.drop srcOff).take n).length = n := by
    rw [List.length_take, List.length_drop]
    omega
  have hload : h.load (.block s) srcOff n = (ss.drop srcOff).take n := by
    rw [load, cells_block hs]
  have hbounds : h.boundsFaults (.block s) srcOff n = [] := by
    rw [boundsFaults, cells_block hs, if_pos (Or.inl hsn)]
  have hd' : (h.report (useFaults ((ss.drop srcOff).take n))).block d = some ds := hd
  have hfit : dstOff + ((ss.drop srcOff).take n).length ≤ ds.length := by omega
  obtain ⟨h1, h2, h3⟩ := store_block dstOff hd' hfit
  simp only [memmove, hload, hbounds, List.nil_append]
  refine ⟨?_, h2.trans rfl, h3.trans rfl⟩
  rw [h1, hlen]
  rfl

theorem memchr_block {h : Memory} {b n : Nat} {cs : List (Cell UInt8)} (c : UInt8)
    (hb : h.block b = some cs) (hn : n = cs.length) :
    memchr (.block b) c n h =
      ((cs.map Cell.val).findIdx? (· = c), h.report (useFaults cs)) := by
  subst hn
  simp [memchr, load, boundsFaults, cells_block hb]

end Aesd.Kernel
