import Aesd.Driver.Reading
import Mathlib.Algebra.BigOperators.Group.List.Lemmas

/-!
# Seeking

Two ways to move a file to a position: `aesd_llseek` by a distance from the
beginning, the position or the end, in 64-bit arithmetic that may wrap, and
`aesd_ioctl` by the number of an entry and a byte in it. Both agree with the
search and with what a program reads from there.
-/
namespace Aesd.Seeking

open BlockHeap CharDevice Ownership Position Search Reading CircularBuffer CyclicSlots Pieces

/-- The walk from the oldest entry to the next slot adds up `n` sizes. -/
theorem totalSizeLoop_eq {b : AesdCircularBuffer} (n : Nat) {fuel idx acc : Nat} (hidx : idx < 10)
    (hin : b.inOffs = (idx + n) % 10) (hn : n < 10) (hfuel : n < fuel) :
    totalSizeLoop b fuel idx acc =
      some (acc + ((window 10 b.entry idx n).map AesdBufferEntry.size).sum) := by
  induction n generalizing fuel idx acc with
  | zero =>
    cases fuel with
    | zero => omega
    | succ fuel =>
      have hend : idx = b.inOffs := by omega
      simp [totalSizeLoop, hend]
  | succ n ih =>
    cases fuel with
    | zero => omega
    | succ fuel =>
      have hgo : idx ≠ b.inOffs := by omega
      rw [totalSizeLoop, if_neg hgo, maxWriteOperationsSupported_eq,
        ih (Nat.mod_lt _ (by decide)) (by omega) (by omega) (by omega), window_succ_left,
        Nat.mod_eq_of_lt hidx, List.map_cons, List.sum_cons, Nat.add_assoc]

variable {s : State}

/-- `total_size` is what is stored, in the full ring and in any other. -/
theorem totalSize_eq (hs : Sound s) : totalSize s.dev.circBuffer = some (stream s).length := by
  obtain ⟨es, hes⟩ := hs.ring
  have hcount := hes.occupiedCount_eq
  rw [length_stream, ← sizes_eq hs, occupied]
  unfold totalSize
  by_cases hfull : s.dev.circBuffer.full = true
  · have hten : occupiedCount s.dev.circBuffer = 10 := by simp [occupiedCount, hfull]
    have hperm := (window_perm s.dev.circBuffer.entry hes.out_lt).map AesdBufferEntry.size
    rw [if_pos hfull, hten, hperm.sum_eq, List.map_map]
    rfl
  · have hlen := mt hes.full_iff.mpr hfull
    rw [if_neg hfull, totalSizeLoop_eq (occupiedCount s.dev.circBuffer) hes.out_lt
      (by rw [hcount, hes.in_eq]) (by omega) (by simp; omega), Nat.zero_add]

/-- Where `whence` counts from. -/
def seekBase (whence fPos : Int) (total : Nat) : Option Int :=
  if whence = 0 then some 0
  else if whence = 1 then some fPos
  else if whence = 2 then some total
  else none

/-- The position a seek asks for, if there is one. -/
def seekTarget (whence fPos off : Int) (total : Nat) : Option Int :=
  (seekBase whence fPos total).bind fun base =>
    if 0 ≤ base + off ∧ base + off < 2 ^ 63 then some (base + off) else none

/-- The sum of two values of 64 bits wraps exactly when it does not fit, and is negative then. -/
theorem toLoffT_add {base off : Int} (hbase : 0 ≤ base) (hbase' : base < 2 ^ 63)
    (hoff : -2 ^ 63 ≤ off) (hoff' : off < 2 ^ 63) :
    if 0 ≤ base + off ∧ base + off < 2 ^ 63 then toLoffT (base + off) = base + off
    else toLoffT (base + off) < 0 := by
  unfold toLoffT
  rcases Int.lt_or_le (base + off) (2 ^ 63) with hfit | hwrap
  · rw [Int.bmod_eq_of_le (by omega) (by omega)]
    split_ifs <;> omega
  · rw [if_neg (by omega), ← Int.sub_bmod_right, Int.bmod_eq_of_le (by omega) (by omega)]
    omega

/-- The answer of `aesd_llseek` on a device whose lock is free. -/
theorem aesdLlseek_eq (hs : Sound s) (whence : Int) {fPos off : Int} (hlt : (stream s).length < 2 ^ 63)
    (hpos : 0 ≤ fPos) (hpos' : fPos < 2 ^ 63) (hoff : -2 ^ 63 ≤ off) (hoff' : off < 2 ^ 63) :
    aesdLlseek false off whence fPos s =
      some (match seekTarget whence fPos off (stream s).length with
        | some target => ⟨target, target, s⟩
        | none => ⟨-eInval, fPos, s⟩) := by
  have hunlock := unlock_lock hs
  have hsum : ∀ base : Int, 0 ≤ base → base < 2 ^ 63 →
      (if toLoffT (base + off) < 0 then (⟨-eInval, fPos, s⟩ : SeekResult)
        else ⟨toLoffT (base + off), toLoffT (base + off), s⟩) =
      match (if 0 ≤ base + off ∧ base + off < 2 ^ 63 then some (base + off) else none) with
        | some target => ⟨target, target, s⟩
        | none => ⟨-eInval, fPos, s⟩ := by
    intro base hbase hbase'
    have hadd := toLoffT_add hbase hbase' hoff hoff'
    split_ifs at hadd ⊢ <;> first | omega | simp_all
  simp only [aesdLlseek, mutexLockInterruptible, totalSize_eq hs, hunlock, Bool.false_eq_true,
    if_false, seekTarget, seekBase]
  by_cases h0 : whence = 0
  · simpa [h0] using hsum 0 (by omega) (by omega)
  by_cases h1 : whence = 1
  · simpa [h1] using hsum fPos hpos hpos'
  by_cases h2 : whence = 2
  · simpa [h2] using hsum (stream s).length (by omega) (by omega)
  simp [h0, h1, h2]

theorem seekTarget_end (fPos : Int) {k total : Nat} (hk : k ≤ total) (hlt : total < 2 ^ 63) :
    seekTarget 2 fPos (-(k : Int)) total = some ((total - k : Nat) : Int) := by
  have hsub : (total : Int) + -(k : Int) = (total - k : Nat) := by omega
  have hfits : 0 ≤ ((total - k : Nat) : Int) ∧ ((total - k : Nat) : Int) < 2 ^ 63 := by omega
  have hbase : seekBase 2 fPos total = some (total : Int) := rfl
  rw [seekTarget, hbase, Option.bind_some, hsub, if_pos hfits]

/-- The search ends with NULL exactly from `total_size` on. -/
theorem find_none_iff (hs : Sound s) (c : Nat) :
    aesdCircularBufferFindEntryOffsetForFpos s.dev.circBuffer c = none ↔ (stream s).length ≤ c := by
  rw [find_sound hs, Option.map_eq_none_iff, locate_eq_none, length_stream]

/-- On every device the calls of a program can lead to, `aesd_llseek` goes to the position asked
for if 63 bits hold it, and fails and stays otherwise. What it takes for the end is where reading
ends and where the search ends, so that the last `k` bytes are `k` bytes before it. -/
theorem llseek_exact (buffer : Kernel.Alloc) (dev : AesdDev) (ops : List Op) (whence fPos off : Int)
    (hlt : (stream ((Session.start buffer dev).run ops).state).length < 2 ^ 63) (hpos : 0 ≤ fPos)
    (hpos' : fPos < 2 ^ 63) (hoff : -2 ^ 63 ≤ off) (hoff' : off < 2 ^ 63) :
    let s := ((Session.start buffer dev).run ops).state
    let total := (stream s).length
    (∃ r, aesdLlseek false off whence fPos s = some r ∧ r.state = s ∧ s.dev.lock = false ∧
      (∀ target, seekTarget whence fPos off total = some target →
        r.retval = target ∧ r.fPos = target) ∧
      (seekTarget whence fPos off total = none → r.retval = -eInval ∧ r.fPos = fPos)) ∧
    (∀ counts : Nat → Nat, (∀ k, 1 ≤ counts k) →
      ∃ bytes, ReadsToEnd counts (0 : Nat) s bytes ∧ bytes.length = total) ∧
    (∀ c, aesdCircularBufferFindEntryOffsetForFpos s.dev.circBuffer c = none ↔ total ≤ c) ∧
    ∀ k ≤ total, ∃ r, aesdLlseek false (-(k : Int)) 2 fPos s = some r ∧
      ∀ counts : Nat → Nat, (∀ k, 1 ≤ counts k) →
        ReadsToEnd counts r.fPos r.state ((stream s).drop (total - k)) := by
  intro s total
  have hs : Sound s := run_sound (start_sound buffer dev) ops
  have htotal : total < 2 ^ 63 := hlt
  refine ⟨⟨_, aesdLlseek_eq hs whence hlt hpos hpos' hoff hoff', ?_, hs.lock_free, fun target ht => ?_,
    fun ht => ?_⟩, fun counts hcounts => ?_, find_none_iff hs, fun k hk => ?_⟩
  · cases seekTarget whence fPos off (stream s).length <;> rfl
  · rw [ht]
    exact ⟨rfl, rfl⟩
  · rw [ht]
    exact ⟨rfl, rfl⟩
  · exact ⟨stream s, by simpa using readsToEnd hs hlt (p := 0) (by omega) hcounts, rfl⟩
  · have hlow : -2 ^ 63 ≤ -(k : Int) := by omega
    have hseek := aesdLlseek_eq hs 2 hlt hpos hpos' hlow (by omega)
    rw [seekTarget_end fPos hk htotal] at hseek
    exact ⟨_, hseek, fun counts hcounts => readsToEnd hs hlt (by omega) hcounts⟩

/-- Two bytes before the end of two lines, with the position far beyond it. -/
theorem llseek_exact_end : ∃ r, aesdLlseek false (-2) 2 (2 ^ 63 - 1)
    ((Session.start Pending.grant Pending.blank).run
      [.write 0 Pending.fine [97, 98, 10], .write 0 Pending.fine [99, 10]]).state = some r ∧
    ReadsToEnd (fun _ => 3) r.fPos r.state (writtenCells [99, 10]) := by
  obtain ⟨-, -, -, hend⟩ := llseek_exact Pending.grant Pending.blank
    [.write 0 Pending.fine [97, 98, 10], .write 0 Pending.fine [99, 10]] 2 (2 ^ 63 - 1) (-2)
    (by decide) (by decide) (by decide) (by decide) (by decide)
  obtain ⟨r, hr, hreads⟩ := hend 2 (by decide)
  exact ⟨r, hr, hreads (fun _ => 3) fun _ => by decide⟩

/-- The `y`-th byte of the `x`-th oldest entry is stored. -/
def Names (b : AesdCircularBuffer) (x y : Nat) : Prop :=
  x < validEntries b ∧ y < (b.entry ((b.outOffs + x) % 10)).size

/-- `aesd_ioctl` never counts the entries, and still rejects what names no stored byte. -/
theorem named_iff (hs : Sound s) (x y : Nat) :
    Names s.dev.circBuffer x y ↔ y < ((lengths s)[x]?).getD 0 := by
  obtain ⟨es, hes⟩ := hs.ring
  have hsizes : lengths s = sizes s.dev.circBuffer := (sizes_eq hs).symm
  rw [Names, validEntries_eq hes.in_lt hes.out_lt, hsizes]
  cases hx : (sizes s.dev.circBuffer)[x]? with
  | none =>
    have hlen := List.getElem?_eq_none_iff.mp hx
    rw [length_sizes] at hlen
    simp only [Option.getD_none, Nat.not_lt_zero, iff_false, not_and]
    omega
  | some size =>
    have hlt := (List.getElem?_eq_some_iff.mp hx).1
    rw [length_sizes] at hlt
    rw [size_of_slot hx]
    simp [hlt]

/-- The place of a named byte, as the search sees it. -/
theorem find_named (hs : Sound s) {x y : Nat} (hnamed : Names s.dev.circBuffer x y) :
    aesdCircularBufferFindEntryOffsetForFpos s.dev.circBuffer (start s.dev.circBuffer x + y) =
      some ((s.dev.circBuffer.outOffs + x) % 10, y) := by
  have hsizes : lengths s = sizes s.dev.circBuffer := (sizes_eq hs).symm
  have hlt := (named_iff hs x y).mp hnamed
  rw [find_sound hs, hsizes]
  rw [hsizes] at hlt
  cases hx : (sizes s.dev.circBuffer)[x]? with
  | none => simp [hx] at hlt
  | some size =>
    rw [hx] at hlt
    have hplace : locate (sizes s.dev.circBuffer) (start s.dev.circBuffer x + y) = some (x, y) :=
      locate_eq_some.mpr ⟨size, hx, hlt, rfl⟩
    rw [hplace]
    rfl

/-- A read from a named byte on begins with it. -/
theorem read_named (hs : Sound s) (hlt : (stream s).length < 2 ^ 63) {x y : Nat}
    (hnamed : Names s.dev.circBuffer x y) (count : Nat) :
    start s.dev.circBuffer x + y < (stream s).length ∧
      (aesdRead false false count (start s.dev.circBuffer x + y : Nat) s).data =
        ((entryCells s.heap (s.dev.circBuffer.entry ((s.dev.circBuffer.outOffs + x) % 10))).drop y).take
          count := by
  have hfind := find_named hs hnamed
  have hin : start s.dev.circBuffer x + y < (stream s).length := by
    rw [← Nat.not_le, ← find_none_iff hs, hfind]
    simp
  refine ⟨hin, ?_⟩
  have hsize : toSizeT (start s.dev.circBuffer x + y : Nat) = start s.dev.circBuffer x + y :=
    toSizeT_natCast (by omega)
  rw [find_sound hs, Option.map_eq_some_iff] at hfind
  obtain ⟨⟨k, off⟩, hplace, hslot⟩ := hfind
  obtain ⟨piece, hpiece, -⟩ := drop_flatten_of_locate hplace
  obtain ⟨-, hcells⟩ := slot_of_contents hs hpiece
  obtain ⟨hidx, rfl⟩ := Prod.mk.inj hslot
  rw [aesdRead_eq hs, hsize, hplace]
  dsimp only
  rw [hpiece, Option.getD_some, ← hcells, hidx]

/-- On every device the calls of a program can lead to, `AESDCHAR_IOCSEEKTO` returns 0 exactly
for the bytes that are stored; it goes then to the byte named, which the search finds and the
next read begins with. In every other case it returns `-EINVAL` and stays. -/
theorem ioctl_exact (buffer : Kernel.Alloc) (dev : AesdDev) (ops : List Op)
    (hbounded : EntriesBounded (Session.start buffer dev) ops) (x y : Nat) (fPos : Int) :
    let s := ((Session.start buffer dev).run ops).state
    let ring := s.dev.circBuffer
    let slot := (ring.outOffs + x) % 10
    let r := aesdIoctl false false aesdcharIocSeekTo x y fPos s
    (r.retval = 0 ↔ Names ring x y) ∧
    (Names ring x y → r.fPos = (start ring x + y : Nat) ∧
      aesdCircularBufferFindEntryOffsetForFpos ring (start ring x + y) = some (slot, y) ∧
      y < (entryCells s.heap (ring.entry slot)).length ∧ ∀ count,
        (aesdRead false false count r.fPos s).data =
          ((entryCells s.heap (ring.entry slot)).drop y).take count) ∧
    (¬ Names ring x y → r.retval = -eInval ∧ r.fPos = fPos) ∧
    r.state = s ∧ s.dev.lock = false := by
  intro s ring slot r
  have hs : Sound s := run_sound (start_sound buffer dev) ops
  have hlt : (stream s).length < 2 ^ 63 := stream_lt buffer dev hbounded
  have hsum : (((lengths s).take x).sum + y : Int) = (start ring x + y : Nat) := by
    rw [← sizes_eq hs]
    rfl
  by_cases hnamed : Names ring x y
  · have hr : r = ⟨0, toLoffT (start ring x + y : Nat), s⟩ := by
      simp only [r, aesdIoctl_eq hs, if_pos ((named_iff hs x y).mp hnamed), hsum]
    have hin : start ring x + y < (stream s).length := (read_named hs hlt hnamed 0).1
    rw [toLoffT_natCast (Nat.lt_trans hin hlt)] at hr
    have hpos : r.fPos = (start ring x + y : Nat) := by rw [hr]
    obtain ⟨es, hes⟩ := hs.ring
    have hgood := hs.slot (ring.entry slot) (List.mem_of_getElem? (getElem?_window
      ((validEntries_eq hes.in_lt hes.out_lt) ▸ hnamed.1)))
    obtain ⟨-, -, -, hlen⟩ := hgood.cells
    refine ⟨iff_of_true (by rw [hr]) hnamed, fun _ => ⟨hpos, find_named hs hnamed,
      hlen ▸ hnamed.2, fun count => ?_⟩, fun h => absurd hnamed h, by rw [hr], hs.lock_free⟩
    rw [hpos]
    exact (read_named hs hlt hnamed count).2
  · have hr : r = ⟨-eInval, fPos, s⟩ := by
      simp only [r, aesdIoctl_eq hs, if_neg (mt (named_iff hs x y).mpr hnamed)]
    have hret : -eInval ≠ 0 := by decide
    exact ⟨iff_of_false (by rw [hr]; exact hret) hnamed, fun h => absurd h hnamed,
      fun _ => ⟨by rw [hr], by rw [hr]⟩, by rw [hr], hs.lock_free⟩

/-- The second byte of the newest of two lines, and a third line that is not there. -/
theorem ioctl_exact_lines :
    (aesdIoctl false false aesdcharIocSeekTo 1 1 0 ((Session.start Pending.grant Pending.blank).run
        [.write 0 Pending.fine [97, 98, 10], .write 0 Pending.fine [99, 10]]).state).retval = 0 ∧
      (aesdIoctl false false aesdcharIocSeekTo 2 0 0 ((Session.start Pending.grant Pending.blank).run
        [.write 0 Pending.fine [97, 98, 10], .write 0 Pending.fine [99, 10]]).state).retval = -eInval := by
  have hbounded : EntriesBounded (Session.start Pending.grant Pending.blank)
      [.write 0 Pending.fine [97, 98, 10], .write 0 Pending.fine [99, 10]] := by
    unfold EntriesBounded
    decide
  have hin := ioctl_exact Pending.grant Pending.blank _ hbounded 1 1 0
  have hout := ioctl_exact Pending.grant Pending.blank _ hbounded 2 0 0
  exact ⟨hin.1.mpr (by unfold Names; decide), (hout.2.2.1 (by unfold Names; decide)).1⟩

end Aesd.Seeking
