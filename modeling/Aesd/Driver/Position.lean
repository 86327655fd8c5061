import Aesd.Driver.Ownership
import Aesd.Lib.Pieces

/-!
# File positions

`f_pos` counts the bytes of the stored entries, oldest first. The search of the
ring, `aesd_read` and `aesd_ioctl` are brought to that list of entries; none of
the calls that only look changes the device.
-/
namespace Aesd.Position

open BlockHeap BlockHeap.Heap Kernel CircularBuffer CharDevice Ownership CyclicSlots Pieces

theorem validEntries_eq {b : AesdCircularBuffer} (hin : b.inOffs < 10) (hout : b.outOffs < 10) :
    validEntries b = occupiedCount b := by
  unfold validEntries occupiedCount
  simp only [maxWriteOperationsSupported_eq]
  split_ifs <;> omega

theorem findLoop_eq (b : AesdCircularBuffer) {c : Nat} (n : Nat) {first acc : Nat}
    (hf : first < 10) (hacc : acc ≤ c) :
    findLoop b c n first acc =
      (locate ((window 10 b.entry first n).map AesdBufferEntry.size) (c - acc)).map
        fun (k, off) => ((first + k) % 10, off) := by
  induction n generalizing first acc with
  | zero => rfl
  | succ n ih =>
    rw [window_succ_left, Nat.mod_eq_of_lt hf, List.map_cons]
    simp only [findLoop, locate, maxWriteOperationsSupported_eq]
    by_cases h : c < acc + (b.entry first).size
    · rw [if_pos h, if_pos (by omega)]
      simp [Nat.mod_eq_of_lt hf]
    · rw [if_neg h, if_neg (by omega), ih (Nat.mod_lt _ (by decide)) (by omega), Option.map_map,
        Nat.sub_sub]
      refine Option.map_congr fun place _ => ?_
      obtain ⟨k, off⟩ := place
      simp only [Function.comp, Nat.mod_add_mod]
      congr 2
      omega

/-- The search finds the place of the position among the occupied slots. -/
theorem find_eq {b : AesdCircularBuffer} (c : Nat) (hin : b.inOffs < 10) (hout : b.outOffs < 10) :
    aesdCircularBufferFindEntryOffsetForFpos b c =
      (locate ((occupied b).map AesdBufferEntry.size) c).map
        fun (k, off) => ((b.outOffs + k) % 10, off) := by
  rw [aesdCircularBufferFindEntryOffsetForFpos, findLoop_eq b _ hout (Nat.zero_le _),
    validEntries_eq hin hout]
  rfl

/-- The walk of `aesd_ioctl` passes the slots of a window. -/
theorem seekLoop_eq (b : AesdCircularBuffer) (n : Nat) {first : Nat} (acc : Nat) (hf : first < 10) :
    seekLoop b n first acc =
      ((first + n) % 10, acc + ((window 10 b.entry first n).map AesdBufferEntry.size).sum) := by
  induction n generalizing first acc with
  | zero => simp [seekLoop, Nat.mod_eq_of_lt hf]
  | succ n ih =>
    rw [seekLoop, maxWriteOperationsSupported_eq, ih _ (Nat.mod_lt _ (by decide)), window_succ_left,
      Nat.mod_eq_of_lt hf, List.map_cons, List.sum_cons, Nat.mod_add_mod]
    congr 1
    · congr 1
      omega
    · omega

variable {s : State}

/-- The lengths of the stored entries. -/
def lengths (s : State) : List Nat := (contents s).map List.length

theorem sizes_eq (hs : Sound s) :
    (occupied s.dev.circBuffer).map AesdBufferEntry.size = lengths s := by
  rw [lengths, contents, List.map_map]
  apply List.map_congr_left
  intro e he
  obtain ⟨b, -, -, hlen⟩ := (hs.slot e he).cells
  exact hlen.symm

theorem find_sound (hs : Sound s) (c : Nat) :
    aesdCircularBufferFindEntryOffsetForFpos s.dev.circBuffer c =
      (locate (lengths s) c).map fun (k, off) => ((s.dev.circBuffer.outOffs + k) % 10, off) := by
  obtain ⟨es, hes⟩ := hs.ring
  rw [find_eq c hes.in_lt hes.out_lt, sizes_eq hs]

/-- The slot that holds the `k`-th oldest entry. -/
theorem slot_of_contents (hs : Sound s) {k : Nat} {piece : List (Cell UInt8)}
    (h : (contents s)[k]? = some piece) :
    GoodEntry s.heap (s.dev.circBuffer.entry ((s.dev.circBuffer.outOffs + k) % 10)) ∧
      entryCells s.heap (s.dev.circBuffer.entry ((s.dev.circBuffer.outOffs + k) % 10)) = piece := by
  rw [contents, List.getElem?_map, Option.map_eq_some_iff] at h
  obtain ⟨e, he, rfl⟩ := h
  have hk := (List.getElem?_eq_some_iff.mp he).1
  have hslot : s.dev.circBuffer.entry ((s.dev.circBuffer.outOffs + k) % 10) = e := by
    rw [occupied, getElem?_window (by simpa [occupied] using hk)] at he
    exact Option.some.inj he
  rw [hslot]
  exact ⟨hs.slot e (List.mem_of_getElem? he), rfl⟩

/-- Taking the lock and giving it back leaves a device whose lock is free. -/
theorem unlock_lock (hs : Sound s) :
    mutexUnlock { s with dev := { s.dev with lock := true } } = s := by
  have hfree := hs.lock_free
  cases s with
  | mk heap dev =>
    cases dev
    simp only at hfree
    subst hfree
    rfl

/-- What a read copies out, and where it leaves the position. -/
theorem aesdRead_eq (hs : Sound s) (count : Nat) (fPos : Int) :
    aesdRead false false count fPos s =
      match locate (lengths s) (toSizeT fPos) with
      | none => ⟨0, [], fPos, s⟩
      | some (k, off) =>
        let data := ((((contents s)[k]?).getD []).drop off).take count
        ⟨data.length, data, fPos + data.length, s⟩ := by
  cases hl : locate (lengths s) (toSizeT fPos) with
  | none => simp [aesdRead, mutexLockInterruptible, find_sound hs, hl, unlock_lock hs]
  | some place =>
    obtain ⟨k, off⟩ := place
    obtain ⟨size, hsize, hoff, -⟩ := locate_eq_some.mp hl
    rw [lengths, List.getElem?_map, Option.map_eq_some_iff] at hsize
    obtain ⟨piece, hpiece, rfl⟩ := hsize
    obtain ⟨hgood, hcells⟩ := slot_of_contents hs hpiece
    obtain ⟨b, hp, hlive, hlen⟩ := hgood.cells
    rw [hcells] at hlive hlen
    have hdata : (piece.drop off).take (min count (piece.length - off)) =
        (piece.drop off).take count := by
      rw [← List.length_drop, List.take_eq_take_iff]
      omega
    have hcount : ((piece.drop off).take count).length = min count (piece.length - off) := by
      rw [List.length_take, List.length_drop]
    have hbounds : s.heap.boundsFaults (.block b) off (min count (piece.length - off)) = [] := by
      rw [boundsFaults, cells_block hlive, if_pos (Or.inl (by omega))]
    have hunlock := unlock_lock hs
    simp [aesdRead, mutexLockInterruptible, find_sound hs, hl, hp, ← hlen, hpiece, load,
      cells_block hlive, hdata, hcount, hbounds, hunlock]

/-- Whatever stops a read, it changes nothing, and delivers nothing but what it would copy. -/
theorem aesdRead_stopped (hs : Sound s) (interrupted copyFails : Bool) (count : Nat) (fPos : Int) :
    (aesdRead interrupted copyFails count fPos s).state = s ∧
      ((aesdRead interrupted copyFails count fPos s).data = [] ∨
        (aesdRead interrupted copyFails count fPos s).data =
          (aesdRead false false count fPos s).data) := by
  have hstate : (aesdRead false false count fPos s).state = s := by
    rw [aesdRead_eq hs]
    split <;> rfl
  cases interrupted with
  | true => exact ⟨rfl, Or.inl rfl⟩
  | false =>
    cases copyFails with
    | false => exact ⟨hstate, Or.inr rfl⟩
    | true =>
      cases hf : aesdCircularBufferFindEntryOffsetForFpos s.dev.circBuffer (toSizeT fPos) with
      | none => simp [aesdRead, mutexLockInterruptible, hf, unlock_lock hs]
      | some place =>
        obtain ⟨idx, off⟩ := place
        by_cases hz : min count ((s.dev.circBuffer.entry idx).size - off) = 0
        · have hsame : aesdRead false true count fPos s = aesdRead false false count fPos s := by
            simp [aesdRead, mutexLockInterruptible, hf, hz]
          rw [hsame]
          exact ⟨hstate, Or.inr rfl⟩
        · simp [aesdRead, mutexLockInterruptible, hf, hz, unlock_lock hs]

/-- Every byte a read delivers is a byte of a stored entry. -/
theorem mem_aesdRead (hs : Sound s) {interrupted copyFails : Bool} {count : Nat} {fPos : Int}
    {c : Cell UInt8} (h : c ∈ (aesdRead interrupted copyFails count fPos s).data) :
    ∃ entry ∈ contents s, c ∈ entry := by
  rcases (aesdRead_stopped hs interrupted copyFails count fPos).2 with he | he
  · rw [he] at h
    cases h
  · rw [he, aesdRead_eq hs] at h
    cases hl : locate (lengths s) (toSizeT fPos) with
    | none => simp [hl] at h
    | some place =>
      obtain ⟨k, off⟩ := place
      simp only [hl] at h
      have hmem := List.mem_of_mem_drop (List.mem_of_mem_take h)
      cases hk : (contents s)[k]? with
      | none => simp [hk] at hmem
      | some entry => exact ⟨entry, List.mem_of_getElem? hk, by simpa [hk] using hmem⟩

theorem aesdLlseek_state (hs : Sound s) {interrupted : Bool} {off whence fPos : Int}
    {r : SeekResult} (h : aesdLlseek interrupted off whence fPos s = some r) : r.state = s := by
  cases interrupted with
  | true =>
    cases h
    rfl
  | false =>
    simp only [aesdLlseek, mutexLockInterruptible, Bool.false_eq_true, if_false,
      Option.map_eq_some_iff] at h
    obtain ⟨total, -, rfl⟩ := h
    split_ifs <;> exact unlock_lock hs

/-- A seek to a byte that is stored goes there, and any other fails and stays. -/
theorem aesdIoctl_eq (hs : Sound s) (writeCmd writeCmdOffset : Nat) (fPos : Int) :
    aesdIoctl false false aesdcharIocSeekTo writeCmd writeCmdOffset fPos s =
      if writeCmdOffset < ((lengths s)[writeCmd]?).getD 0 then
        ⟨0, toLoffT (((lengths s).take writeCmd).sum + writeCmdOffset), s⟩
      else ⟨-eInval, fPos, s⟩ := by
  obtain ⟨es, hes⟩ := hs.ring
  have hlen : (lengths s).length = occupiedCount s.dev.circBuffer := by
    rw [← sizes_eq hs, List.length_map, occupied, length_window]
  have hcount := hes.occupiedCount_eq
  by_cases hbig : writeCmd ≥ 10
  · have hnone : (lengths s)[writeCmd]? = none := List.getElem?_eq_none (by omega)
    simp [aesdIoctl, hbig, hnone]
  have hwalk := seekLoop_eq s.dev.circBuffer writeCmd 0 hes.out_lt
  rw [Nat.zero_add] at hwalk
  by_cases hk : writeCmd < occupiedCount s.dev.circBuffer
  · have hsize : (lengths s)[writeCmd]? = some
        (s.dev.circBuffer.entry ((s.dev.circBuffer.outOffs + writeCmd) % 10)).size := by
      rw [← sizes_eq hs, List.getElem?_map, occupied, getElem?_window hk]
      rfl
    have hsum : ((window 10 s.dev.circBuffer.entry s.dev.circBuffer.outOffs writeCmd).map
        AesdBufferEntry.size) = (lengths s).take writeCmd := by
      rw [← sizes_eq hs, ← List.map_take, occupied, take_window (Nat.le_of_lt hk)]
    rw [hsum] at hwalk
    by_cases hoff : writeCmdOffset <
        (s.dev.circBuffer.entry ((s.dev.circBuffer.outOffs + writeCmd) % 10)).size
    · have hloc : locate (lengths s) (((lengths s).take writeCmd).sum + writeCmdOffset) =
          some (writeCmd, writeCmdOffset) := locate_eq_some.mpr ⟨_, hsize, hoff, rfl⟩
      simp [aesdIoctl, hbig, mutexLockInterruptible, hwalk, Nat.not_le.mpr hoff, find_sound hs, hloc,
        hsize, hoff, unlock_lock hs]
    · simp [aesdIoctl, hbig, mutexLockInterruptible, hwalk, Nat.le_of_not_lt hoff, hsize, hoff,
        unlock_lock hs]
  · have hnone : (lengths s)[writeCmd]? = none := List.getElem?_eq_none (by omega)
    -- Behind the occupied slots there are only empty ones, so that no offset is inside.
    have hzero : s.dev.circBuffer.entry ((s.dev.circBuffer.outOffs + writeCmd) % 10) = zeroEntry :=
      hes.zero _ (by omega) (by omega)
    simp [aesdIoctl, hbig, mutexLockInterruptible, hwalk, hzero, zeroEntry, hnone, unlock_lock hs]

theorem aesdIoctl_state (hs : Sound s) (copyFails interrupted : Bool)
    (cmd writeCmd writeCmdOffset : Nat) (fPos : Int) :
    (aesdIoctl copyFails interrupted cmd writeCmd writeCmdOffset fPos s).state = s := by
  unfold aesdIoctl
  split_ifs
  · rfl
  · rfl
  · cases interrupted with
    | true => rfl
    | false =>
      simp only [mutexLockInterruptible, Bool.false_eq_true, if_false]
      split_ifs
      · exact unlock_lock hs
      · split <;> exact unlock_lock hs
  · rfl

/-- Only writes change the device. -/
theorem apply_state {x : Session} (hs : Sound x.state) (op : Op) :
    (x.apply op).state = match op with
      | .write _ env buf => (aesdWrite env buf x.state).state
      | _ => x.state := by
  cases op with
  | write => rfl
  | read file interrupted copyFails count =>
    exact (aesdRead_stopped hs interrupted copyFails count _).1
  | llseek file interrupted off whence =>
    simp only [Session.apply]
    cases h : aesdLlseek interrupted off whence (x.fPos file) x.state with
    | none => rfl
    | some r => exact aesdLlseek_state hs h
  | ioctl file copyFails interrupted cmd writeCmd writeCmdOffset =>
    exact aesdIoctl_state hs copyFails interrupted cmd writeCmd writeCmdOffset _

theorem apply_sound {x : Session} (hs : Sound x.state) (op : Op) : Sound (x.apply op).state := by
  rw [apply_state hs]
  cases op with
  | write _ env buf => exact hs.write (WriteEffect.aesdWrite_effect env buf hs.releasable)
  | read | llseek | ioctl => exact hs

theorem run_sound {x : Session} (hs : Sound x.state) (ops : List Op) : Sound (x.run ops).state := by
  induction ops using List.reverseRecOn with
  | nil => exact hs
  | append_singleton ops op ih =>
    rw [Session.run_concat]
    exact apply_sound ih op

end Aesd.Position
