import Aesd.Driver.FailedWrite

/-!
# How much of a write lands

The bytes of a write that the device has when the call is over, whatever it
returns: in the entry it has committed, and behind the bytes that were pending.
A write that fails may have landed in full, and one that returns its count may
have lost bytes.
-/
namespace Aesd.Landed

open BlockHeap Kernel CharDevice WriteEffect Ownership Pending FailedWrite

/-- The bytes that the call `r` on the device `s` has appended. -/
def landed (s : State) (r : WriteResult) : List UInt8 :=
  ((r.added.flatten ++ pendingCells r.state).drop s.dev.workingSize).map Cell.val

/-- An entry is committed, and the shrinking `krealloc` is refused while bytes are behind it. -/
def Spills (env : WriteEnv) (buf : List UInt8) (s : State) : Prop :=
  env.entry.granted = true ∧ env.shrink.granted = false ∧
    ∃ i ∈ lineEnd env buf s, i + 1 < s.dev.workingSize + buf.length

/-- The call gets at the bytes and has a block for them, and spills none. -/
def Lands (env : WriteEnv) (buf : List UInt8) (s : State) : Prop :=
  Reaches env buf ∧ env.grow.granted = true ∧ ¬ Spills env buf s

instance (env : WriteEnv) (buf : List UInt8) : Decidable (Reaches env buf) :=
  inferInstanceAs (Decidable (_ ∧ _ ∧ _ ∧ _))

instance (env : WriteEnv) (buf : List UInt8) (s : State) : Decidable (Spills env buf s) :=
  inferInstanceAs (Decidable (_ ∧ _ ∧ _))

instance (env : WriteEnv) (buf : List UInt8) (s : State) : Decidable (Lands env buf s) :=
  inferInstanceAs (Decidable (_ ∧ _ ∧ ¬ _))

variable {s : State} {env : WriteEnv} {buf : List UInt8} {r : WriteResult}

/-- What was pending is no longer than the device takes it for. -/
theorem length_pendingCells (hs : Sound s) : (pendingCells s).length ≤ s.dev.workingSize := by
  cases hw : s.dev.workingEntry with
  | null | emptyToken => simp [pendingCells, hw]
  | block b =>
    obtain ⟨cs, hcs, hlen, -⟩ := hs.working b hw
    rw [pendingCells, hw, Heap.cells_block hcs, hlen]

/-- What is behind the first `size` bytes. -/
def behind (size : Nat) (x : Summary) : List UInt8 :=
  ((x.added.flatten ++ x.cells).drop size).map Cell.val

/-- The round of the loop keeps what it has gathered, unless it spills. -/
theorem behind_round {old : List (Cell UInt8)} {size : Nat} (hold : old.length = size) :
    behind size (.round env buf.length (old ++ writtenCells buf)) =
      match ((old ++ writtenCells buf).map Cell.val).findIdx? (· = newline) with
      | none => buf
      | some i => if env.entry.granted = true ∧ env.shrink.granted = false then
          buf.take (i + 1 - size) else buf := by
  have hall : ((old ++ writtenCells buf).drop size).map Cell.val = buf := by
    rw [← hold, List.drop_left, map_val_writtenCells]
  unfold Summary.round behind
  cases ((old ++ writtenCells buf).map Cell.val).findIdx? (· = newline) with
  | none => exact hall
  | some i =>
    have hcut : (((old ++ writtenCells buf).take (i + 1)).drop size).map Cell.val =
        buf.take (i + 1 - size) := by
      rw [List.drop_take, List.map_take, hall]
    cases he : env.entry.granted with
    | false => simpa using hall
    | true =>
      cases hs : env.shrink.granted with
      | true => simpa using hall
      | false =>
        by_cases hne : (old ++ writtenCells buf).drop (i + 1) = []
        · have hfull : (old ++ writtenCells buf).take (i + 1) = old ++ writtenCells buf :=
            List.take_of_length_le (List.drop_eq_nil_iff.mp hne)
          rw [hfull] at hcut
          simp [hne, hfull, ← hcut, hall]
        · simp [hne, ← hcut]

theorem behind_still {cells : List (Cell UInt8)} {size : Nat} (hlen : cells.length ≤ size)
    (retval : Int) : behind size (.still retval cells size) = [] := by
  simpa [behind, Summary.still] using hlen

/-- What a write lands, told by the kernel's answers and the device before it. -/
theorem landed_eq (hs : Sound s) (h : Effect env buf s r) : landed s r =
    if Reaches env buf ∧ env.grow.granted = true then
      match lineEnd env buf s with
      | none => buf
      | some i => if env.entry.granted = true ∧ env.shrink.granted = false then
          buf.take (i + 1 - s.dev.workingSize) else buf
    else [] := by
  have hlanded : landed s r = behind s.dev.workingSize (shown r) := rfl
  rw [hlanded, shown_eq h]
  by_cases hreach : Reaches env buf ∧ env.grow.granted = true
  · rw [if_pos hreach, summary_reaches hreach.1 hreach.2, gathered, behind_round (by simp)]
    rfl
  · rw [if_neg hreach]
    have hlen := length_pendingCells hs
    have hnil : ([] : List (Cell UInt8)).length ≤ s.dev.workingSize := Nat.zero_le _
    unfold summary
    split_ifs with hi hbuf hk hc hg
    · exact behind_still hlen _
    · exact behind_still hlen _
    · exact behind_still hlen _
    · exact behind_still hlen _
    · exact behind_still hnil _
    · refine absurd ⟨⟨?_, ?_, ?_, hbuf⟩, ?_⟩ hreach <;> simp_all

/-- The device has all bytes of the write exactly when nothing keeps them from landing. -/
theorem landed_eq_iff (hs : Sound s) (h : Effect env buf s r) (hbuf : buf ≠ []) :
    landed s r = buf ↔ Lands env buf s := by
  rw [landed_eq hs h]
  by_cases hreach : Reaches env buf ∧ env.grow.granted = true
  · rw [if_pos hreach]
    have hlands : Lands env buf s ↔ ¬ Spills env buf s :=
      ⟨fun h => h.2.2, fun h => ⟨hreach.1, hreach.2, h⟩⟩
    rw [hlands, Spills]
    cases lineEnd env buf s with
    | none => simp
    | some i =>
      simp only [Option.mem_def, Option.some.injEq, exists_eq_left']
      split_ifs with hspill
      · rw [List.take_eq_self_iff]
        have := List.length_pos_iff.mpr hbuf
        simp only [hspill, true_and]
        omega
      · exact iff_of_true rfl fun h => hspill ⟨h.1, h.2.1⟩
  · rw [if_neg hreach]
    exact iff_of_false hbuf.symm fun h => hreach ⟨h.1, h.2.1⟩

/-- Only the beginning of what is written can land. -/
theorem landed_begins (hs : Sound s) (h : Effect env buf s r) : landed s r <+: buf := by
  rw [landed_eq hs h]
  by_cases hreach : Reaches env buf ∧ env.grow.granted = true
  · rw [if_pos hreach]
    cases lineEnd env buf s with
    | none => exact List.prefix_rfl
    | some i =>
      dsimp only
      split_ifs
      · exact List.take_prefix _ _
      · exact List.prefix_rfl
  · rw [if_neg hreach]
    exact List.nil_prefix

/-- The driver need not be given all that is to be written. -/
theorem landed_take_iff (hs : Sound s) {data : List UInt8} {passed : Nat} (hdata : data ≠ [])
    (h : Effect env (data.take passed) s r) :
    landed s r = data ↔ data.length ≤ passed ∧ Lands env data s := by
  by_cases hle : data.length ≤ passed
  · rw [List.take_of_length_le hle] at h
    rw [landed_eq_iff hs h hdata]
    exact (and_iff_right hle).symm
  · refine iff_of_false (fun heq => ?_) fun h => hle h.1
    have hlen := (landed_begins hs h).length_le
    rw [heq, List.length_take] at hlen
    omega

end Aesd.Landed
