import Aesd.Driver.Pending
import Aesd.Driver.Search
import Mathlib.Data.Nat.Find

/-!
# Reading to the end

A program that calls `aesd_read` until it returns 0 gets what is stored from
its position on, whatever the sizes of its buffers: every call delivers a piece
of it that ends at a boundary of an entry or fills the buffer.
-/
namespace Aesd.Reading

open BlockHeap CharDevice Ownership Position Search CircularBuffer CyclicSlots Pieces

/-- What `n` calls of `aesd_read` in a row deliver, the `k`-th of them into a buffer of `counts k`
bytes; `retval` is that of the last one. -/
def readTimes (counts : Nat → Nat) (fPos : Int) (s : State) : Nat → ReadResult
  | 0 => ⟨0, [], fPos, s⟩
  | n + 1 =>
    let before := readTimes counts fPos s n
    let r := aesdRead false false (counts n) before.fPos before.state
    { r with data := before.data ++ r.data }

/-- Everything that is stored, oldest first. -/
def stream (s : State) : List (Cell UInt8) := (contents s).flatten

/-- The program that reads from `fPos` until a call returns 0 ends, and has then `bytes`. -/
def ReadsToEnd (counts : Nat → Nat) (fPos : Int) (s : State) (bytes : List (Cell UInt8)) : Prop :=
  ∃ n, (readTimes counts fPos s (n + 1)).retval = 0 ∧
    (∀ k < n, 0 < (readTimes counts fPos s (k + 1)).retval) ∧
      (readTimes counts fPos s (n + 1)).data = bytes

/-- No block of 2^59 bytes or more was granted for an entry. -/
def EntriesBounded (x : Session) (ops : List Op) : Prop :=
  ∀ entry ∈ x.observe Session.added ops, entry.length < 2 ^ 59

variable {s : State}

theorem length_stream (s : State) : (stream s).length = (lengths s).sum := by
  rw [stream, List.length_flatten, lengths]

/-- The entries of the ring are entries that were added. -/
theorem mem_contents {x : Session} (hs : Sound x.state) (hempty : contents x.state = [])
    (ops : List Op) {entry : List (Cell UInt8)} (h : entry ∈ contents (x.run ops).state) :
    entry ∈ x.observe Session.added ops := by
  induction ops using List.reverseRecOn with
  | nil => simp [hempty] at h
  | append_singleton ops op ih =>
    have hops := run_sound hs ops
    rw [Session.observe_concat]
    rw [Session.run_concat, apply_state hops] at h
    cases op with
    | write file env buf =>
      have heff := WriteEffect.aesdWrite_effect env buf hops.releasable
      rw [hops.contents_write heff] at h
      rcases List.mem_append.mp (List.mem_of_mem_drop h) with h | h
      · exact List.mem_append_left _ (ih h)
      · exact List.mem_append_right _ h
    | read | llseek | ioctl => exact List.mem_append_left _ (ih h)

theorem start_contents (buffer : Kernel.Alloc) (dev : AesdDev) :
    contents (Session.start buffer dev).state = [] := by
  have hempty : occupied ⟨fun _ => zeroEntry, 0, 0, false⟩ = [] :=
    (init_holds ⟨fun _ => zeroEntry, 0, 0, false⟩).occupied_eq
  rw [start_state]
  cases buffer.granted <;> simp [contents, hempty]

/-- Ten entries fit a `loff_t`. -/
theorem stream_lt (buffer : Kernel.Alloc) (dev : AesdDev) {ops : List Op}
    (h : EntriesBounded (Session.start buffer dev) ops) :
    (stream ((Session.start buffer dev).run ops).state).length < 2 ^ 63 := by
  have hs := start_sound buffer dev
  have hle : (stream ((Session.start buffer dev).run ops).state).length ≤ _ * 2 ^ 59 :=
    length_flatten_le fun q hq => h q (mem_contents hs (start_contents buffer dev) ops hq)
  have hten := (run_sound hs ops).contents_length
  omega

/-- One call delivers a beginning of what is stored from its position on; it delivers nothing
only for an empty buffer or at the end. -/
theorem aesdRead_drop (hs : Sound s) {n : Nat} (hn : n < 2 ^ 64) (count : Nat) :
    ∃ m ≤ count, aesdRead false false count n s = ⟨m, ((stream s).drop n).take m, (n + m : Nat), s⟩ ∧
      n + m ≤ max n (stream s).length ∧ (m = 0 ↔ count = 0 ∨ (stream s).length ≤ n) := by
  have hsize := toSizeT_natCast hn
  rw [aesdRead_eq hs, hsize]
  cases hplace : locate (lengths s) n with
  | none =>
    have hend : (stream s).length ≤ n := length_stream s ▸ locate_eq_none.mp hplace
    exact ⟨0, Nat.zero_le _, by simp, Nat.le_max_left _ _, iff_of_true rfl (Or.inr hend)⟩
  | some place =>
    obtain ⟨k, off⟩ := place
    obtain ⟨piece, hpiece, hoff, hdrop⟩ := drop_flatten_of_locate hplace
    have hin : ¬ (stream s).length ≤ n := by
      rw [length_stream, ← locate_eq_none, hplace]
      simp
    have hrest := congrArg List.length hdrop
    rw [List.length_append, List.length_drop, List.length_drop, ← stream] at hrest
    refine ⟨min count (piece.length - off), Nat.min_le_left _ _, ?_, by omega, by omega⟩
    have hdata : ((stream s).drop n).take (min count (piece.length - off)) =
        (piece.drop off).take count := by
      rw [stream, hdrop, List.take_append_of_le_length (by rw [List.length_drop]; omega),
        List.take_eq_take_iff, List.length_drop]
      omega
    have hlen : ((piece.drop off).take count).length = min count (piece.length - off) := by
      rw [List.length_take, List.length_drop]
    simp only [hpiece, Option.getD_some, hdata, hlen]
    rw [Int.natCast_add]

/-- How far the program has come that has got `d` bytes from position `p` on. -/
structure At (s : State) (p d : Nat) (r : ReadResult) : Prop where
  state : r.state = s
  fPos : r.fPos = (p + d : Nat)
  data : r.data = ((stream s).drop p).take d
  bound : p + d ≤ max p (stream s).length

/-- The next call takes the program on, by as much as it returns. -/
theorem At.step (hs : Sound s) (hlt : (stream s).length < 2 ^ 63) {p d : Nat} (hp : p < 2 ^ 63)
    {counts : Nat → Nat} {n : Nat} (h : At s p d (readTimes counts p s n)) :
    ∃ m ≤ counts n, (readTimes counts p s (n + 1)).retval = m ∧
      At s p (d + m) (readTimes counts p s (n + 1)) ∧
        (m = 0 ↔ counts n = 0 ∨ (stream s).length ≤ p + d) := by
  have hbound := h.bound
  obtain ⟨m, hm, hread, hend, hzero⟩ := aesdRead_drop hs (n := p + d) (by omega) (counts n)
  have hnext : readTimes counts p s (n + 1) = ⟨m, ((stream s).drop p).take (d + m),
      (p + d + m : Nat), s⟩ := by
    rw [readTimes, h.state, h.fPos, hread, h.data, ← List.drop_drop, ← List.take_add]
  rw [hnext]
  exact ⟨m, hm, rfl, ⟨rfl, by rw [Nat.add_assoc], rfl, by omega⟩, hzero⟩

theorem readTimes_at (hs : Sound s) (hlt : (stream s).length < 2 ^ 63) {p : Nat} (hp : p < 2 ^ 63)
    (counts : Nat → Nat) (n : Nat) : ∃ d, At s p d (readTimes counts p s n) := by
  induction n with
  | zero => exact ⟨0, rfl, rfl, rfl, Nat.le_max_left _ _⟩
  | succ n ih =>
    obtain ⟨d, hd⟩ := ih
    obtain ⟨m, -, -, hnext, -⟩ := hd.step hs hlt hp
    exact ⟨d + m, hnext⟩

/-- A program whose first `n` calls all return something has at least `n` bytes. -/
theorem length_of_positive (hs : Sound s) (hlt : (stream s).length < 2 ^ 63) {p : Nat}
    (hp : p < 2 ^ 63) {counts : Nat → Nat} {n : Nat}
    (h : ∀ k < n, 0 < (readTimes counts p s (k + 1)).retval) :
    ∃ d, n ≤ d ∧ At s p d (readTimes counts p s n) := by
  induction n with
  | zero => exact ⟨0, Nat.le_refl _, rfl, rfl, rfl, Nat.le_max_left _ _⟩
  | succ n ih =>
    obtain ⟨d, hle, hd⟩ := ih fun k hk => h k (by omega)
    obtain ⟨m, -, hret, hnext, -⟩ := hd.step hs hlt hp
    have hpos := h n (by omega)
    exact ⟨d + m, by omega, hnext⟩

/-- With buffers of at least one byte the program comes to the end. -/
theorem readsToEnd (hs : Sound s) (hlt : (stream s).length < 2 ^ 63) {p : Nat} (hp : p < 2 ^ 63)
    {counts : Nat → Nat} (hcounts : ∀ k, 1 ≤ counts k) :
    ReadsToEnd counts p s ((stream s).drop p) := by
  have hstops : ∃ n, ¬ 0 < (readTimes counts p s (n + 1)).retval := by
    by_contra hnever
    rw [not_exists] at hnever
    obtain ⟨d, hle, hd⟩ := length_of_positive hs hlt hp (n := (stream s).length + 1)
      fun k _ => not_not.mp (hnever k)
    have hbound := hd.bound
    have hlen := congrArg List.length hd.data
    obtain ⟨m, -, hret, -, hzero⟩ := hd.step hs hlt hp
    have := hnever ((stream s).length + 1)
    omega
  have hmin : ∀ k < Nat.find hstops, 0 < (readTimes counts p s (k + 1)).retval :=
    fun k hk => not_not.mp (Nat.find_min hstops hk)
  have hfirst := Nat.find_spec hstops
  obtain ⟨d, -, hd⟩ := length_of_positive hs hlt hp hmin
  obtain ⟨m, -, hret, hnext, hzero⟩ := hd.step hs hlt hp
  obtain rfl : m = 0 := by omega
  have hcount := hcounts (Nat.find hstops)
  refine ⟨Nat.find hstops, hret, hmin, hnext.data.trans (List.take_of_length_le ?_)⟩
  rw [List.length_drop]
  omega

/-- On every device the calls of a program can lead to, reading on from a position gives what is
stored from there on and comes to an end. Every call returns at most what its buffer takes, goes
on by what it returns, and returns 0 only at the end; nobody sees a pending byte. -/
theorem reads_stored (buffer : Kernel.Alloc) (dev : AesdDev) (ops : List Op)
    (hbounded : EntriesBounded (Session.start buffer dev) ops) (p : Nat) (hp : p < 2 ^ 63)
    (counts : Nat → Nat) (hcounts : ∀ k, 1 ≤ counts k) :
    let s := ((Session.start buffer dev).run ops).state
    ReadsToEnd counts p s ((stream s).drop p) ∧
      ∀ k, ∃ m ≤ counts k, (readTimes counts p s (k + 1)).retval = m ∧
        (readTimes counts p s (k + 1)).fPos = (readTimes counts p s k).fPos + m ∧
        (∃ l, l.length = m ∧
          (readTimes counts p s (k + 1)).data = (readTimes counts p s k).data ++ l) ∧
        (m = 0 → (stream s).length ≤ (readTimes counts p s k).fPos) ∧
        (readTimes counts p s (k + 1)).state = s := by
  intro s
  have hs : Sound s := run_sound (start_sound buffer dev) ops
  have hlt := stream_lt buffer dev hbounded
  refine ⟨readsToEnd hs hlt hp hcounts, fun k => ?_⟩
  obtain ⟨d, hd⟩ := readTimes_at hs hlt hp counts k
  obtain ⟨m, hm, hret, hnext, hzero⟩ := hd.step hs hlt hp
  have hcount := hcounts k
  have hbound := hnext.bound
  refine ⟨m, hm, hret, ?_, ⟨(((stream s).drop p).drop d).take m, ?_, ?_⟩, fun hm0 => ?_, hnext.state⟩
  · rw [hnext.fPos, hd.fPos, ← Nat.add_assoc, Int.natCast_add (p + d)]
  · rw [List.length_take, List.drop_drop, List.length_drop]
    omega
  · rw [hnext.data, hd.data, List.take_add]
  · rw [hd.fPos]
    omega

/-- Two lines and an unfinished one, read from the second byte on, three bytes at a time. -/
theorem reads_stored_lines : ∃ s : State, stream s = writtenCells [97, 98, 10, 99, 10] ∧
    ReadsToEnd (fun _ => 3) 1 s (writtenCells [98, 10, 99, 10]) := by
  refine ⟨((Session.start Pending.grant Pending.blank).run [.write 0 Pending.fine [97, 98, 10],
    .write 0 Pending.fine [99, 10], .write 0 Pending.fine [100]]).state, by decide, ?_⟩
  exact (reads_stored Pending.grant Pending.blank _ (by unfold EntriesBounded; decide) 1 (by decide)
    (fun _ => 3) (fun _ => by decide)).1

end Aesd.Reading
