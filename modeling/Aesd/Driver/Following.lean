import Aesd.Driver.Reading

/-!
# A reader beside the writers

A file that is read while others write, read and seek. All entries ever
committed form one stream, of which the ring keeps the end; a reader goes along
the stream, and loses only what is evicted before it comes there.
-/
namespace Aesd.Following

open BlockHeap CharDevice Ownership Position Reading CircularBuffer

/-- The entries ever committed, one after the other. -/
def committed (x : Session) (ops : List Op) : List (Cell UInt8) :=
  (x.observe Session.added ops).flatten

/-- The bytes of all entries but the newest ten. -/
def evicted (x : Session) (ops : List Op) : Nat :=
  ((x.observe Session.added ops).take ((x.observe Session.added ops).length - 10)).flatten.length

/-- What a call delivers to the reader of this file. -/
def deliveredTo (file : Nat) (x : Session) : Op → List (Cell UInt8)
  | .read f interrupted copyFails count =>
    if f = file then x.delivered (.read f interrupted copyFails count) else []
  | _ => []

def got (file : Nat) (x : Session) (ops : List Op) : List (Cell UInt8) :=
  x.observe (deliveredTo file) ops

/-- The call may move the position of this file without reading. -/
def seeks (file : Nat) : Op → Bool
  | .llseek f _ _ _ | .ioctl f _ _ _ _ _ => f = file
  | _ => false

/-- How far the reader of a file has come: its position counts what it has got, which is part of
the stream, in order; and while nothing is evicted it is the beginning of the stream. -/
structure Follows (file : Nat) (x : Session) (ops : List Op) : Prop where
  position : (x.run ops).fPos file = (got file x ops).length
  ordered : (got file x ops).Sublist
    ((committed x ops).take (evicted x ops + (got file x ops).length))
  complete : (x.observe Session.added ops).length ≤ 10 →
    got file x ops = (committed x ops).take (got file x ops).length

variable {s : State} {x : Session} {file : Nat} {ops : List Op}

/-- The ring keeps the newest ten entries. -/
theorem contents_run (hs : Sound x.state) (hempty : contents x.state = []) (ops : List Op) :
    contents (x.run ops).state = (x.observe Session.added ops).rtake 10 := by
  induction ops using List.reverseRecOn with
  | nil => simp [hempty, List.rtake]
  | append_singleton ops op ih =>
    have hops := run_sound hs ops
    rw [Session.run_concat, apply_state hops, Session.observe_concat]
    cases op with
    | write file env buf =>
      have heff := WriteEffect.aesdWrite_effect env buf hops.releasable
      rw [hops.contents_write heff, ih, CyclicSlots.rtake_rtake_append]
      rfl
    | read | llseek | ioctl =>
      simp only [Session.added, List.append_nil]
      exact ih

/-- What is stored is the stream without what has been evicted. -/
theorem stream_run (hs : Sound x.state) (hempty : contents x.state = []) (ops : List Op) :
    stream (x.run ops).state = (committed x ops).drop (evicted x ops) := by
  have hcut : committed x ops =
      ((x.observe Session.added ops).take ((x.observe Session.added ops).length - 10)).flatten ++
        ((x.observe Session.added ops).drop ((x.observe Session.added ops).length - 10)).flatten := by
    rw [← List.flatten_append, List.take_append_drop, committed]
  rw [stream, contents_run hs hempty, hcut, evicted, List.drop_left, List.rtake]

theorem committed_concat (x : Session) (ops : List Op) (op : Op) :
    committed x (ops ++ [op]) = committed x ops ++ ((x.run ops).added op).flatten := by
  rw [committed, Session.observe_concat, List.flatten_append, committed]

/-- Nothing that has been evicted comes back. -/
theorem evicted_concat (x : Session) (ops : List Op) (op : Op) :
    evicted x ops ≤ evicted x (ops ++ [op]) := by
  have hprefix : (x.observe Session.added ops).take ((x.observe Session.added ops).length - 10) <+:
      (x.observe Session.added (ops ++ [op])).take
        ((x.observe Session.added (ops ++ [op])).length - 10) := by
    rw [Session.observe_concat]
    refine List.prefix_take_iff.mpr ⟨(List.take_prefix _ _).trans (List.prefix_append _ _), ?_⟩
    rw [List.length_take, List.length_append]
    omega
  obtain ⟨rest, hrest⟩ := hprefix
  rw [evicted, evicted, ← hrest, List.flatten_append, List.length_append]
  exact Nat.le_add_right _ _

/-- A read that is stopped delivers nothing and stays where it is. -/
theorem read_cases (s : State) (interrupted copyFails : Bool) (count : Nat) (fPos : Int) :
    aesdRead interrupted copyFails count fPos s = aesdRead false false count fPos s ∨
      (interrupted = true ∨ copyFails = true) ∧ (aesdRead interrupted copyFails count fPos s).data = [] ∧
        (aesdRead interrupted copyFails count fPos s).fPos = fPos := by
  cases interrupted with
  | true => exact Or.inr ⟨Or.inl rfl, rfl, rfl⟩
  | false =>
    cases copyFails with
    | false => exact Or.inl rfl
    | true =>
      simp only [aesdRead, mutexLockInterruptible, Bool.false_eq_true, if_false]
      cases aesdCircularBufferFindEntryOffsetForFpos s.dev.circBuffer (toSizeT fPos) with
      | none => exact Or.inl rfl
      | some place =>
        obtain ⟨idx, off⟩ := place
        by_cases hz : min count ((s.dev.circBuffer.entry idx).size - off) = 0
        · exact Or.inl (by simp [hz])
        · exact Or.inr ⟨Or.inr trivial, by simp [hz], by simp [hz]⟩

/-- One read of a reader that has got `d` bytes: the next bytes of the stream behind them and
behind everything evicted. -/
theorem read_piece (ops : List Op) (hs : Sound x.state) (hempty : contents x.state = []) {d : Nat}
    (hd : d < 2 ^ 63) (interrupted copyFails : Bool) (count : Nat) :
    ∃ m ≤ count, ∃ l, aesdRead interrupted copyFails count d (x.run ops).state =
        ⟨(aesdRead interrupted copyFails count d (x.run ops).state).retval, l, (d + m : Nat),
          (x.run ops).state⟩ ∧
      l = ((committed x ops).drop (evicted x ops + d)).take m ∧ l.length = m ∧
      d + m ≤ max d (stream (x.run ops).state).length ∧
      (m = 0 → interrupted = true ∨ copyFails = true ∨ count = 0 ∨
        (committed x ops).length ≤ evicted x ops + d) := by
  have hops := run_sound hs ops
  have hstream := stream_run hs hempty ops
  have hlen := congrArg List.length hstream
  rw [List.length_drop] at hlen
  have hstate := (aesdRead_stopped hops interrupted copyFails count d).1
  rcases read_cases (x.run ops).state interrupted copyFails count d with hsame | ⟨hstop, hdata, hfpos⟩
  · obtain ⟨m, hm, hread, hend, hzero⟩ := aesdRead_drop hops (n := d) (by omega) count
    refine ⟨m, hm, ((stream (x.run ops).state).drop d).take m, by rw [hsame, hread], ?_, ?_, hend, ?_⟩
    · rw [hstream, List.drop_drop]
    · rw [List.length_take, List.length_drop]
      omega
    · intro hm0
      rcases hzero.mp hm0 with hcount | hover
      · exact Or.inr (Or.inr (Or.inl hcount))
      · exact Or.inr (Or.inr (Or.inr (by omega)))
  · refine ⟨0, Nat.zero_le _, [], ?_, by simp, rfl, Nat.le_max_left _ _, fun _ => ?_⟩
    · cases hr : aesdRead interrupted copyFails count d (x.run ops).state with
      | mk retval data fPos state =>
        rw [hr] at hdata hfpos hstate
        simp only at hdata hfpos hstate
        rw [hdata, hfpos, hstate, Nat.add_zero]
    · rcases hstop with h | h
      · exact Or.inl h
      · exact Or.inr (Or.inl h)

/-- The beginning of a stream is part of a longer beginning of a longer stream. -/
theorem take_sublist_take {α : Type} (l r : List α) {a b : Nat} (h : a ≤ b) :
    (l.take a).Sublist ((l ++ r).take b) := by
  refine (List.prefix_take_iff.mpr ⟨(List.take_prefix a l).trans (List.prefix_append l r), ?_⟩).sublist
  exact (List.length_take_le a l).trans h

/-- A call that brings the reader nothing and leaves its position alone. -/
theorem Follows.kept {op : Op} (h : Follows file x ops)
    (hpos : (x.run (ops ++ [op])).fPos file = (x.run ops).fPos file)
    (hnone : deliveredTo file (x.run ops) op = []) :
    Follows file x (ops ++ [op]) ∧ got file x (ops ++ [op]) = got file x ops := by
  obtain ⟨hposition, hordered, hcomplete⟩ := h
  have hgot : got file x (ops ++ [op]) = got file x ops := by
    rw [got, Session.observe_concat, hnone, List.append_nil, got]
  refine ⟨⟨by rw [hpos, hposition, hgot], ?_, fun hten => ?_⟩, hgot⟩
  · rw [hgot, committed_concat]
    exact hordered.trans
      (take_sublist_take _ _ (Nat.add_le_add_right (evicted_concat x ops op) _))
  · rw [Session.observe_concat, List.length_append] at hten
    have hall := hcomplete (by omega)
    have hlen := congrArg List.length hall
    rw [List.length_take] at hlen
    rw [hgot, committed_concat, List.take_append_of_le_length (by omega)]
    exact hall

/-- Below eleven entries nothing is evicted. -/
theorem evicted_eq_zero (h : (x.observe Session.added ops).length ≤ 10) : evicted x ops = 0 := by
  rw [evicted, Nat.sub_eq_zero_of_le h, List.take_zero]
  rfl

/-- The reader of a file that nobody seeks in, whatever all the others do. -/
theorem follows_run (hs : Sound x.state) (hempty : contents x.state = []) (hstart : x.fPos file = 0)
    (hlt : ∀ pre, pre <+: ops → (stream (x.run pre).state).length < 2 ^ 63)
    (hseeks : ∀ op ∈ ops, seeks file op = false) :
    Follows file x ops ∧ (got file x ops).length < 2 ^ 63 := by
  induction ops using List.reverseRecOn with
  | nil => exact ⟨⟨by simp [hstart, got], by simp [got], by simp [got]⟩, by simp [got]⟩
  | append_singleton ops op ih =>
    obtain ⟨hfollows, hbound⟩ := ih (fun pre hp => hlt pre (hp.trans (List.prefix_append _ _)))
      fun op hop => hseeks op (List.mem_append_left _ hop)
    have hkept : (x.run (ops ++ [op])).fPos file = (x.run ops).fPos file →
        deliveredTo file (x.run ops) op = [] →
          Follows file x (ops ++ [op]) ∧ (got file x (ops ++ [op])).length < 2 ^ 63 := by
      intro hpos hnone
      obtain ⟨hnext, hgot⟩ := hfollows.kept hpos hnone
      exact ⟨hnext, hgot ▸ hbound⟩
    have hseek : seeks file op = false := hseeks op (by simp)
    cases op with
    | write f env buf => exact hkept (by rw [Session.run_concat]; rfl) rfl
    | llseek f interrupted off whence =>
      have hf : file ≠ f := by
        rintro rfl
        simp [seeks] at hseek
      refine hkept ?_ rfl
      rw [Session.run_concat, Session.apply]
      cases aesdLlseek interrupted off whence ((x.run ops).fPos f) (x.run ops).state with
      | none => rfl
      | some r => exact Function.update_of_ne hf _ _
    | ioctl f copyFails interrupted cmd writeCmd writeCmdOffset =>
      have hf : file ≠ f := by
        rintro rfl
        simp [seeks] at hseek
      refine hkept ?_ rfl
      rw [Session.run_concat]
      exact Function.update_of_ne hf _ _
    | read f interrupted copyFails count =>
      by_cases hf : f = file
      · subst hf
        obtain ⟨hposition, hordered, hcomplete⟩ := hfollows
        obtain ⟨m, -, l, hread, hl, hlength, hend, -⟩ := read_piece ops hs hempty hbound interrupted
          copyFails count
        rw [← hposition] at hread
        have hgot : got f x (ops ++ [.read f interrupted copyFails count]) = got f x ops ++ l := by
          rw [got, Session.observe_concat, deliveredTo, if_pos rfl, Session.delivered, hread, got]
        have hadded : x.observe Session.added (ops ++ [.read f interrupted copyFails count]) =
            x.observe Session.added ops := by
          rw [Session.observe_concat]
          exact List.append_nil _
        have hsame : committed x (ops ++ [.read f interrupted copyFails count]) = committed x ops := by
          rw [committed, hadded, committed]
        have hsame' : evicted x (ops ++ [.read f interrupted copyFails count]) = evicted x ops := by
          rw [evicted, hadded, evicted]
        have hmore := hlt ops (List.prefix_append _ _)
        refine ⟨⟨?_, ?_, fun hten => ?_⟩, ?_⟩
        · rw [Session.run_concat, Session.apply, hread, hgot, List.length_append, hlength]
          exact Function.update_self _ _ _
        · rw [hgot, hsame, hsame', List.length_append, hlength, ← Nat.add_assoc, List.take_add, hl]
          exact hordered.append (List.Sublist.refl _)
        · rw [hadded] at hten
          rw [hgot, hsame, List.length_append, hlength, List.take_add, ← hcomplete hten, hl,
            evicted_eq_zero hten, Nat.zero_add]
        · rw [hgot, List.length_append, hlength]
          omega
      · refine hkept ?_ (if_neg hf)
        rw [Session.run_concat]
        exact Function.update_of_ne (Ne.symm hf) _ _

theorem prefix_observe {β : Type} (f : Session → Op → List β) (x : Session) {pre : List Op}
    (h : pre <+: ops) : x.observe f pre <+: x.observe f ops := by
  obtain ⟨post, rfl⟩ := h
  induction post using List.reverseRecOn with
  | nil => simp
  | append_singleton post op ih =>
    rw [← List.append_assoc, Session.observe_concat]
    exact ih.trans (List.prefix_append _ _)

/-- The streams of all moments of a run fit a `loff_t`. -/
theorem stream_lt_prefix (buffer : Kernel.Alloc) (dev : AesdDev)
    (h : EntriesBounded (Session.start buffer dev) ops) {pre : List Op} (hp : pre <+: ops) :
    (stream ((Session.start buffer dev).run pre).state).length < 2 ^ 63 := by
  exact stream_lt buffer dev fun entry he => h entry ((prefix_observe _ _ hp).subset he)

/-- Whatever writers, other readers and failing calls do in between, the reader of a file that
nobody seeks in gets bytes of the stream, each at most once and in their order; as long as no
more than ten entries are committed it gets the beginning of the stream without a gap. -/
theorem reader_follows (buffer : Kernel.Alloc) (dev : AesdDev) (ops : List Op) (file : Nat)
    (hbounded : EntriesBounded (Session.start buffer dev) ops)
    (hseeks : ∀ op ∈ ops, seeks file op = false) : Follows file (Session.start buffer dev) ops :=
  (follows_run (start_sound buffer dev) (start_contents buffer dev) rfl
    (fun _ hp => stream_lt_prefix buffer dev hbounded hp) hseeks).1

/-- Two lines with a read of three bytes after each. -/
def twoLines : List Op :=
  [.write 0 Pending.fine [97, 10], .read 1 false false 3, .write 0 Pending.fine [98, 10],
    .read 1 false false 3]

theorem reader_follows_lines : Follows 1 (Session.start Pending.grant Pending.blank) twoLines :=
  reader_follows Pending.grant Pending.blank twoLines 1 (by unfold EntriesBounded; decide) (by decide)

/-- The next read goes on behind the bytes the reader has got and behind all that has been evicted
meanwhile; it delivers nothing only if it is stopped, for an empty buffer or at the end. -/
theorem read_resumes (buffer : Kernel.Alloc) (dev : AesdDev) (ops : List Op) (file : Nat)
    (hbounded : EntriesBounded (Session.start buffer dev) ops)
    (hseeks : ∀ op ∈ ops, seeks file op = false) (interrupted copyFails : Bool) (count : Nat) :
    let x := Session.start buffer dev
    let next := evicted x ops + (got file x ops).length
    let l := (x.run ops).delivered (.read file interrupted copyFails count)
    l.length ≤ count ∧ l = ((committed x ops).drop next).take l.length ∧
      (l = [] → interrupted = true ∨ copyFails = true ∨ count = 0 ∨
        (committed x ops).length ≤ next) := by
  intro x next l
  have hs := start_sound buffer dev
  have hempty := start_contents buffer dev
  obtain ⟨hfollows, hlt⟩ := follows_run hs hempty rfl
    (fun _ hp => stream_lt_prefix buffer dev hbounded hp) hseeks
  obtain ⟨m, hm, data, hread, hdata, hlength, -, hnone⟩ :=
    read_piece ops hs hempty hlt interrupted copyFails count
  rw [← hfollows.position] at hread
  have hl : l = data := congrArg ReadResult.data hread
  rw [hl, hlength]
  refine ⟨hm, hdata, fun hnil => hnone ?_⟩
  rw [← hlength, hnil]
  rfl

/-- Eleven lines, of which the first is gone before the reader comes. -/
theorem read_resumes_evicted :
    ((Session.start Pending.grant Pending.blank).run
      (List.replicate 11 (.write 0 Pending.fine [97, 10]))).delivered
        (.read 1 false false 3) ≠ [] := by
  intro hnil
  have h := read_resumes Pending.grant Pending.blank
    (List.replicate 11 (.write 0 Pending.fine [97, 10])) 1
    (by unfold EntriesBounded; decide +kernel) (by decide) false false 3
  have hlen := h.2.2 hnil
  revert hlen
  decide +kernel

end Aesd.Following
