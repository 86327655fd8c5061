import Aesd.Driver.Reading
import Aesd.Driver.Stream
import Aesd.Server.Answering

/-!
# The build with the character device

With `USE_AESD_CHAR_DEVICE` the server works on `/dev/aesdchar`. Every data
packet is one line written in one piece, so that the ring holds the newest ten
of them and nothing is pending between two writes; a seek packet moves the
position of its own descriptor and leaves the device as it is.
-/
namespace Aesd.Server

open BlockHeap Kernel CharDevice WriteEffect Ownership Position Pending Reading Aesd.Stream
open Segments Pieces CyclicSlots PartialRun

/-- The device and the number of writes so far. -/
structure Device where
  state : CharDevice.State
  writes : Nat

instance (env : WriteEnv) : Decidable (Granted env) :=
  inferInstanceAs (Decidable (env.interrupted = false ∧ env.kbuf.granted = true ∧
    env.copyFails = false ∧ env.grow.granted = true ∧ env.entry.granted = true ∧
      env.shrink.granted = true))

/-- `env k n` is what the kernel answers during the `k`-th write, which asks for `n` bytes. -/
def charDevice (env : Nat → Nat → WriteEnv) : Backing Device where
  truncate b := b
  write b p :=
    let r := aesdWrite (env b.writes p.length) p b.state
    if Granted (env b.writes p.length) ∧ r.retval = p.length then some ⟨r.state, b.writes + 1⟩
    else none
  read b pos n :=
    let r := aesdRead false false n pos b.state
    (r.data.map Cell.val, r.fPos, { b with state := r.state })
  ioctl b x y pos :=
    let r := aesdIoctl false false aesdcharIocSeekTo x y pos b.state
    if r.retval = 0 then some (r.fPos, { b with state := r.state }) else none

/-- The kernel has no block of 4 GiB to give. -/
def KmallocBounded (env : Nat → Nat → WriteEnv) : Prop :=
  ∀ k n, (env k n).kbuf.granted = true → n < 2 ^ 32

/-- The packets that are no seek commands. -/
def dataPackets (h : List (List UInt8)) : List (List UInt8) := h.filter fun p => ¬ seekPrefix <+: p

/-- What is stored: the newest ten data packets, oldest first. -/
def stored (h : List (List UInt8)) : List (List UInt8) := (dataPackets h).rtake 10

/-- Where a seek to byte `y` of packet `x` leads. -/
def seekStart (h : List (List UInt8)) (x y : Nat) : Nat := ((stored h).take x).flatten.length + y

/-- A packet is data, or names a stored byte. -/
def Fair (h : List (List UInt8)) (p : List UInt8) : Prop :=
  ¬ seekPrefix <+: p ∨ ∃ x y, IsSeekText p x y ∧ ∃ q, (stored h)[x]? = some q ∧ y < q.length

/-- The ring holds the newest data packets, one an entry, and nothing is pending. -/
def HoldsNewest (b : Device) (h : List (List UInt8)) : Prop :=
  Ownership.contents b.state = (stored h).map writtenCells ∧ pending b.state = []

/-- The device when it has been given the packets `h`. -/
structure Device.Shows (b : Device) (h : List (List UInt8)) : Prop where
  sound : Sound b.state
  represented : Represented b.state
  stream : ShowsStream b.state (dataPackets h).flatten
  lines : ∀ q ∈ dataPackets h, IsLine newline q ∧ q.length < 2 ^ 32

variable {h : List (List UInt8)} {p : List UInt8} {b : Device}

theorem dataPackets_data (hp : ¬ seekPrefix <+: p) : dataPackets (h ++ [p]) = dataPackets h ++ [p] := by
  simp [dataPackets, hp]

theorem dataPackets_seek (hp : seekPrefix <+: p) : dataPackets (h ++ [p]) = dataPackets h := by
  simp [dataPackets, hp]

theorem IsSeekText.isPrefix {x y : Nat} (hp : IsSeekText p x y) : seekPrefix <+: p := by
  obtain ⟨xs, ys, -, -, rfl⟩ := hp
  simp only [List.append_assoc]
  exact List.prefix_append _ _

/-- The lines of the stream are the data packets. -/
theorem Device.Shows.newest (hb : b.Shows h) : HoldsNewest b h := by
  obtain ⟨hseg, hrem⟩ := segments_eq_of_flatten (d := newline) (r := [])
    (fun q hq => (hb.lines q hq).1) (by simp) (List.append_nil (dataPackets h).flatten).symm
  obtain ⟨hcontents, hpending⟩ := hb.stream
  rw [show CharDevice.newline = newline from rfl] at hcontents hpending
  rw [HoldsNewest, hcontents, hpending, hseg, hrem]
  exact ⟨rfl, rfl⟩

theorem mem_stored {q : List UInt8} (hq : q ∈ stored h) : q ∈ dataPackets h :=
  List.mem_of_mem_drop (by simpa [stored, List.rtake] using hq)

theorem length_stored (h : List (List UInt8)) : (stored h).length ≤ 10 := by
  simp [stored, List.rtake]
  omega

/-- All that is stored fits a `loff_t` many times over. -/
theorem Device.Shows.length_lt (hb : b.Shows h) : (stored h).flatten.length < 2 ^ 36 := by
  have hle := length_flatten_le fun q hq => (hb.lines q (mem_stored hq)).2
  have := length_stored h
  omega

theorem Device.Shows.lengths (hb : b.Shows h) :
    Position.lengths b.state = (stored h).map List.length := by
  rw [Position.lengths, hb.newest.1, List.map_map]
  exact List.map_congr_left fun q _ => length_writtenCells q

/-- What the test for the command makes of a fair packet. -/
theorem fair_cases (hb : b.Shows h) (hfair : Fair h p) (past : List UInt8) (hline : IsLine newline p) :
    ¬ seekPrefix <+: p ∧ seekCommand (p ++ past) = none ∨
      ∃ x y q, IsSeekText p x y ∧ seekCommand (p ++ past) = some (x, y) ∧
        (stored h)[x]? = some q ∧ y < q.length := by
  rcases hfair with hdata | ⟨x, y, htext, q, hq, hy⟩
  · exact Or.inl ⟨hdata, seekCommand_data fun hp => hdata (prefix_of_line hline.mem hp)⟩
  · have hx := (List.getElem?_eq_some_iff.mp hq).1
    have hlen := length_stored h
    have hsize := (hb.lines q (mem_stored (List.mem_of_getElem? hq))).2
    exact Or.inr ⟨x, y, q, htext, seekCommand_text htext (by omega) (by omega), hq, hy⟩

/-- A fair packet that is no command is one line more. -/
theorem Device.Shows.written {env : Nat → Nat → WriteEnv} (hbounded : KmallocBounded env)
    (hb : b.Shows h) (hline : IsLine newline p) (hdata : ¬ seekPrefix <+: p) {b' : Device}
    (hwrite : (charDevice env).write b p = some b') : b'.Shows (h ++ [p]) := by
  simp only [charDevice] at hwrite
  split_ifs at hwrite with hok
  cases hwrite
  obtain ⟨hg, -⟩ := hok
  have heff := aesdWrite_effect (env b.writes p.length) p hb.sound.releasable
  have hr' : Represented (aesdWrite (env b.writes p.length) p b.state).state := by
    rw [represented_write hb.sound hb.represented heff]
    rintro (⟨-, hrefused, -⟩ | ⟨-, -, -, hrefused, -⟩)
    · simp [hg.2.2.2.1] at hrefused
    · simp [hg.2.2.2.2.2] at hrefused
  refine ⟨hb.sound.write heff, hr', ?_, fun q hq => ?_⟩
  · rw [dataPackets_data hdata, List.flatten_concat]
    exact showsStream_write hb.sound hb.represented hr' hg heff hb.stream (Nat.le_of_eq hline.count)
  · rw [dataPackets_data hdata] at hq
    rcases List.mem_append.mp hq with hq | hq
    · exact hb.lines q hq
    · obtain rfl := List.mem_singleton.mp hq
      exact ⟨hline, hbounded _ _ hg.2.1⟩

/-- A write for which the kernel has everything takes all of the packet. -/
theorem Device.Shows.granted_write {env : Nat → Nat → WriteEnv} (hb : b.Shows h)
    (hg : Granted (env b.writes p.length)) (hp : p ≠ []) :
    (charDevice env).write b p =
      some ⟨(aesdWrite (env b.writes p.length) p b.state).state, b.writes + 1⟩ := by
  obtain ⟨hi, hk, hc, hloop⟩ := hg
  have hret : (aesdWrite (env b.writes p.length) p b.state).retval = p.length := by
    cases outcome_granted hb.sound hb.represented hloop (aesdWrite_effect _ p hb.sound.releasable) with
    | rejected hr =>
      have hrefused := hr ⟨hi, hk, hc, hp⟩
      simp [hloop.1] at hrefused
    | kept _ _ hret =>
      rcases hret with ⟨-, hret⟩ | ⟨-, hrefused, -⟩
      · exact hret
      · simp [hloop.2.1] at hrefused
    | committed i _ hret => exact hret
  exact if_pos ⟨⟨hi, hk, hc, hloop⟩, hret⟩

/-- A command leaves the device as it is. -/
theorem Device.Shows.seek (hb : b.Shows h) (hp : seekPrefix <+: p) : b.Shows (h ++ [p]) where
  sound := hb.sound
  represented := hb.represented
  stream := (dataPackets_seek hp).symm ▸ hb.stream
  lines := (dataPackets_seek hp).symm ▸ hb.lines

theorem stored_seek (hp : seekPrefix <+: p) : stored (h ++ [p]) = stored h := by
  rw [stored, dataPackets_seek hp, stored]

/-- The sizes the driver adds up are those of the stored packets. -/
theorem sum_take_lengths (hb : b.Shows h) (x : Nat) :
    ((Position.lengths b.state).take x).sum = ((stored h).take x).flatten.length := by
  rw [hb.lengths, ← List.map_take, List.length_flatten]

theorem seekStart_lt {x y : Nat} {q : List UInt8} (hq : (stored h)[x]? = some q) (hy : y < q.length) :
    seekStart h x y < (stored h).flatten.length := by
  obtain ⟨hx, rfl⟩ := List.getElem?_eq_some_iff.mp hq
  have hsplit := congrArg (fun l => l.flatten.length) (List.take_append_drop (x + 1) (stored h))
  rw [List.flatten_append, List.length_append, List.take_succ_eq_append_getElem hx,
    List.flatten_concat, List.length_append] at hsplit
  rw [seekStart]
  omega

/-- The `ioctl` of a fair command goes to the byte that the packet names. -/
theorem Device.Shows.ioctl {env : Nat → Nat → WriteEnv} (hb : b.Shows h) {x y : Nat}
    {q : List UInt8} (hq : (stored h)[x]? = some q) (hy : y < q.length) {pos pos' : Int} {b' : Device}
    (hioctl : (charDevice env).ioctl b x y pos = some (pos', b')) :
    b' = b ∧ pos' = (seekStart h x y : Nat) := by
  have hsize : ((Position.lengths b.state)[x]?).getD 0 = q.length := by
    rw [hb.lengths, List.getElem?_map, hq]
    rfl
  have hlt := seekStart_lt hq hy
  have hmax := hb.length_lt
  have hpos : toLoffT (((stored h).take x).flatten.length + y : Nat) = (seekStart h x y : Nat) := by
    rw [seekStart] at hlt ⊢
    exact toLoffT_natCast (by omega)
  simp only [charDevice, aesdIoctl_eq hb.sound, hsize, if_pos hy, if_true, Option.some.injEq,
    Prod.mk.injEq] at hioctl
  obtain ⟨rfl, rfl⟩ := hioctl
  refine ⟨rfl, ?_⟩
  rw [sum_take_lengths hb]
  exact_mod_cast hpos

/-- The driver does not refuse a fair command. -/
theorem Device.Shows.fair_ioctl {env : Nat → Nat → WriteEnv} (hb : b.Shows h) {x y : Nat}
    {q : List UInt8} (hq : (stored h)[x]? = some q) (hy : y < q.length) (pos : Int) :
    (charDevice env).ioctl b x y pos = some (((seekStart h x y : Nat) : Int), b) := by
  have hsize : ((Position.lengths b.state)[x]?).getD 0 = q.length := by
    rw [hb.lengths, List.getElem?_map, hq]
    rfl
  obtain ⟨pos', b', hioctl⟩ : ∃ pos' b', (charDevice env).ioctl b x y pos = some (pos', b') := by
    simp [charDevice, aesdIoctl_eq hb.sound, hsize, if_pos hy]
  obtain ⟨rfl, rfl⟩ := hb.ioctl hq hy hioctl
  exact hioctl

/-- A `read` delivers the rest of one stored packet, or as much of it as fits the buffer. -/
theorem Device.Shows.read {env : Nat → Nat → WriteEnv} (hb : b.Shows h) {n : Nat}
    (hn : n ≤ (stored h).flatten.length) {l : List UInt8} {pos : Int} {b' : Device}
    (hread : (charDevice env).read b n fileBufSize = (l, pos, b')) :
    b' = b ∧ pos = (n + l.length : Nat) ∧ l <+: (stored h).flatten.drop n ∧
      (l = [] → (stored h).flatten.drop n = []) := by
  have hmax := hb.length_lt
  have hstream : Reading.stream b.state = writtenCells (stored h).flatten := by
    rw [Reading.stream, hb.newest.1, flatten_writtenCells]
  obtain ⟨m, -, hr, hbound, hzero⟩ := aesdRead_drop hb.sound (n := n) (by omega) fileBufSize
  rw [hstream, drop_writtenCells, take_writtenCells] at hr
  simp only [charDevice, hr, map_val_writtenCells, Prod.mk.injEq] at hread
  obtain ⟨rfl, rfl, rfl⟩ := hread
  rw [hstream, length_writtenCells] at hbound hzero
  refine ⟨rfl, ?_, List.take_prefix _ _, fun hnil => ?_⟩
  · rw [List.length_take, List.length_drop]
    omega
  · rw [List.take_eq_nil_iff] at hnil
    rcases hnil with hnil | hnil
    · rw [List.drop_eq_nil_iff]
      have := hzero.mp hnil
      simp only [fileBufSize, OfNat.ofNat_ne_zero, false_or] at this
      exact this
    · exact hnil

/-- Where the answer to the last packet begins. -/
def replyStart (h : List (List UInt8)) : Nat :=
  match h.getLast? with
  | some p => match seekCommand p with
    | some (x, y) => seekStart h x y
    | none => 0
  | none => 0

theorem replyStart_data (hp : ¬ seekPrefix <+: p) : replyStart (h ++ [p]) = 0 := by
  simp [replyStart, seekCommand_data hp]

theorem replyStart_seek {x y : Nat} (hp : IsSeekText p x y) (hx : x < 2 ^ 32) (hy : y < 2 ^ 32) :
    replyStart (h ++ [p]) = seekStart h x y := by
  have hcommand : seekCommand (p ++ []) = some (x, y) := seekCommand_text hp hx hy
  rw [List.append_nil] at hcommand
  simp [replyStart, hcommand, seekStart, stored_seek hp.isPrefix]

/-- The device as the server sees it. -/
def deviceAccount {env : Nat → Nat → WriteEnv} (hbounded : KmallocBounded env) :
    Account .driver (charDevice env) where
  Shows := Device.Shows
  Admits := Fair
  visible h := (stored h).flatten
  start := replyStart
  truncated hb := nomatch hb
  written hb hfair hpast hwrite := by
    obtain ⟨hline, past, hpast⟩ := hpast rfl
    rcases fair_cases hb hfair past hline with ⟨hdata, -⟩ | ⟨x, y, q, -, hcommand, -⟩
    · exact ⟨hb.written hbounded hline hdata hwrite, replyStart_data hdata⟩
    · simp [hpast] at hcommand
  sought hb hfair _ hline hpast hioctl := by
    obtain ⟨past, hpast⟩ := hpast
    rcases fair_cases hb hfair past hline with ⟨-, hnone⟩ | ⟨x, y, q, htext, hcommand, hq, hy⟩
    · simp [hpast] at hnone
    · cases hpast.symm.trans hcommand
      obtain ⟨rfl, rfl⟩ := hb.ioctl hq hy hioctl
      have hsize := (hb.lines q (mem_stored (List.mem_of_getElem? hq))).2
      have hx := Nat.lt_of_lt_of_le (List.getElem?_eq_some_iff.mp hq).1 (length_stored _)
      rw [replyStart_seek htext (by omega) (by omega), stored_seek htext.isPrefix]
      exact ⟨hb.seek htext.isPrefix, rfl, Nat.le_of_lt (seekStart_lt hq hy)⟩
  readOut hb hn hread := by
    obtain ⟨rfl, hdelivered⟩ := hb.read hn hread
    exact ⟨hb, hdelivered⟩

theorem IsSeekText.unique {x y x' y' : Nat} (hp : IsSeekText p x y) (hp' : IsSeekText p x' y') :
    x = x' ∧ y = y' := by
  obtain ⟨xs, ys, ⟨-, hxs, rfl⟩, ⟨-, hys, rfl⟩, rfl⟩ := hp
  obtain ⟨xs', ys', ⟨-, hxs', rfl⟩, ⟨-, hys', rfl⟩, heq⟩ := hp'
  simp only [List.append_assoc, List.append_cancel_left_eq, List.cons_append, List.nil_append] at heq
  have hx := takeWhile_digits (ys ++ [10]) hxs (show isDigit 44 = false by decide)
  rw [heq] at hx
  have hx' := takeWhile_digits (ys' ++ [10]) hxs' (show isDigit 44 = false by decide)
  obtain rfl : xs = xs' := hx.1.symm.trans hx'.1
  have hrest := hx.2.symm.trans hx'.2
  obtain rfl : ys = ys' := by simpa using hrest
  exact ⟨rfl, rfl⟩

/-- What the device and the clients hold after a run. -/
structure OnDevice (tr : List Event) (w : World (Disk Device)) : Prop where
  stored : HoldsNewest w.os.store (packets tr) ∨
    w.mutex ≠ none ∧ HoldsNewest w.os.store (packets tr).dropLast
  /-- a command changes nothing -/
  kept : ∀ h p, packets tr = h ++ [p] → seekPrefix <+: p → HoldsNewest w.os.store h
  recorded : Recorded tr w
  count : ∀ i, (answers (project (.client i) tr)).length = (recordsOf (.client i) tr).length
  data : ∀ i S p S', sections tr = S ++ (.client i, p) :: S' → ¬ seekPrefix <+: p →
    AnsweredWith tr w i S S' (Server.stored (S.map Prod.snd ++ [p])).flatten
  seek : ∀ i S p S' x y, sections tr = S ++ (.client i, p) :: S' → IsSeekText p x y →
    AnsweredWith tr w i S S'
      ((Server.stored (S.map Prod.snd)).flatten.drop (seekStart (S.map Prod.snd) x y))

/-- Every packet for which the mutex was taken was fair at that moment. -/
def FairRun (tr : List Event) : Prop := ∀ h p rest, packets tr = h ++ p :: rest → Fair h p

/-- The lengths of the packets before the last section are bounded, whoever holds the mutex. -/
theorem length_of_split {tr : List Event} {d : Disk Device} {h rest : List (List UInt8)}
    (hshown : d.store.Shows (packets tr) ∨ d.store.Shows (packets tr).dropLast)
    (hsplit : packets tr = h ++ p :: rest) {q : List UInt8} (hq : q ∈ dataPackets h) :
    q.length < 2 ^ 32 := by
  have hmem : q ∈ dataPackets (packets tr).dropLast := by
    rw [hsplit, List.dropLast_append_cons, dataPackets, List.filter_append]
    exact List.mem_append_left _ hq
  rcases hshown with hb | hb
  · exact (hb.lines q (((List.dropLast_sublist _).filter _).subset hmem)).2
  · exact (hb.lines q hmem).2

theorem start_shows (buffer : Alloc) (dev : AesdDev) :
    (⟨(Session.start buffer dev).state, 0⟩ : Device).Shows [] :=
  ⟨start_sound buffer dev, (start_clean buffer dev).1, start_showsStream buffer dev,
    by simp [dataPackets]⟩

/-- On a freshly loaded device, in every state of every run in which no call fails and every
command names a stored byte: the ring holds the newest ten data packets, the answer to a data
packet is what is stored then, and the answer to a command is the same from the named byte on. -/
theorem device_serves {env : Nat → Nat → WriteEnv} (hbounded : KmallocBounded env) (buffer : Alloc)
    (dev : AesdDev) (files : Nat → Option Int) (tr : List Event) (w : World (Disk Device))
    (h : run (World.step .driver (storage (charDevice env)))
      (World.start .driver ⟨⟨(Session.start buffer dev).state, 0⟩, files⟩) tr = some w)
    (hfair : FairRun tr) : OnDevice tr w := by
  have hrecorded := recorded_of_run h fun tid => run_project_succeeds h tid
  have hgoing := run_going (deviceAccount hbounded) (d := ⟨⟨(Session.start buffer dev).state, 0⟩, files⟩)
    (fun _ => start_shows buffer dev) h hfair
  rcases hgoing with ⟨hb, -⟩ | hg
  · exact absurd hb nofun
  · have hshown : w.os.store.Shows (packets tr) ∨
        w.mutex ≠ none ∧ w.os.store.Shows (packets tr).dropLast := hg.shown
    refine ⟨hshown.imp Device.Shows.newest (And.imp_right Device.Shows.newest),
      fun h p hlast hp => ?_, hrecorded, hg.answered.count, fun i S p S' hsplit hdata => ?_,
      fun i S p S' x y hsplit htext => ?_⟩
    · rw [hlast, List.dropLast_concat] at hshown
      rcases hshown with hb | ⟨-, hb⟩
      · simpa only [HoldsNewest, stored_seek hp] using hb.newest
      · exact hb.newest
    · have hanswer := hg.answered.answer i S p S' hsplit
      simpa [Account.reply, deviceAccount, replyStart_data hdata] using hanswer
    · have hanswer := hg.answered.answer i S p S' hsplit
      have hpackets : packets tr = S.map Prod.snd ++ p :: S'.map Prod.snd := by
        simp [packets, hsplit]
      rcases hfair _ _ _ hpackets with hdata | ⟨x', y', htext', q, hq, hy⟩
      · exact absurd htext.isPrefix hdata
      · obtain ⟨rfl, rfl⟩ := htext.unique htext'
        have hsize := length_of_split (hshown.imp_right And.right) hpackets
          (mem_stored (List.mem_of_getElem? hq))
        have hx := Nat.lt_of_lt_of_le (List.getElem?_eq_some_iff.mp hq).1 (length_stored _)
        have hreply := replyStart_seek (h := S.map Prod.snd) htext (by omega) (by omega)
        simpa [Account.reply, deviceAccount, hreply, stored_seek htext.isPrefix] using hanswer

theorem charDevice_bounded (env : Nat → Nat → WriteEnv) : (charDevice env).Bounded := by
  intro b pos n l q b' hread
  obtain rfl : (aesdRead false false n pos b.state).data.map Cell.val = l := congrArg Prod.fst hread
  rw [List.length_map]
  unfold aesdRead
  split
  · exact Nat.zero_le _
  · split
    · exact Nat.zero_le _
    · simp only [Bool.false_eq_true, false_and, if_false]
      exact (List.length_take_le _ _).trans (Nat.min_le_left _ _)

/-- A section is blocked by no answer of the device, and the holder unlocks before it has made two
calls for every byte of its answer and eight more. -/
theorem device_answering {env : Nat → Nat → WriteEnv} (hbounded : KmallocBounded env) {buffer : Alloc}
    {dev : AesdDev} {files : Nat → Option Int} {tr : List Event} {w : World (Disk Device)}
    (h : run (World.step .driver (storage (charDevice env)))
      (World.start .driver ⟨⟨(Session.start buffer dev).state, 0⟩, files⟩) tr = some w)
    (hfair : FairRun tr) {tid : Tid} (hm : w.mutex = some tid) :
    Answering (deviceAccount hbounded) tr w tid :=
  run_answering (deviceAccount hbounded) (d := ⟨⟨(Session.start buffer dev).state, 0⟩, files⟩)
    (charDevice_bounded env) (fun _ => start_shows buffer dev) h hfair hm

/-- `kmalloc` with a largest size. -/
def smallBlocks (_ n : Nat) : WriteEnv :=
  { fine with kbuf := ⟨decide (n < 2 ^ 32), fun _ => 0⟩ }

theorem device_serves_two : ∃ w, run (World.step .driver (storage (charDevice smallBlocks)))
    (World.start .driver ⟨⟨(Session.start grant blank).state, 0⟩, fun _ => none⟩) twoServed =
      some w ∧ OnDevice twoServed w := by
  obtain ⟨w, hw⟩ := Option.isSome_iff_exists.mp (show
    (run (World.step .driver (storage (charDevice smallBlocks)))
      (World.start .driver ⟨⟨(Session.start grant blank).state, 0⟩, fun _ => none⟩)
        twoServed).isSome = true by decide +kernel)
  refine ⟨w, hw, device_serves (fun k n hn => of_decide_eq_true hn) grant blank _ twoServed w hw ?_⟩
  have hpackets : packets twoServed = [[97, 98, 10], seekPrefix ++ [48, 44, 49, 10]] := by decide +kernel
  intro h p rest hsplit
  rw [hpackets] at hsplit
  match h with
  | [] =>
    obtain ⟨rfl, -⟩ := List.cons.inj hsplit
    exact Or.inl (by decide)
  | [q] =>
    obtain ⟨rfl, hrest⟩ := List.cons.inj hsplit
    obtain ⟨rfl, -⟩ := List.cons.inj hrest
    exact Or.inr ⟨0, 1, ⟨[48], [49], by decide, by decide, rfl⟩, [97, 98, 10], by decide, by decide⟩
  | _ :: _ :: _ => simp at hsplit

end Aesd.Server
