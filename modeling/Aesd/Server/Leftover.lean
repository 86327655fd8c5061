import Aesd.Server.Framing

/-!
# Leftovers in the packet buffer

`sscanf` is not told where the packet ends, and white space does not stop it:
not even the newline. A packet whose numbers are still to come at its end is
read on in the bytes of an earlier one.
-/
namespace Aesd.Server

open Segments PartialRun

/-- `sscanf` is still looking for a number when it has gone through the packet. -/
def Unfinished (packet : List UInt8) : Prop :=
  ∃ rest, packet = seekPrefix ++ rest ∧ (rest.all isSpace = true ∨
    ∃ x rest', scanInt rest = some (x, 44 :: rest') ∧ rest'.all isSpace = true)

/-- A byte at which a scan stops: what lies behind the text does not matter. -/
theorem stops_append {p : UInt8 → Bool} {text : List UInt8} {b : UInt8} (hb : b ∈ text)
    (hp : p b = false) (past : List UInt8) : (text ++ past).takeWhile p = text.takeWhile p ∧
      (text ++ past).dropWhile p = text.dropWhile p ++ past ∧ text.dropWhile p ≠ [] := by
  induction text with
  | nil => cases hb
  | cons a text ih =>
    cases ha : p a with
    | false => simp [ha]
    | true =>
      have hmem : b ∈ text := by
        rcases List.mem_cons.mp hb with rfl | h
        · simp [hp] at ha
        · exact h
      simpa [ha] using ih hmem

theorem scanSign_append {text : List UInt8} (h : text ≠ []) (past : List UInt8) :
    scanSign (text ++ past) = ((scanSign text).1, (scanSign text).2 ++ past) := by
  obtain ⟨a, text, rfl⟩ := List.exists_cons_of_ne_nil h
  rw [List.cons_append]
  unfold scanSign
  split
  · rename_i heq
    cases heq
    rfl
  · rename_i heq
    cases heq
    rfl
  · split <;> simp_all

theorem scanSign_suffix (text : List UInt8) : (scanSign text).2 <:+ text := by
  unfold scanSign
  split
  · exact List.suffix_cons _ _
  · exact List.suffix_cons _ _
  · exact List.suffix_rfl

/-- The newline is no sign. -/
theorem scanSign_mem {text : List UInt8} (h : newline ∈ text) : newline ∈ (scanSign text).2 := by
  unfold scanSign
  split
  · simpa [newline] using h
  · simpa [newline] using h
  · exact h

/-- The number begins in the line, so that the newline ends it. -/
theorem scanInt_line {text : List UInt8} (hline : IsLine newline text) (hspace : text.all isSpace = false)
    (past : List UInt8) : scanInt (text ++ past) = (scanInt text).map (fun p => (p.1, p.2 ++ past)) ∧
      ∀ x rest, scanInt text = some (x, rest) → IsLine newline rest := by
  obtain ⟨b, hb, hnot⟩ := List.all_eq_false.mp hspace
  obtain ⟨-, hdrop, hne⟩ := stops_append (p := isSpace) hb (by simpa using hnot) past
  have hrest := hline.suffix (List.dropWhile_suffix isSpace) hne
  obtain ⟨htake, hdrop', hne'⟩ := stops_append (p := isDigit)
    (scanSign_mem hrest.mem) (by decide) past
  have hline' := hrest.suffix ((List.dropWhile_suffix isDigit).trans (scanSign_suffix _)) hne'
  constructor
  · simp only [scanInt, hdrop, scanSign_append hne, htake, hdrop']
    split_ifs <;> rfl
  · intro x rest hscan
    simp only [scanInt] at hscan
    split_ifs at hscan
    cases hscan
    exact hline'

/-- Behind white space the scan goes on. -/
theorem scanInt_space {text : List UInt8} (hspace : text.all isSpace = true) (past : List UInt8) :
    scanInt (text ++ past) = scanInt past := by
  have hall : ∀ b ∈ text, isSpace b = true := by simpa using hspace
  simp only [scanInt, List.dropWhile_append_of_pos hall]

theorem seekCommand_prefixed (rest : List UInt8) : seekCommand (seekPrefix ++ rest) =
    (scanPair rest).map fun (x, y) => (toUInt32 x, toUInt32 y) := by
  rw [seekCommand, if_pos, List.drop_left]
  rw [strncmp_eq_zero (Nat.le_refl _) (by decide)]
  simp

/-- What follows the name in a line is a line. -/
theorem line_behind_name {rest : List UInt8} (hline : IsLine newline (seekPrefix ++ rest)) :
    IsLine newline rest := by
  refine hline.suffix (List.suffix_append _ _) ?_
  rintro rfl
  exact absurd hline.mem (by decide)

theorem scanPair_none {text : List UInt8} (h : scanInt text = none) : scanPair text = none := by
  rw [scanPair, h]

theorem scanPair_comma {text behind : List UInt8} {x : Int} (h : scanInt text = some (x, 44 :: behind)) :
    scanPair text = (scanInt behind).map fun p => (x, p.1) := by
  simp only [scanPair, h]
  cases scanInt behind <;> rfl

theorem scanPair_other {text behind : List UInt8} {x : Int} {b : UInt8}
    (h : scanInt text = some (x, b :: behind)) (hb : b ≠ 44) : scanPair text = none := by
  rw [scanPair, h]
  split <;> simp_all

/-- A finished packet decides what it is. -/
theorem seekCommand_finished {packet : List UInt8} (hline : IsLine newline packet)
    (hfinished : ¬ Unfinished packet) (past : List UInt8) :
    seekCommand (packet ++ past) = seekCommand packet := by
  by_cases hp : seekPrefix <+: packet
  · obtain ⟨rest, rfl⟩ := hp
    have hspace : rest.all isSpace = false :=
      Bool.eq_false_iff.mpr fun hall => hfinished ⟨rest, rfl, Or.inl hall⟩
    obtain ⟨hscan, hline'⟩ := scanInt_line (line_behind_name hline) hspace past
    rw [List.append_assoc, seekCommand_prefixed, seekCommand_prefixed]
    congr 1
    cases hfirst : scanInt rest with
    | none =>
      rw [hfirst] at hscan
      rw [scanPair_none hscan, scanPair_none hfirst]
    | some p =>
      obtain ⟨x, behind⟩ := p
      have hbehind := hline' x behind hfirst
      obtain ⟨b, behind, rfl⟩ := List.exists_cons_of_ne_nil hbehind.ne_nil
      rw [hfirst, Option.map_some, List.cons_append] at hscan
      by_cases hb : b = 44
      · subst hb
        have hspace' : behind.all isSpace = false :=
          Bool.eq_false_iff.mpr fun hall => hfinished ⟨rest, rfl, Or.inr ⟨x, behind, hfirst, hall⟩⟩
        have hne : behind ≠ [] := by
          rintro rfl
          simp at hspace'
        have hsecond := (scanInt_line (hbehind.suffix (List.suffix_cons _ _) hne) hspace' past).1
        rw [scanPair_comma hscan, scanPair_comma hfirst, hsecond, Option.map_map]
        rfl
      · rw [scanPair_other hscan hb, scanPair_other hfirst hb]
  · rw [seekCommand_data fun h => hp (prefix_of_line hline.mem h), seekCommand_data hp]

theorem scanInt_one (past : List UInt8) : scanInt (49 :: 44 :: past) = some (1, 44 :: past) :=
  scanInt_digits (List.cons_ne_nil 49 []) (by decide) (by decide)

theorem scanInt_letter (past : List UInt8) : scanInt (97 :: past) = none := by
  simp [scanInt, isSpace, scanSign, isDigit]

theorem scanPair_congr {text text' : List UInt8} (h : scanInt text = scanInt text') :
    scanPair text = scanPair text' := by
  rw [scanPair, scanPair, h]

/-- An unfinished packet is a command if numbers follow it in memory, and data if a letter does. -/
theorem seekCommand_unfinished {packet : List UInt8} (hline : IsLine newline packet)
    (h : Unfinished packet) (past : List UInt8) :
    (seekCommand (packet ++ (49 :: 44 :: 49 :: 10 :: past))).isSome = true ∧
      seekCommand (packet ++ (97 :: past)) = none := by
  have hone : scanInt (49 :: 10 :: past) = some (1, 10 :: past) :=
    scanInt_digits (List.cons_ne_nil 49 []) (by decide) (by decide)
  obtain ⟨rest, rfl, hspace | ⟨x, behind, hfirst, hspace⟩⟩ := h
  · simp only [List.append_assoc, seekCommand_prefixed]
    constructor
    · rw [scanPair_congr (scanInt_space hspace _), scanPair_comma (scanInt_one _), hone]
      rfl
    · rw [scanPair_none ((scanInt_space hspace _).trans (scanInt_letter past))]
      rfl
  · have hspace' : rest.all isSpace = false := by
      refine Bool.eq_false_iff.mpr fun hall => ?_
      have hnone := scanInt_space hall []
      rw [List.append_nil, hfirst] at hnone
      cases hnone
    have hscan : ∀ past, scanInt (rest ++ past) = some (x, 44 :: (behind ++ past)) := fun past => by
      rw [(scanInt_line (line_behind_name hline) hspace' past).1, hfirst]
      rfl
    simp only [List.append_assoc, seekCommand_prefixed]
    constructor
    · rw [scanPair_comma (hscan _), scanInt_space hspace, scanInt_one]
      rfl
    · rw [scanPair_comma (hscan _), scanInt_space hspace, scanInt_letter]
      rfl

variable {c : Conn}

/-- The handler makes room for one byte; what lay in the block stays there. -/
theorem room_made (build : Build) (hpc : c.pc = .nextByte) (hbuf : c.buf ≠ []) (hf : Fits c) :
    ∃ mem junk, Reaches (Conn.step build) c { c with
        pc := .store
        packetBuf := some mem
        packetSize := mem.length } ∧
      c.packetLen < mem.length ∧ mem = c.memory ++ junk := by
  obtain ⟨hsize, hlen, -⟩ := hf
  have hnext : c.step build (.tau, .done) = some c.nextByte := by
    simp [Conn.step, Conn.call, hpc, Conn.resume]
  rw [Conn.nextByte, if_neg hbuf] at hnext
  by_cases hfull : c.packetLen + 1 > c.packetSize
  · have hnew : c.packetSize < c.newSize := by
      unfold Conn.newSize
      split_ifs <;> omega
    let mem := c.memory ++ List.replicate (c.newSize - c.packetSize) 0
    have hmem : mem.length = c.newSize := by
      simp only [mem, List.length_append, List.length_replicate, hsize]
      omega
    have hgrow : ({ c with pc := .grow } : Conn).step build
        (.realloc c.newSize, .memory (List.replicate (c.newSize - c.packetSize) 0)) =
          some { c with
            pc := .store
            packetBuf := some mem
            packetSize := c.newSize } := Conn.step_eq_some.mpr ⟨rfl, if_pos hmem⟩
    rw [if_pos hfull] at hnext
    exact ⟨mem, _, hmem ▸ (Reaches.step hnext).trans (.step hgrow), by omega, rfl⟩
  · cases hblock : c.packetBuf with
    | none =>
      simp only [Conn.memory, hblock, Option.getD_none, List.length_nil] at hsize
      omega
    | some mem =>
      have hmem : c.memory = mem := by simp [Conn.memory, hblock]
      rw [hmem] at hsize
      rw [if_neg hfull] at hnext
      refine ⟨mem, [], ?_, by omega, by rw [hmem, List.append_nil]⟩
      rw [← hblock, hsize]
      exact .step hnext

/-- One byte more is received and stored over whatever lay in its place. -/
theorem byte_stored (build : Build) (hpc : c.pc = .recv) (hf : Fits c) (b : UInt8) :
    ∃ t junk, Reaches (Conn.step build) c t ∧ Fits t ∧
      t.pc = (if b = newline then .dispatch else .recv) ∧ t.buf = [] ∧ t.packet = c.packet ++ [b] ∧
      t.memory.drop t.packetLen = c.memory.drop (c.packetLen + 1) ++ junk := by
  have hreceived : c.step build (.recv, .bytes [b]) = some { c with
      pc := .nextByte
      buf := [b] } := by
    simp [Conn.step, Conn.call, Conn.resume, hpc, Conn.received, recvSize]
  obtain ⟨mem, junk, hroom, hlen, hmem⟩ := room_made build (c := { c with
      pc := .nextByte
      buf := [b] }) rfl (by simp) ⟨hf.size, hf.len, trivial⟩
  let stored : Conn := { c with
    pc := if b = newline then .dispatch else .nextByte
    buf := []
    packetBuf := some (mem.set c.packetLen b)
    packetLen := c.packetLen + 1
    packetSize := mem.length }
  have hstored : Reaches (Conn.step build) c stored :=
    (Reaches.step hreceived).trans (hroom.trans (.step (e := (.tau, .done)) rfl))
  have hsize : stored.memory.length = mem.length := List.length_set
  have hpacket : stored.packet = c.packet ++ [b] := by
    have htake := take_set_succ b hlen
    rw [hmem, List.take_append_of_le_length (hf.size ▸ hf.len), ← hmem] at htake
    exact htake
  have hrest : stored.memory.drop stored.packetLen =
      c.memory.drop (c.packetLen + 1) ++ junk.drop (c.packetLen + 1 - c.memory.length) := by
    refine (List.drop_set_of_lt (Nat.lt_succ_self _)).trans ?_
    rw [hmem, List.drop_append]
    rfl
  by_cases hb : b = newline
  · exact ⟨stored, _, hstored, ⟨hsize, hlen, by simp [stored, hb, Pc.Ready]⟩, by simp [stored, hb],
      rfl, hpacket, hrest⟩
  · have hnext : stored.step build (.tau, .done) = some { stored with pc := .recv } := by
      simp [stored, Conn.step, Conn.call, Conn.resume, Conn.nextByte, hb]
    exact ⟨_, _, hstored.trans (.step hnext), ⟨hsize, hlen, rfl⟩, by simp [hb], rfl, hpacket, hrest⟩

theorem drop_more {l l' junk : List UInt8} {n k : Nat} (h : l.drop n = l'.drop k ++ junk) (m : Nat) :
    ∃ junk', l.drop (n + m) = l'.drop (k + m) ++ junk' := by
  refine ⟨junk.drop (m - (l'.drop k).length), ?_⟩
  rw [← List.drop_drop, h, List.drop_append, List.drop_drop]

theorem bytes_stored (build : Build) {l : List UInt8} (hpc : c.pc = .recv) (hf : Fits c)
    (hl : newline ∉ l) :
    ∃ t junk, Reaches (Conn.step build) c t ∧ Fits t ∧ t.pc = .recv ∧ t.packet = c.packet ++ l ∧
      t.memory.drop t.packetLen = c.memory.drop (c.packetLen + l.length) ++ junk := by
  induction l generalizing c with
  | nil => exact ⟨c, [], .refl _ c, hf, hpc, by simp, by simp⟩
  | cons b l ih =>
    rw [List.mem_cons, not_or] at hl
    obtain ⟨u, junk, hu, hfu, hpcu, -, hpacket, hrest⟩ := byte_stored build hpc hf b
    rw [if_neg (Ne.symm hl.1)] at hpcu
    obtain ⟨t, junk', ht, hft, hpct, hpacket', hrest'⟩ := ih hpcu hfu hl.2
    obtain ⟨junk'', hmore⟩ := drop_more hrest l.length
    refine ⟨t, junk'' ++ junk', hu.trans ht, hft, hpct, by simp [hpacket', hpacket], ?_⟩
    rw [hrest', hmore, List.append_assoc, List.length_cons, Nat.add_assoc, Nat.add_comm 1]

/-- A packet is collected over the beginning of the earlier ones. -/
theorem line_collected (build : Build) {packet : List UInt8} (hpc : c.pc = .recv) (hf : Fits c)
    (hlen : c.packetLen = 0) (hline : IsLine newline packet) :
    ∃ t junk, Reaches (Conn.step build) c t ∧ t.pc = .dispatch ∧ t.buf = [] ∧ Fits t ∧
      t.packet = packet ∧ t.memory = packet ++ (c.memory.drop packet.length ++ junk) := by
  obtain ⟨l, rfl, hl⟩ := hline
  obtain ⟨u, junk, hu, hfu, hpcu, hpacket, hrest⟩ := bytes_stored build hpc hf hl
  obtain ⟨t, junk', ht, hft, hpct, hbuf, hpacket', hrest'⟩ := byte_stored build hpcu hfu newline
  obtain ⟨junk'', hmore⟩ := drop_more hrest 1
  have hnone : c.packet = [] := by rw [Conn.packet, hlen, List.take_zero]
  have hwhole : t.packet = l ++ [newline] := by rw [hpacket', hpacket, hnone, List.nil_append]
  refine ⟨t, junk'' ++ junk', hu.trans ht, hpct, hbuf, hft, hwhole, ?_⟩
  rw [hmore, hlen, Nat.zero_add] at hrest'
  have hsplit : t.memory = t.packet ++ t.memory.drop t.packetLen := (List.take_append_drop _ _).symm
  rw [hsplit, hwhole, hrest', List.append_assoc (c.memory.drop _), List.length_append]
  rfl

theorem reaches_of {build : Build} {c t : Conn} {call : Call} {a : Answer} (hcall : c.call = some call)
    (hres : c.resume build a = some t) : Reaches (Conn.step build) c t :=
  .step (e := (call, a)) (Conn.step_eq_some.mpr ⟨hcall, hres⟩)

/-- A packet that is taken for data is recorded and answered, and stays in memory. -/
theorem data_answered (hpc : c.pc = .dispatch) (hbuf : c.buf = []) (hdata : seekCommand c.memory = none) :
    Reaches (Conn.step .driver) c { c with
      pc := .recv
      packetLen := 0 } := by
  obtain ⟨pc, clientFd, buf, packetBuf, packetLen, packetSize, flag⟩ := c
  obtain rfl : pc = .dispatch := hpc
  obtain rfl : buf = [] := hbuf
  let at_ (pc : Pc) : Conn := ⟨pc, clientFd, [], packetBuf, packetLen, packetSize, flag⟩
  have hlock : Reaches (Conn.step .driver) (at_ .dispatch) (at_ (.lock none)) := by
    refine reaches_of (a := .memory []) rfl ?_
    simp only [at_, Conn.resume, Conn.dispatch, List.append_nil]
    rw [hdata]
  have hwrite : Reaches (Conn.step .driver) (at_ (.lock none)) (at_ .sendOpen) :=
    (reaches_of (t := at_ (.writing .openFile)) (a := .done) rfl rfl).trans <|
    (reaches_of (t := at_ (.writing (.write 5))) (a := .fd 5) rfl rfl).trans <|
    (reaches_of (t := at_ (.writing (.fsync 5))) (a := .count packetLen) rfl rfl).trans <|
    (reaches_of (t := at_ (.writing (.closeFile 5))) (a := .done) rfl rfl).trans <|
    reaches_of (a := .done) rfl rfl
  have hread : Reaches (Conn.step .driver) (at_ .sendOpen) (at_ (.unlocking .data)) :=
    (reaches_of (t := at_ (.reading .data 5)) (a := .fd 5) rfl rfl).trans <|
    (reaches_of (t := at_ (.closing .data 5)) (a := .bytes []) rfl rfl).trans <|
    reaches_of (a := .done) rfl rfl
  have hreset : Reaches (Conn.step .driver) (at_ (.unlocking .data))
      ⟨.recv, clientFd, [], packetBuf, 0, packetSize, flag⟩ :=
    (reaches_of (t := ⟨.nextByte, clientFd, [], packetBuf, 0, packetSize, flag⟩) (a := .done) rfl
      rfl).trans <|
    reaches_of (a := .done) rfl rfl
  exact hlock.trans (hwrite.trans (hread.trans hreset))

/-- A history after which the packet is tested with these bytes of an earlier one behind it. -/
theorem leftover_reached {packet : List UInt8} (hline : IsLine newline packet)
    (left : List UInt8) (hleft : IsLine newline left) (fd : Nat) : ∃ tr c junk,
      run (Conn.step .driver) (Conn.start fd) tr = some c ∧ c.pc = .dispatch ∧ c.packet = packet ∧
        c.memory = packet ++ (left ++ junk) := by
  have hfirst : IsLine newline (List.replicate packet.length 97 ++ left) := by
    obtain ⟨l, rfl, hl⟩ := hleft
    refine ⟨List.replicate packet.length 97 ++ l, by simp, ?_⟩
    rw [List.mem_append, List.mem_replicate]
    rintro (⟨-, h⟩ | h)
    · exact absurd h (by decide)
    · exact hl h
  obtain ⟨c, junk, hc, hpc, hbuf, hf, -, hmem⟩ :=
    line_collected .driver (c := Conn.start fd) rfl (start_fits fd) rfl hfirst
  have hdata : seekCommand c.memory = none := by
    refine seekCommand_data fun hp => ?_
    rw [hmem] at hp
    obtain ⟨b, rest, hpacket⟩ := List.exists_cons_of_ne_nil hline.ne_nil
    obtain ⟨rest', hrest⟩ := hp
    rw [hpacket, List.length_cons, List.replicate_succ] at hrest
    cases hrest
  have hreset := data_answered hpc hbuf hdata
  obtain ⟨t, junk', ht, hpct, -, -, hpacket, hmem'⟩ := line_collected .driver
    (c := { c with
      pc := .recv
      packetLen := 0 }) rfl ⟨hf.size, Nat.zero_le _, hbuf⟩ rfl hline
  obtain ⟨tr, htr⟩ := hc.trans (hreset.trans ht)
  refine ⟨tr, t, junk ++ junk', htr, hpct, hpacket, ?_⟩
  have hbehind : c.memory.drop packet.length = left ++ junk := by
    rw [hmem, List.append_assoc, List.drop_append_of_le_length (by simp)]
    simp [Conn.start, Conn.memory]
  rw [hmem']
  exact congrArg (packet ++ ·) ((congrArg (· ++ junk') hbehind).trans (List.append_assoc _ _ _))

/-- Whatever went before on its connection and whatever lies in memory: a packet is classified in
one way, unless `sscanf` has not finished with it at its end. -/
theorem classified_iff (packet : List UInt8) (hline : IsLine newline packet) :
    (∀ (fd fd' : Nat) (tr tr' : Trace) (c c' : Conn) (past past' : List UInt8),
      run (Conn.step .driver) (Conn.start fd) tr = some c →
      run (Conn.step .driver) (Conn.start fd') tr' = some c' →
      c.pc = .dispatch → c'.pc = .dispatch → c.packet = packet → c'.packet = packet →
        (c.dispatch .driver past).pc = (c'.dispatch .driver past').pc) ↔ ¬ Unfinished packet := by
  constructor
  · intro hall hunfinished
    obtain ⟨tr, c, junk, hc, hpc, hpacket, hmem⟩ := leftover_reached hline [49, 44, 49, 10]
      ⟨[49, 44, 49], rfl, by decide⟩ 0
    obtain ⟨tr', c', junk', hc', hpc', hpacket', hmem'⟩ := leftover_reached hline [97, 10]
      ⟨[97], rfl, by decide⟩ 0
    have hsame := hall 0 0 tr tr' c c' [] [] hc hc' hpc hpc' hpacket hpacket'
    simp only [Conn.dispatch, List.append_nil, hmem, hmem', Pc.lock.injEq] at hsame
    obtain ⟨hcommand, -⟩ := seekCommand_unfinished hline hunfinished junk
    obtain ⟨-, hdata⟩ := seekCommand_unfinished hline hunfinished (10 :: junk')
    simp only [List.cons_append, List.nil_append] at hsame
    rw [hsame, hdata] at hcommand
    cases hcommand
  · intro hfinished fd fd' tr tr' c c' past past' _ _ _ _ hpacket hpacket'
    have hone : ∀ (c : Conn) (past : List UInt8), c.packet = packet →
        (c.dispatch .driver past).pc = .lock (seekCommand packet) := by
      intro c past hpacket
      have hmem : c.memory = packet ++ c.memory.drop c.packetLen :=
        hpacket ▸ (List.take_append_drop _ _).symm
      simp only [Conn.dispatch]
      rw [hmem, List.append_assoc, seekCommand_finished hline hfinished]
    rw [hone c past hpacket, hone c' past' hpacket']

/-- A first packet is recorded and answered, and a second one collected. -/
def secondPacket (first second : List UInt8) : Trace :=
  lineIn first ++ ([(.lock first, .done), (.openFile .append, .fd 5),
    (.write 5 first, .count first.length), (.fsync 5, .done), (.closeFile 5, .done),
    (.openFile .readOnly, .fd 5), (.read 5, .bytes []), (.closeFile 5, .done), (.unlock, .done),
    (.tau, .done), (.recv, .bytes second)] : Trace) ++
    (List.replicate (2 * second.length) (.tau, .done) : Trace)

/-- A command, and in `packet_buf` behind it the end of a longer packet: `1` or `99`. -/
theorem classified_seek : ∃ c c',
    run (Conn.step .driver) (Conn.start 4)
      (secondPacket (List.replicate 23 97 ++ [49, 10]) (seekPrefix ++ [48, 44, 49, 10])) = some c ∧
    run (Conn.step .driver) (Conn.start 4)
      (secondPacket (List.replicate 23 98 ++ [57, 57, 10]) (seekPrefix ++ [48, 44, 49, 10])) = some c' ∧
      c.memory ≠ c'.memory ∧ (c.dispatch .driver []).pc = (c'.dispatch .driver [44, 49]).pc := by
  obtain ⟨c, hc, hview⟩ := Option.map_eq_some_iff.mp (show
    (run (Conn.step .driver) (Conn.start 4)
      (secondPacket (List.replicate 23 97 ++ [49, 10]) (seekPrefix ++ [48, 44, 49, 10]))).map
        (fun c => (c.pc, c.packet, c.memory[23]?)) =
          some (.dispatch, seekPrefix ++ [48, 44, 49, 10], some 49) by decide +kernel)
  obtain ⟨c', hc', hview'⟩ := Option.map_eq_some_iff.mp (show
    (run (Conn.step .driver) (Conn.start 4)
      (secondPacket (List.replicate 23 98 ++ [57, 57, 10]) (seekPrefix ++ [48, 44, 49, 10]))).map
        (fun c => (c.pc, c.packet, c.memory[23]?)) =
          some (.dispatch, seekPrefix ++ [48, 44, 49, 10], some 57) by decide +kernel)
  simp only [Prod.mk.injEq] at hview hview'
  obtain ⟨hpc, hpacket, hbehind⟩ := hview
  obtain ⟨hpc', hpacket', hbehind'⟩ := hview'
  have hfinished : ¬ Unfinished (seekPrefix ++ [48, 44, 49, 10]) := by
    rintro ⟨rest, htext, hspace⟩
    obtain rfl := List.append_cancel_left htext
    rcases hspace with hspace | ⟨x, rest', hscan, hspace⟩
    · exact absurd hspace (by decide)
    · have hrest : some ((0 : Int), [44, 49, 10]) = some (x, 44 :: rest') := hscan
      cases hrest
      exact absurd hspace (by decide)
  refine ⟨c, c', hc, hc', fun hsame => ?_, (classified_iff (seekPrefix ++ [48, 44, 49, 10])
    ⟨seekPrefix ++ [48, 44, 49], rfl, by decide⟩).mpr hfinished 4 4 _ _ c c' [] [44, 49] hc hc' hpc hpc'
      hpacket hpacket'⟩
  rw [hsame, hbehind'] at hbehind
  cases hbehind

/-- The name and a newline: a command behind one packet, and data behind another one. -/
theorem leftover_decides : ¬ ∀ packet : List UInt8, IsLine newline packet →
    ∀ (fd fd' : Nat) (tr tr' : Trace) (c c' : Conn) (past past' : List UInt8),
      run (Conn.step .driver) (Conn.start fd) tr = some c →
      run (Conn.step .driver) (Conn.start fd') tr' = some c' →
      c.pc = .dispatch → c'.pc = .dispatch → c.packet = packet → c'.packet = packet →
        (c.dispatch .driver past).pc = (c'.dispatch .driver past').pc := by
  intro hall
  have hrun : ∀ behind : List UInt8, ∀ seekto, (run (Conn.step .driver) (Conn.start 4)
      (secondPacket (List.replicate 20 97 ++ behind) (seekPrefix ++ [10]))).map
        (fun c => ((c.pc, c.packet), (c.dispatch .driver []).pc)) =
          some ((.dispatch, seekPrefix ++ [10]), .lock seekto) → ∃ tr c,
      run (Conn.step .driver) (Conn.start 4) tr = some c ∧ c.pc = .dispatch ∧
        c.packet = seekPrefix ++ [10] ∧ (c.dispatch .driver []).pc = .lock seekto := by
    intro behind seekto h
    obtain ⟨c, hc, hview⟩ := Option.map_eq_some_iff.mp h
    obtain ⟨hstate, hlock⟩ := Prod.mk.inj hview
    obtain ⟨hpc, hpacket⟩ := Prod.mk.inj hstate
    exact ⟨_, c, hc, hpc, hpacket, hlock⟩
  obtain ⟨tr, c, hc, hpc, hpacket, hlock⟩ :=
    hrun [49, 44, 49, 10] (some (1, 1)) (by decide +kernel)
  obtain ⟨tr', c', hc', hpc', hpacket', hlock'⟩ := hrun [97, 10] none (by decide +kernel)
  have hsame := hall (seekPrefix ++ [10]) ⟨seekPrefix, rfl, by decide⟩ 4 4 tr tr' c c' [] []
    hc hc' hpc hpc' hpacket hpacket'
  rw [hlock, hlock'] at hsame
  cases hsame

end Aesd.Server
