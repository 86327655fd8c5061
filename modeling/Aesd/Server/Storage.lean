import Aesd.Lib.Segments
import Aesd.Server.Process
import Mathlib.Logic.Function.Basic

/-!
# A system whose calls succeed

The descriptors of the data file over whatever lies behind `fileName`, with no
call failing, `write` writing in full and `send` taking at least one byte. An
account says what such a file has to do for the server: show every packet it
has been given, and show it until the next one.
-/
namespace Aesd.Server

open Segments

/-- What lies behind `fileName`: a `read` is given a position and a count, and gives the bytes,
the position behind them and the new state. -/
structure Backing (β : Type) where
  truncate : β → β
  write : β → List UInt8 → Option β
  read : β → Int → Nat → List UInt8 × Int × β
  ioctl : β → Nat → Nat → Int → Option (Int × β)

/-- The file and its open descriptors with their positions. -/
structure Disk (β : Type) where
  store : β
  files : Nat → Option Int

variable {β : Type}

/-- The calls on descriptors of the data file. -/
def Call.touches : Call → Bool
  | .openFile _ | .write _ _ | .fsync _ | .closeFile _ | .ioctl _ _ _ | .read _ => true
  | _ => false

/-- Descriptors are handed out that are not open. Where an appending `write` leaves the position
does not matter, since nobody reads from that descriptor. -/
def Disk.respond (B : Backing β) (d : Disk β) : Call → Answer → Option (Disk β)
  | .openFile mode, .fd n =>
    if d.files n = none then
      some ⟨if mode = .truncate then B.truncate d.store else d.store,
        Function.update d.files n (some 0)⟩
    else none
  | .write fd data, .count n =>
    if n = data.length ∧ d.files fd ≠ none then
      (B.write d.store data).map fun store => { d with store := store }
    else none
  | .fsync fd, .done => if d.files fd ≠ none then some d else none
  | .closeFile fd, .done =>
    if d.files fd ≠ none then some { d with files := Function.update d.files fd none } else none
  | .ioctl fd x y, .done => (d.files fd).bind fun pos =>
    (B.ioctl d.store x y pos).map fun (pos, store) => ⟨store, Function.update d.files fd (some pos)⟩
  | .read fd, .bytes l => (d.files fd).bind fun pos =>
    match B.read d.store pos fileBufSize with
    | (l', pos, store) =>
      if l' = l then some ⟨store, Function.update d.files fd (some pos)⟩ else none
  | .send data, .count n => if 0 < n ∧ n ≤ data.length then some d else none
  | .recv, .bytes _ | .realloc _, .memory _ | .process _, .memory _ | .time, .time _
  | .accept, .fd _ | .tau, .done | .lock _, .done | .unlock, .done | .closeClient _, .done
  | .setup, .done | .createThread, .done | .join _, .done => some d
  | _, _ => none

def storage (B : Backing β) : Os (Disk β) := ⟨Disk.respond B⟩

/-- What the file has to do for the server, told by the packets it has been given so far. -/
structure Account (build : Build) (B : Backing β) where
  Shows : β → List (List UInt8) → Prop
  /-- the packets that may follow -/
  Admits : List (List UInt8) → List UInt8 → Prop
  visible : List (List UInt8) → List UInt8
  /-- where the answer to the last packet begins -/
  start : List (List UInt8) → Nat
  truncated : build = .file → ∀ b, Shows (B.truncate b) []
  written : ∀ {b b' h p}, Shows b h → Admits h p →
    (build = .driver → IsLine newline p ∧ ∃ past, seekCommand (p ++ past) = none) →
      B.write b p = some b' → Shows b' (h ++ [p]) ∧ start (h ++ [p]) = 0
  sought : ∀ {b b' h p x y q}, Shows b h → Admits h p → build = .driver → IsLine newline p →
    (∃ past, seekCommand (p ++ past) = some (x, y)) → B.ioctl b x y 0 = some (q, b') →
      Shows b' (h ++ [p]) ∧ q = start (h ++ [p]) ∧ start (h ++ [p]) ≤ (visible (h ++ [p])).length
  readOut : ∀ {b b' h n l q}, Shows b h → n ≤ (visible h).length →
    B.read b (n : Nat) fileBufSize = (l, q, b') → Shows b' h ∧ q = (n + l.length : Nat) ∧
      l <+: (visible h).drop n ∧ (l = [] → (visible h).drop n = [])

variable {build : Build} {B : Backing β}

/-- The answer to the last packet. -/
def Account.reply (acc : Account build B) (h : List (List UInt8)) : List UInt8 :=
  (acc.visible h).drop (acc.start h)

/-- The bytes a call gives to the client. -/
def given : Call × Answer → List UInt8
  | (.send data, .count n) => data.take n
  | _ => []

/-- The packet may be written, behind the packets `h`. -/
structure Account.Writable (acc : Account build B) (h : List (List UInt8)) (p : List UInt8) :
    Prop where
  admitted : acc.Admits h p
  data : build = .driver → IsLine newline p ∧ ∃ past, seekCommand (p ++ past) = none

/-- The packet is the command that names `x` and `y`. -/
structure Account.Seeks (acc : Account build B) (h : List (List UInt8)) (p : List UInt8)
    (x y : Nat) : Prop where
  admitted : acc.Admits h p
  driver : build = .driver
  line : IsLine newline p
  command : ∃ past, seekCommand (p ++ past) = some (x, y)

/-- The file while `write_to_file` is at this point with packet `p`. -/
def WritePc.Within (acc : Account build B) (d : Disk β) (h : List (List UInt8)) (p : List UInt8) :
    WritePc → Prop
  | .openFile | .write _ => acc.Shows d.store h ∧ acc.Writable h p
  | .fsync _ | .closeFile _ => acc.Shows d.store (h ++ [p]) ∧ acc.start (h ++ [p]) = 0
  | .writeFailed _ | .fsyncFailed _ => False

/-- The file while the holder of the mutex works on packet `p` and has sent `sent`: what has been
sent, what is about to be and what still can be read make up the answer. -/
def Pc.Within (acc : Account build B) (d : Disk β) (h : List (List UInt8)) (p sent : List UInt8) :
    Pc → Prop
  | .seekOpen x y => acc.Shows d.store h ∧ acc.Seeks h p x y ∧ sent = []
  | .seekIoctl fd x y => acc.Shows d.store h ∧ acc.Seeks h p x y ∧ sent = [] ∧ d.files fd = some 0
  | .writing w => w.Within acc d h p ∧ sent = []
  | .sendOpen => acc.Shows d.store (h ++ [p]) ∧ acc.start (h ++ [p]) = 0 ∧ sent = []
  | .reading _ fd => acc.Shows d.store (h ++ [p]) ∧ ∃ n : Nat, d.files fd = some n ∧
      n ≤ (acc.visible (h ++ [p])).length ∧
      sent ++ (acc.visible (h ++ [p])).drop n = acc.reply (h ++ [p])
  | .sending _ fd rest => acc.Shows d.store (h ++ [p]) ∧ ∃ n : Nat, d.files fd = some n ∧
      n ≤ (acc.visible (h ++ [p])).length ∧
      sent ++ rest ++ (acc.visible (h ++ [p])).drop n = acc.reply (h ++ [p])
  | .closing _ _ | .unlocking _ => acc.Shows d.store (h ++ [p]) ∧ sent = acc.reply (h ++ [p])
  | _ => False

/-- The file while the timestamp thread holds the mutex. -/
def StampPc.Within (acc : Account build B) (d : Disk β) (h : List (List UInt8)) (p : List UInt8) :
    StampPc → Prop
  | .writing w => w.Within acc d h p
  | .unlock => acc.Shows d.store (h ++ [p])
  | _ => False

variable {acc : Account build B} {d d' : Disk β} {h : List (List UInt8)} {p sent : List UInt8}

/-- The calls that leave the data file alone. -/
theorem respond_untouched {call : Call} {a : Answer} (hd : d.respond B call a = some d')
    (htouch : call.touches = false) : d' = d := by
  cases call <;> simp only [Call.touches, Bool.true_eq_false] at htouch <;>
    cases a <;> simp only [Disk.respond, Option.some.injEq, reduceCtorEq] at hd
  case send.count =>
    split_ifs at hd
    exact (Option.some.inj hd).symm
  all_goals exact hd.symm

theorem respond_succeeds {call : Call} {a : Answer} (hd : d.respond B call a = some d') :
    a ≠ .failed ∧ a ≠ .killed := by
  constructor
  · rintro rfl
    cases call <;> simp [Disk.respond] at hd
  · rintro rfl
    cases call <;> simp [Disk.respond] at hd

/-- A file is opened without a change to it, and read from its beginning. -/
theorem respond_open {mode : OpenMode} {a : Answer} (hmode : mode ≠ .truncate)
    (hd : d.respond B (.openFile mode) a = some d') :
    ∃ n, a = .fd n ∧ d'.store = d.store ∧ d'.files n = some 0 := by
  cases a <;> simp only [Disk.respond, reduceCtorEq] at hd
  case fd n =>
    split_ifs at hd
    cases hd
    exact ⟨n, rfl, rfl, Function.update_self _ _ _⟩

theorem respond_close {fd : Nat} {a : Answer} (hd : d.respond B (.closeFile fd) a = some d') :
    a = .done ∧ d'.store = d.store := by
  cases a <;> simp only [Disk.respond, reduceCtorEq] at hd
  split_ifs at hd
  cases hd
  exact ⟨rfl, rfl⟩

/-- One call of `write_to_file`. -/
theorem write_within {w : WritePc} {a : Answer} {next : WritePc ⊕ Bool} (hw : w.Within acc d h p)
    (hd : d.respond B (w.call p) a = some d') (hnext : w.resume a = some next) :
    (∃ w', next = .inl w' ∧ w'.Within acc d' h p) ∨
      next = .inr true ∧ acc.Shows d'.store (h ++ [p]) ∧ acc.start (h ++ [p]) = 0 := by
  cases w with
  | openFile =>
    obtain ⟨n, rfl, hstore, -⟩ := respond_open (show OpenMode.append ≠ .truncate by decide) hd
    cases hnext
    exact Or.inl ⟨_, rfl, by rw [hstore]; exact hw.1, hw.2⟩
  | write fd =>
    cases a <;> simp only [WritePc.call, Disk.respond, reduceCtorEq] at hd
    case count n =>
      cases hnext
      split_ifs at hd with hfull
      obtain ⟨store, hstore, rfl⟩ := Option.map_eq_some_iff.mp hd
      exact Or.inl ⟨_, rfl, acc.written hw.1 hw.2.admitted hw.2.data hstore⟩
  | fsync fd =>
    cases a <;> simp only [WritePc.call, Disk.respond, reduceCtorEq] at hd
    cases hnext
    split_ifs at hd
    cases hd
    exact Or.inl ⟨_, rfl, hw⟩
  | closeFile fd =>
    obtain ⟨rfl, hstore⟩ := respond_close hd
    cases hnext
    exact Or.inr ⟨rfl, by rw [hstore]; exact hw.1, hw.2⟩
  | writeFailed fd => exact hw.elim
  | fsyncFailed fd => exact hw.elim

/-- One `read` of the loop: the end of the file, or some more of it. -/
theorem read_within {fd n : Nat} {a : Answer} (hshows : acc.Shows d.store h)
    (hfile : d.files fd = some (n : Int)) (hle : n ≤ (acc.visible h).length)
    (hsent : sent ++ (acc.visible h).drop n = acc.reply h)
    (hd : d.respond B (.read fd) a = some d') : ∃ l, a = .bytes l ∧ acc.Shows d'.store h ∧
      (l = [] → sent = acc.reply h) ∧ ∃ n' : Nat, d'.files fd = some (n' : Int) ∧
        n' ≤ (acc.visible h).length ∧ sent ++ l ++ (acc.visible h).drop n' = acc.reply h := by
  cases a <;> simp only [Disk.respond, reduceCtorEq] at hd
  case bytes l =>
    simp only [hfile, Option.bind_some] at hd
    rcases hread : B.read d.store n fileBufSize with ⟨l', q, b⟩
    simp only [hread] at hd
    split_ifs at hd with hl
    cases hd
    subst hl
    obtain ⟨hshows', rfl, ⟨rest, hrest⟩, hend⟩ := acc.readOut hshows hle hread
    have hlen := congrArg List.length hrest
    rw [List.length_append, List.length_drop] at hlen
    refine ⟨l', rfl, hshows', fun hnil => ?_, n + l'.length, Function.update_self _ _ _, by omega, ?_⟩
    · rw [← hsent, hend hnil, List.append_nil]
    · rw [← hsent, List.append_assoc, ← List.drop_drop, ← hrest]
      simp

/-- One call of a handler that holds the mutex, up to the last unlock. -/
theorem conn_within {c c' : Conn} {e : Call × Answer} (hc : c.pc.Within acc d h c.packet sent)
    (hd : d.respond B e.1 e.2 = some d') (hstep : c.step build e = some c')
    (hunlock : e.1 ≠ .unlock) :
    c'.packet = c.packet ∧ c'.pc.Within acc d' h c.packet (sent ++ given e) := by
  obtain ⟨call, a⟩ := e
  cases move_of_step hstep
  case seekOpened =>
    obtain ⟨hshows, hseeks, hsent⟩ := hc
    obtain ⟨n, ha, hstore, hfile⟩ :=
      respond_open (show OpenMode.readWrite ≠ .truncate by decide) hd
    cases ha
    exact ⟨rfl, hstore ▸ hshows, hseeks, by simp [hsent, given], hfile⟩
  case positioned =>
    obtain ⟨hshows, hseeks, hsent, hfile⟩ := hc
    simp only [Disk.respond, hfile, Option.bind_some, Option.map_eq_some_iff, Prod.exists] at hd
    obtain ⟨q, b, hioctl, rfl⟩ := hd
    obtain ⟨hshows', rfl, hle⟩ :=
      acc.sought hshows hseeks.admitted hseeks.driver hseeks.line hseeks.command hioctl
    exact ⟨rfl, hshows', _, Function.update_self _ _ _, hle, by simp [hsent, given, Account.reply]⟩
  case writes c w w' hnext =>
    obtain ⟨hw, hsent⟩ := hc
    have hgiven : given (w.call c.packet, a) = [] := by cases w <;> rfl
    rcases write_within hw hd hnext with ⟨w'', hnext', hw'⟩ | ⟨hnext', -⟩ <;> cases hnext'
    exact ⟨rfl, hw', by rw [hsent, hgiven]; rfl⟩
  case wrote c w ok hnext =>
    obtain ⟨hw, hsent⟩ := hc
    have hgiven : given (w.call c.packet, a) = [] := by cases w <;> rfl
    rcases write_within hw hd hnext with ⟨w'', hnext', -⟩ | ⟨hnext', hshows, hstart⟩ <;> cases hnext'
    exact ⟨rfl, hshows, hstart, by rw [hsent, hgiven]; rfl⟩
  case opened =>
    obtain ⟨hshows, hstart, hsent⟩ := hc
    obtain ⟨n, ha, hstore, hfile⟩ :=
      respond_open (show OpenMode.readOnly ≠ .truncate by decide) hd
    cases ha
    exact ⟨rfl, hstore ▸ hshows, 0, hfile, Nat.zero_le _,
      by simp [hsent, given, Account.reply, hstart]⟩
  case read =>
    obtain ⟨hshows, n, hfile, hle, hsent⟩ := hc
    obtain ⟨l, ha, hshows', -, n', hfile', hle', hsent'⟩ := read_within hshows hfile hle hsent hd
    cases ha
    exact ⟨rfl, hshows', n', hfile', hle', by simpa [given] using hsent'⟩
  case readEnds ha =>
    obtain ⟨hshows, n, hfile, hle, hsent⟩ := hc
    obtain ⟨l, rfl, hshows', hend, -⟩ := read_within hshows hfile hle hsent hd
    obtain rfl : l = [] := by simpa using ha
    exact ⟨rfl, hshows', by simpa [given] using hend rfl⟩
  case sentPart k rest _ _ =>
    obtain ⟨hshows, n, hfile, hle, hsent⟩ := hc
    obtain rfl := respond_untouched hd rfl
    refine ⟨rfl, hshows, n, hfile, hle, ?_⟩
    rw [← hsent, given, List.append_assoc sent, List.take_append_drop]
  case sentAll k rest _ hall =>
    obtain ⟨hshows, n, hfile, hle, hsent⟩ := hc
    obtain rfl := respond_untouched hd rfl
    refine ⟨rfl, hshows, n, hfile, hle, ?_⟩
    rw [← hsent, given, List.take_of_length_le (List.drop_eq_nil_iff.mp hall)]
  case closed =>
    obtain ⟨hshows, hsent⟩ := hc
    obtain ⟨-, hstore⟩ := respond_close hd
    exact ⟨rfl, hstore ▸ hshows, by simpa [given] using hsent⟩
  case seekNotOpened | notPositioned | notOpened | notSent | killed => cases hd
  case unlocked => exact absurd rfl hunlock
  all_goals exact hc.elim

/-- One call of the timestamp thread that holds the mutex, up to the unlock. -/
theorem stamp_within {s s' : Stamp} {a : Answer} (hs : s.pc.Within acc d h s.timeStr)
    (hd : d.respond B s.call a = some d') (hres : s.resume a = some s')
    (hunlock : s.call ≠ .unlock) :
    s'.timeStr = s.timeStr ∧ s'.pc.Within acc d' h s.timeStr := by
  cases hpc : s.pc with
  | sleep => exact (hpc ▸ hs).elim
  | lock => exact (hpc ▸ hs).elim
  | unlock => simp [Stamp.call, hpc] at hunlock
  | writing w =>
    rw [hpc] at hs
    simp only [Stamp.call, hpc] at hd
    simp only [Stamp.resume, hpc] at hres
    obtain ⟨next, hnext, rfl⟩ := Option.map_eq_some_iff.mp hres
    rcases write_within hs hd hnext with ⟨w', rfl, hw'⟩ | ⟨rfl, hshows, -⟩
    · exact ⟨rfl, hw'⟩
    · exact ⟨rfl, hshows⟩

end Aesd.Server
