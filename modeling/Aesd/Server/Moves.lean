import Aesd.Server.Connection

/-!
# The moves of a handler

Everything one step of `handle_connection` can do, said once: where the handler
stands, what it calls, what the system answers, and how it goes on. Proofs that
have to go through all points of the handler go through these moves.
-/
namespace Aesd.Server

inductive Move (build : Build) : Conn → Call → Answer → Conn → Prop
  | received {c : Conn} {l : List UInt8} (hlen : l.length ≤ recvSize) (hne : l ≠ []) :
    Move build { c with pc := .recv } .recv (.bytes l) { c with pc := .nextByte, buf := l }
  | hungUp {c : Conn} {a : Answer} (ha : a = .bytes [] ∨ a = .failed) :
    Move build { c with pc := .recv } .recv a { c with pc := .clientDone }
  | drained {c : Conn} (hbuf : c.buf = []) :
    Move build { c with pc := .nextByte } .tau .done { c with pc := .recv }
  | full {c : Conn} (hbuf : c.buf ≠ []) (hfull : c.packetLen + 1 > c.packetSize) :
    Move build { c with pc := .nextByte } .tau .done { c with pc := .grow }
  | room {c : Conn} (hbuf : c.buf ≠ []) (hroom : c.packetLen + 1 ≤ c.packetSize) :
    Move build { c with pc := .nextByte } .tau .done { c with pc := .store }
  | grown {c : Conn} {junk : List UInt8} (hnew : (c.memory ++ junk).length = c.newSize) :
    Move build { c with pc := .grow } (.realloc c.newSize) (.memory junk)
      { c with pc := .store, packetBuf := some (c.memory ++ junk), packetSize := c.newSize }
  | refused {c : Conn} : Move build { c with pc := .grow } (.realloc c.newSize) .failed
      { c with pc := .clientDone, packetBuf := none, packetLen := 0 }
  | stored {c : Conn} {b : UInt8} {rest mem : List UInt8} (hbuf : c.buf = b :: rest)
      (hmem : c.packetBuf = some mem) : Move build { c with pc := .store } .tau .done { c with
        pc := if b = newline then .dispatch else .nextByte
        buf := rest
        packetBuf := some (mem.set c.packetLen b)
        packetLen := c.packetLen + 1 }
  | dispatched {c : Conn} {past : List UInt8} : Move build { c with pc := .dispatch } (.process c.packet)
      (.memory past) (c.dispatch build past)
  | locked {c : Conn} : Move build { c with pc := .lock none } (.lock c.packet) .done
      { c with pc := .writing .openFile }
  | lockedSeek {c : Conn} {x y : Nat} : Move build { c with pc := .lock (some (x, y)) } (.lock c.packet)
      .done { c with pc := .seekOpen x y }
  | seekOpened {c : Conn} {x y n : Nat} : Move build { c with pc := .seekOpen x y } (.openFile .readWrite)
      (.fd n) { c with pc := .seekIoctl n x y }
  | seekNotOpened {c : Conn} {x y : Nat} : Move build { c with pc := .seekOpen x y }
      (.openFile .readWrite) .failed { c with pc := .seekGiveUp }
  | positioned {c : Conn} {fd x y : Nat} : Move build { c with pc := .seekIoctl fd x y } (.ioctl fd x y)
      .done { c with pc := .reading .seek fd }
  | notPositioned {c : Conn} {fd x y : Nat} : Move build { c with pc := .seekIoctl fd x y }
      (.ioctl fd x y) .failed { c with pc := .seekGiveUp }
  | seekGivenUp {c : Conn} : Move build { c with pc := .seekGiveUp } .unlock .done
      { c with pc := .nextByte }
  | writes {c : Conn} {w w' : WritePc} {a : Answer} (hw : w.resume a = some (.inl w')) :
    Move build { c with pc := .writing w } (w.call c.packet) a { c with pc := .writing w' }
  | wrote {c : Conn} {w : WritePc} {a : Answer} {ok : Bool} (hw : w.resume a = some (.inr ok)) :
    Move build { c with pc := .writing w } (w.call c.packet) a
      { c with pc := if ok then .sendOpen else .writeGiveUp }
  | writeGivenUp {c : Conn} : Move build { c with pc := .writeGiveUp } .unlock .done
      { c with pc := .sendOpen }
  | opened {c : Conn} {n : Nat} : Move build { c with pc := .sendOpen } (.openFile .readOnly) (.fd n)
      { c with pc := .reading .data n }
  | notOpened {c : Conn} : Move build { c with pc := .sendOpen } (.openFile .readOnly) .failed
      { c with pc := .sendGiveUp }
  | sendGivenUp {c : Conn} : Move build { c with pc := .sendGiveUp } .unlock .done
      { c with pc := .recv, buf := [] }
  | read {c : Conn} {s : Section} {fd : Nat} {l : List UInt8} (hlen : l.length ≤ fileBufSize)
      (hne : l ≠ []) : Move build { c with pc := .reading s fd } (.read fd) (.bytes l)
      { c with pc := .sending s fd l }
  | readEnds {c : Conn} {s : Section} {fd : Nat} {a : Answer} (ha : a = .bytes [] ∨ a = .failed) :
    Move build { c with pc := .reading s fd } (.read fd) a { c with pc := .closing s fd }
  | sentPart {c : Conn} {s : Section} {fd n : Nat} {rest : List UInt8} (hn : n ≤ rest.length)
      (hrest : rest.drop n ≠ []) : Move build { c with pc := .sending s fd rest } (.send rest) (.count n)
      { c with pc := .sending s fd (rest.drop n) }
  | sentAll {c : Conn} {s : Section} {fd n : Nat} {rest : List UInt8} (hn : n ≤ rest.length)
      (hrest : rest.drop n = []) : Move build { c with pc := .sending s fd rest } (.send rest) (.count n)
      { c with pc := .reading s fd }
  | notSent {c : Conn} {s : Section} {fd : Nat} {rest : List UInt8} :
    Move build { c with pc := .sending s fd rest } (.send rest) .failed { c with pc := .sendFailed s fd }
  | killed {c : Conn} {s : Section} {fd : Nat} {rest : List UInt8} :
    Move build { c with pc := .sending s fd rest } (.send rest) .killed { c with pc := .exiting }
  | closed {c : Conn} {s : Section} {fd : Nat} {a : Answer} (ha : a = .done ∨ a = .failed) :
    Move build { c with pc := .closing s fd } (.closeFile fd) a { c with pc := .unlocking s }
  | unlocked {c : Conn} {s : Section} : Move build { c with pc := .unlocking s } .unlock .done
      { c with pc := .nextByte, packetLen := 0 }
  | closedUnsent {c : Conn} {s : Section} {fd : Nat} {a : Answer} (ha : a = .done ∨ a = .failed) :
    Move build { c with pc := .sendFailed s fd } (.closeFile fd) a
      { c with pc := match s with | .seek => .sendFailedUnlock | .data => .exiting }
  | unlockedUnsent {c : Conn} : Move build { c with pc := .sendFailedUnlock } .unlock .done
      { c with pc := .exiting }
  | exited {c : Conn} : Move build { c with pc := .exiting } .exit .done { c with pc := .exiting }
  | finished {c : Conn} : Move build { c with pc := .clientDone } .tau .done c.finish
  | closedClient {c : Conn} {a : Answer} (ha : a = .done ∨ a = .failed) :
    Move build { c with pc := .closeClient } (.closeClient c.clientFd) a { c with pc := .returned }

theorem move_of_step {build : Build} {c t : Conn} {call : Call} {a : Answer}
    (h : c.step build (call, a) = some t) : Move build c call a t := by
  obtain ⟨hcall, hres⟩ := Conn.step_eq_some.mp h
  obtain ⟨pc, clientFd, buf, packetBuf, packetLen, packetSize, flag⟩ := c
  let c : Conn := ⟨pc, clientFd, buf, packetBuf, packetLen, packetSize, flag⟩
  cases pc <;> simp only [Conn.call, Option.some.injEq, reduceCtorEq] at hcall <;> subst hcall
  case recv =>
    cases a <;> simp only [Conn.resume, Conn.received, Option.some.injEq, reduceCtorEq] at hres
    case failed => exact hres ▸ .hungUp (c := c) (Or.inr rfl)
    case bytes l =>
      split_ifs at hres with hlen hnil <;> cases hres
      · exact .hungUp (c := c) (Or.inl (by rw [hnil]))
      · exact .received (c := c) (Nat.le_of_not_gt hlen) hnil
  case nextByte =>
    cases a <;> simp only [Conn.resume, Conn.nextByte, Option.some.injEq, reduceCtorEq] at hres
    split_ifs at hres with hnil hfull
    · exact hres ▸ .drained (c := c) hnil
    · exact hres ▸ .full (c := c) hnil hfull
    · exact hres ▸ .room (c := c) hnil (Nat.le_of_not_gt hfull)
  case grow =>
    cases a <;> simp only [Conn.resume, Conn.grow, Option.some.injEq, reduceCtorEq] at hres
    case failed => exact hres ▸ .refused (c := c)
    case memory junk =>
      split_ifs at hres with hnew
      exact Option.some.inj hres ▸ .grown (c := c) hnew
  case store =>
    cases a <;> simp only [Conn.resume, Conn.store, reduceCtorEq] at hres
    split at hres <;> cases hres
    exact .stored (c := c) rfl rfl
  case dispatch =>
    cases a <;> simp only [Conn.resume, Option.some.injEq, reduceCtorEq] at hres
    exact hres ▸ .dispatched (c := c)
  case lock seekto =>
    rcases seekto with _ | ⟨x, y⟩ <;> cases a <;>
      simp only [Conn.resume, Option.some.injEq, reduceCtorEq] at hres
    · exact hres ▸ .locked (c := c)
    · exact hres ▸ .lockedSeek (c := c)
  case seekOpen x y =>
    cases a <;> simp only [Conn.resume, Option.some.injEq, reduceCtorEq] at hres
    · exact hres ▸ .seekNotOpened (c := c)
    · exact hres ▸ .seekOpened (c := c)
  case seekIoctl fd x y =>
    cases a <;> simp only [Conn.resume, Option.some.injEq, reduceCtorEq] at hres
    · exact hres ▸ .positioned (c := c)
    · exact hres ▸ .notPositioned (c := c)
  case writing w =>
    obtain ⟨next, hw, rfl⟩ := Option.map_eq_some_iff.mp hres
    rcases next with w' | (_ | _)
    · exact .writes (c := c) hw
    · exact .wrote (c := c) hw
    · exact .wrote (c := c) hw
  case sendOpen =>
    cases a <;> simp only [Conn.resume, Option.some.injEq, reduceCtorEq] at hres
    · exact hres ▸ .notOpened (c := c)
    · exact hres ▸ .opened (c := c)
  case reading s fd =>
    cases a <;> simp only [Conn.resume, Conn.readBack, Option.some.injEq, reduceCtorEq] at hres
    case failed => exact hres ▸ .readEnds (c := c) (Or.inr rfl)
    case bytes l =>
      split_ifs at hres with hlen hnil <;> cases hres
      · exact .readEnds (c := c) (Or.inl (by rw [hnil]))
      · exact .read (c := c) (Nat.le_of_not_gt hlen) hnil
  case sending s fd rest =>
    cases a <;> simp only [Conn.resume, Conn.sent, Option.some.injEq, reduceCtorEq] at hres
    case failed => exact hres ▸ .notSent (c := c)
    case killed => exact hres ▸ .killed (c := c)
    case count n =>
      split_ifs at hres with hn hrest <;> cases hres
      · exact .sentAll (c := c) (Nat.le_of_not_gt hn) hrest
      · exact .sentPart (c := c) (Nat.le_of_not_gt hn) hrest
  case closing s fd =>
    cases a <;> simp only [Conn.resume, Option.some.injEq, reduceCtorEq] at hres
    · exact hres ▸ .closed (c := c) (Or.inl rfl)
    · exact hres ▸ .closed (c := c) (Or.inr rfl)
  case sendFailed s fd =>
    cases s <;> cases a <;> simp only [Conn.resume, Option.some.injEq, reduceCtorEq] at hres
    · exact hres ▸ .closedUnsent (c := c) (s := .seek) (Or.inl rfl)
    · exact hres ▸ .closedUnsent (c := c) (s := .seek) (Or.inr rfl)
    · exact hres ▸ .closedUnsent (c := c) (s := .data) (Or.inl rfl)
    · exact hres ▸ .closedUnsent (c := c) (s := .data) (Or.inr rfl)
  case closeClient =>
    cases a <;> simp only [Conn.resume, Option.some.injEq, reduceCtorEq] at hres
    · exact hres ▸ .closedClient (c := c) (Or.inl rfl)
    · exact hres ▸ .closedClient (c := c) (Or.inr rfl)
  all_goals
    cases a <;> simp only [Conn.resume, Option.some.injEq, reduceCtorEq] at hres
  case seekGiveUp => exact hres ▸ .seekGivenUp (c := c)
  case writeGiveUp => exact hres ▸ .writeGivenUp (c := c)
  case sendGiveUp => exact hres ▸ .sendGivenUp (c := c)
  case unlocking => exact hres ▸ .unlocked (c := c)
  case sendFailedUnlock => exact hres ▸ .unlockedUnsent (c := c)
  case exiting => exact hres ▸ .exited (c := c)
  case clientDone => exact hres ▸ .finished (c := c)

end Aesd.Server
