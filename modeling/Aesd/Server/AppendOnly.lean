import Aesd.Server.Descriptors
import Aesd.Server.Storage

/-!
# The data file when anything may fail

The build with a regular file over a system whose calls may fail at any time,
and whose reads and writes may be short. After a failed write the second unlock
lets other threads into the section, and yet no byte of the file is ever
changed: it only grows, and whoever reads it reads a part of it from its start.
-/
namespace Aesd.Server

open PartialRun

/-- The calls on the data file, with every answer they can give. A descriptor is gone also when
`close` reports an error. -/
def Disk.faulty (d : Disk (List UInt8)) : Call → Answer → Option (Disk (List UInt8))
  | .openFile mode, .fd n =>
    if d.files n = none then
      some ⟨if mode = .truncate then [] else d.store, Function.update d.files n (some 0)⟩
    else none
  | .write fd data, .count n =>
    if d.files fd ≠ none ∧ n ≤ data.length then some { d with store := d.store ++ data.take n }
    else none
  | .fsync fd, .done => if d.files fd ≠ none then some d else none
  | .closeFile fd, .done =>
    if d.files fd ≠ none then some { d with files := Function.update d.files fd none } else none
  | .closeFile fd, .failed => some { d with files := Function.update d.files fd none }
  | .read fd, .bytes l => (d.files fd).bind fun pos =>
    if l <+: d.store.drop pos.toNat ∧ l.length ≤ fileBufSize then
      some { d with files := Function.update d.files fd (some (pos + l.length)) }
    else none
  -- A regular file has no commands.
  | .ioctl _ _ _, .done => none
  | _, _ => some d

def faultyFile : Os (Disk (List UInt8)) := ⟨Disk.faulty⟩

/-- The bytes `write` has taken. -/
def written (tr : Trace) : List UInt8 :=
  tr.flatMap fun
    | (.write _ data, .count n) => data.take n
    | _ => []

/-- What a thread has sent since it last opened the file. -/
def tell (l : List UInt8) (e : Call × Answer) : List UInt8 :=
  (match e.1 with
    | .openFile _ => []
    | _ => l) ++ given e

def told (tr : Trace) : List UInt8 := tr.foldl tell []

/-- The file a thread works with. -/
def World.file {σ : Type} (w : World σ) : Tid → Option Nat
  | .main => match w.main with
    | .clearClose fd => some fd
    | _ => none
  | .stamp => w.stamp.bind fun st => match st.pc with
    | .writing w => w.file
    | _ => none
  | .client i => (w.clients[i]?).bind fun c => c.pc.file

/-- What one step does to the descriptors and to the file of its thread. -/
inductive Trade (files files' : Nat → Option Int) (before behind : Option Nat) : Prop
  | opened {n : Nat} (hnew : files n = none) (hfiles : files' = Function.update files n (some 0))
      (hbefore : before = none) (hbehind : behind = some n)
  | closed {n : Nat} (hfiles : files' = Function.update files n none) (hbefore : before = some n)
      (hbehind : behind = none)
  | moved {n : Nat} {pos : Int} (hfiles : files' = Function.update files n (some pos))
      (hbefore : before = some n) (hbehind : behind = some n)
  | kept (hfiles : files' = files) (hbehind : behind = before ∨ behind = none)

/-- Every thread has a descriptor of its own. -/
structure Apart {σ : Type} (files : Nat → Option Int) (w : World σ) : Prop where
  held : ∀ tid fd, w.file tid = some fd → files fd ≠ none
  own : ∀ tid tid' fd, w.file tid = some fd → w.file tid' = some fd → tid = tid'

/-- The file while a handler that has sent `l` since it opened it stands here. -/
def Pc.Shows (d : Disk (List UInt8)) (l : List UInt8) : Pc → Prop
  | .reading _ fd => d.files fd = some (l.length : Int) ∧ l <+: d.store
  | .sending _ fd rest => d.files fd = some ((l ++ rest).length : Int) ∧ l ++ rest <+: d.store
  | _ => l <+: d.store

variable {σ : Type} {build : Build} {os : Os σ} {w t : World σ} {d d' : Disk (List UInt8)}

theorem faulty_open {mode : OpenMode} {n : Nat} (hd : d.faulty (.openFile mode) (.fd n) = some d') :
    d.files n = none ∧ d'.files = Function.update d.files n (some 0) ∧
      d'.store = if mode = .truncate then [] else d.store := by
  simp only [Disk.faulty] at hd
  split_ifs at hd with hnew hmode <;> cases hd
  · exact ⟨hnew, rfl, (if_pos hmode).symm⟩
  · exact ⟨hnew, rfl, (if_neg hmode).symm⟩

/-- However `close` ends, the descriptor is gone. -/
theorem faulty_close {fd : Nat} {a : Answer} (ha : a = .done ∨ a = .failed)
    (hd : d.faulty (.closeFile fd) a = some d') :
    d'.files = Function.update d.files fd none ∧ d'.store = d.store := by
  rcases ha with rfl | rfl <;> simp only [Disk.faulty] at hd
  · split_ifs at hd
    cases hd
    exact ⟨rfl, rfl⟩
  · cases hd
    exact ⟨rfl, rfl⟩

/-- The calls that leave the descriptors alone. -/
theorem faulty_files {call : Call} {a : Answer} (hopen : ∀ mode, call ≠ .openFile mode)
    (hclose : ∀ fd, call ≠ .closeFile fd) (hread : ∀ fd, call ≠ .read fd)
    (hd : d.faulty call a = some d') : d'.files = d.files := by
  unfold Disk.faulty at hd
  split at hd
  · exact absurd rfl (hopen _)
  · split_ifs at hd
    cases hd
    rfl
  · split_ifs at hd
    cases hd
    rfl
  · exact absurd rfl (hclose _)
  · exact absurd rfl (hclose _)
  · exact absurd rfl (hread _)
  · cases hd
  · cases hd
    rfl

/-- One call of `write_to_file`. -/
theorem write_trade {data : List UInt8} {p : WritePc} {a : Answer} {next : WritePc ⊕ Bool}
    (hd : d.faulty (p.call data) a = some d') (h : p.resume a = some next) :
    Trade d.files d'.files p.file (next.elim WritePc.file fun _ => none) := by
  cases p with
  | openFile =>
    cases a <;> cases h
    · exact .kept (by cases hd; rfl) (Or.inl rfl)
    · obtain ⟨hnew, hfiles, -⟩ := faulty_open hd
      exact .opened hnew hfiles rfl rfl
  | write fd =>
    have hfiles := faulty_files (by simp [WritePc.call]) (by simp [WritePc.call])
      (by simp [WritePc.call]) hd
    cases a <;> cases h <;> exact .kept hfiles (Or.inl rfl)
  | fsync fd =>
    have hfiles := faulty_files (by simp [WritePc.call]) (by simp [WritePc.call])
      (by simp [WritePc.call]) hd
    cases a <;> cases h <;> exact .kept hfiles (Or.inl rfl)
  | writeFailed fd | fsyncFailed fd | closeFile fd =>
    cases a <;> cases h
    · exact .closed (faulty_close (Or.inl rfl) hd).1 rfl rfl
    · exact .closed (faulty_close (Or.inr rfl) hd).1 rfl rfl

/-- One step of a handler. -/
theorem conn_trade {c c' : Conn} {e : Call × Answer} (hd : d.faulty e.1 e.2 = some d')
    (h : c.step build e = some c') : Trade d.files d'.files c.pc.file c'.pc.file := by
  obtain ⟨call, a⟩ := e
  cases move_of_step h
  case writes hw => exact write_trade hd hw
  case wrote ok hw =>
    have htrade := write_trade hd hw
    cases ok <;> exact htrade
  case seekOpened | opened =>
    obtain ⟨hnew, hfiles, -⟩ := faulty_open hd
    exact .opened hnew hfiles rfl rfl
  case closed ha => exact .closed (faulty_close ha hd).1 rfl rfl
  case closedUnsent s fd ha => cases s <;> exact .closed (faulty_close ha hd).1 rfl rfl
  case read fd l hlen hne =>
    obtain ⟨pos, -, hread⟩ := Option.bind_eq_some_iff.mp hd
    split_ifs at hread
    cases hread
    exact .moved rfl rfl rfl
  case readEnds fd a ha =>
    rcases ha with rfl | rfl
    · obtain ⟨pos, -, hread⟩ := Option.bind_eq_some_iff.mp hd
      split_ifs at hread
      cases hread
      exact .moved rfl rfl rfl
    · exact .kept (by cases hd; rfl) (Or.inl rfl)
  case seekNotOpened | notOpened => exact .kept (by cases hd; rfl) (Or.inl rfl)
  case positioned => cases hd
  case notPositioned => exact .kept (by cases hd; rfl) (Or.inr rfl)
  all_goals have hfiles := faulty_files (by simp) (by simp) (by simp) hd
  case stored b rest mem _ _ => by_cases hb : b = newline <;> exact .kept hfiles (by simp [hb, Pc.file])
  case dispatched => cases build <;> exact .kept hfiles (Or.inl rfl)
  case finished c =>
    refine .kept hfiles (Or.inr ?_)
    unfold Conn.finish
    split <;> rfl
  case killed => exact .kept hfiles (Or.inr rfl)
  all_goals exact .kept hfiles (Or.inl rfl)

theorem stamp_trade {st st' : Stamp} {a : Answer} (hd : d.faulty st.call a = some d')
    (h : st.resume a = some st') : Trade d.files d'.files (match st.pc with
      | .writing w => w.file
      | _ => none) (match st'.pc with
      | .writing w => w.file
      | _ => none) := by
  obtain ⟨pc, timeStr⟩ := st
  cases pc with
  | writing p =>
    obtain ⟨next, hnext, rfl⟩ := Option.map_eq_some_iff.mp h
    have htrade := write_trade hd hnext
    rcases next with p' | ok <;> exact htrade
  | sleep | unlock | lock =>
    have hfiles := faulty_files (by simp [Stamp.call]) (by simp [Stamp.call]) (by simp [Stamp.call]) hd
    cases a <;> cases h
    exact .kept hfiles (Or.inl rfl)

/-- `main` opens nothing but the file it clears. -/
theorem main_file_none {u : World σ} {a : Answer} (h : w.resumeMain build a = some u)
    (hclear : w.main ≠ .clear) : u.file .main = none := by
  cases hmain : w.main <;> cases a <;>
    simp only [World.resumeMain, hmain, Option.some.injEq, reduceCtorEq] at h
  case clear.failed | clear.fd => exact absurd hmain hclear
  case sweep.done items =>
    cases items with
    | nil =>
      cases h
      rfl
    | cons item items =>
      simp only at h
      split_ifs at h <;> cases h <;> rfl
  case joining.done item items =>
    split_ifs at h
    cases h
    rfl
  case setup.done => cases build <;> exact h ▸ rfl
  all_goals
    subst h
    simp [World.file, hmain]

theorem main_trade {u : World σ} {a : Answer} (hd : d.faulty w.main.call a = some d')
    (h : w.resumeMain build a = some u) :
    Trade d.files d'.files (w.file .main) (u.file .main) := by
  cases hmain : w.main with
  | clear =>
    rw [hmain] at hd
    cases a <;> simp only [World.resumeMain, hmain, Option.some.injEq, reduceCtorEq] at h
    · subst h
      exact .kept (by cases hd; rfl) (Or.inr rfl)
    · subst h
      obtain ⟨hnew, hfiles, -⟩ := faulty_open hd
      exact .opened hnew hfiles (by simp [World.file, hmain]) rfl
  | clearClose fd =>
    rw [hmain] at hd
    have hbefore : w.file .main = some fd := by simp [World.file, hmain]
    have hbehind := main_file_none h (by simp [hmain])
    cases a <;> simp only [World.resumeMain, hmain, reduceCtorEq] at h
    · exact .closed (faulty_close (Or.inl rfl) hd).1 hbefore hbehind
    · exact .closed (faulty_close (Or.inr rfl) hd).1 hbefore hbehind
  | setup | createStamp | accept | create | insert | sweep | joining =>
    rw [hmain] at hd
    have hfiles := faulty_files (by simp [MainPc.call]) (by simp [MainPc.call])
      (by simp [MainPc.call]) hd
    exact .kept hfiles (Or.inr (main_file_none h (by simp [hmain])))

/-- The other threads keep their files. -/
theorem file_kept {e : Event} (h : w.step build os e = some t)
    (hstamp : w.main.starting = true → w.stamp = none) {tid : Tid} (hne : tid ≠ e.tid) :
    t.file tid = w.file tid := by
  obtain ⟨-, s, m, u, -, -, hu, rfl⟩ := World.step_eq_some.mp h
  obtain ⟨etid, call, a⟩ := e
  cases etid with
  | main =>
    obtain ⟨hclients, hstamps⟩ := resumeMain_cases (World.thread_main.mp hu).2
    cases tid with
    | main => exact absurd rfl hne
    | stamp =>
      rcases hstamps with hsame | ⟨hmain, hnew⟩
      · exact congrArg (fun st : Option Stamp => st.bind _) hsame
      · have hnone := hstamp (by rw [hmain]; rfl)
        simp [World.file, hnew, hnone, Stamp.start]
    | client i =>
      rcases hclients with hsame | ⟨fd, -, hnew⟩
      · exact congrArg (fun l : List Conn => (l[i]?).bind fun c => c.pc.file) hsame
      · simp only [World.file, hnew, List.getElem?_append]
        split_ifs with hlt
        · rfl
        · rw [List.getElem?_eq_none (Nat.le_of_not_lt hlt), List.getElem?_singleton]
          split_ifs <;> rfl
  | stamp =>
    obtain ⟨st, st', -, -, -, rfl⟩ := World.thread_stamp.mp hu
    cases tid with
    | stamp => exact absurd rfl hne
    | main | client => rfl
  | client i =>
    obtain ⟨c, c', -, -, rfl⟩ := World.thread_client.mp hu
    cases tid with
    | main | stamp => rfl
    | client j =>
      have hij : i ≠ j := fun heq => hne (congrArg _ heq.symm)
      simp only [World.file, List.getElem?_set_ne hij]

/-- The thread of the event makes its trade. -/
theorem step_trade {w t : World (Disk (List UInt8))} {e : Event}
    (h : w.step build faultyFile e = some t) :
    Trade w.os.files t.os.files (w.file e.tid) (t.file e.tid) := by
  obtain ⟨-, s, m, u, hs, -, hu, rfl⟩ := World.step_eq_some.mp h
  obtain ⟨tid, call, a⟩ := e
  cases tid with
  | main =>
    obtain ⟨rfl, hres⟩ := World.thread_main.mp hu
    have htrade : Trade w.os.files s.files (w.file .main) (u.file .main) := main_trade hs hres
    exact htrade
  | stamp =>
    obtain ⟨st, st', hst, rfl, hres, rfl⟩ := World.thread_stamp.mp hu
    simp only [World.file, hst, Option.bind_some]
    exact stamp_trade hs hres
  | client i =>
    obtain ⟨c, c', hc, hstep, rfl⟩ := World.thread_client.mp hu
    have hset : (w.clients.set i c')[i]? = some c' :=
      List.getElem?_set_self (List.getElem?_eq_some_iff.mp hc).1
    simp only [World.file, hc, hset, Option.bind_some]
    have hd : w.os.faulty call a = some s := hs
    exact conn_trade (e := (call, a)) hd hstep

/-- A descriptor that is new belongs to nobody else, and nobody closes that of another thread. -/
theorem Apart.step {w t : World (Disk (List UInt8))} {e : Event} (ha : Apart w.os.files w)
    (h : w.step build faultyFile e = some t) (hstamp : w.main.starting = true → w.stamp = none) :
    Apart t.os.files t ∧ ∀ tid fd, tid ≠ e.tid → w.file tid = some fd →
      t.os.files fd = w.os.files fd := by
  have hothers : ∀ {tid : Tid}, tid ≠ e.tid → t.file tid = w.file tid := file_kept h hstamp
  have htrade := step_trade h
  have hframe : ∀ tid fd, tid ≠ e.tid → w.file tid = some fd → t.os.files fd = w.os.files fd := by
    intro tid fd hne hfd
    cases htrade with
    | @opened n hnew hfiles hbefore hbehind =>
      have hfdn : fd ≠ n := by
        rintro rfl
        exact ha.held tid fd hfd hnew
      rw [hfiles, Function.update_of_ne hfdn]
    | @closed n hfiles hbefore hbehind =>
      have hfdn : fd ≠ n := by
        rintro rfl
        exact hne (ha.own tid e.tid fd hfd hbefore)
      rw [hfiles, Function.update_of_ne hfdn]
    | @moved n pos hfiles hbefore hbehind =>
      have hfdn : fd ≠ n := by
        rintro rfl
        exact hne (ha.own tid e.tid fd hfd hbefore)
      rw [hfiles, Function.update_of_ne hfdn]
    | kept hfiles hbehind => rw [hfiles]
  have hself : ∀ fd, t.file e.tid = some fd → t.os.files fd ≠ none ∧
      ∀ tid, tid ≠ e.tid → w.file tid ≠ some fd := by
    intro fd hfd
    cases htrade with
    | @opened n hnew hfiles hbefore hbehind =>
      obtain rfl : n = fd := Option.some.inj (hbehind.symm.trans hfd)
      refine ⟨by simp [hfiles], fun tid hne hother => ha.held tid n hother hnew⟩
    | @closed n hfiles hbefore hbehind =>
      rw [hbehind] at hfd
      cases hfd
    | @moved n pos hfiles hbefore hbehind =>
      obtain rfl : n = fd := Option.some.inj (hbehind.symm.trans hfd)
      exact ⟨by simp [hfiles], fun tid hne hother => hne (ha.own tid e.tid n hother hbefore)⟩
    | kept hfiles hbehind =>
      rcases hbehind with hsame | hnone
      · rw [hsame] at hfd
        exact ⟨hfiles ▸ ha.held e.tid fd hfd, fun tid hne hother =>
          hne (ha.own tid e.tid fd hother hfd)⟩
      · rw [hnone] at hfd
        cases hfd
  refine ⟨⟨fun tid fd hfd => ?_, fun tid tid' fd hfd hfd' => ?_⟩, hframe⟩
  · by_cases htid : tid = e.tid
    · subst htid
      exact (hself fd hfd).1
    · rw [hothers htid] at hfd
      rw [hframe tid fd htid hfd]
      exact ha.held tid fd hfd
  · by_cases htid : tid = e.tid <;> by_cases htid' : tid' = e.tid
    · rw [htid, htid']
    · rw [htid] at hfd
      rw [hothers htid'] at hfd'
      exact absurd hfd' ((hself fd hfd).2 tid' htid')
    · rw [htid'] at hfd'
      rw [hothers htid] at hfd
      exact absurd hfd ((hself fd hfd').2 tid htid)
    · rw [hothers htid] at hfd
      rw [hothers htid'] at hfd'
      exact ha.own tid tid' fd hfd hfd'

/-- No call but the one that clears the file changes what is in it. -/
theorem faulty_store {call : Call} {a : Answer} (hmode : call ≠ .openFile .truncate)
    (hd : d.faulty call a = some d') : d'.store = d.store ++ written [(call, a)] := by
  unfold Disk.faulty at hd
  split at hd
  case h_1 mode n =>
    split_ifs at hd with hnew htruncate <;> cases hd
    · exact absurd (congrArg Call.openFile htruncate) hmode
    · exact (List.append_nil _).symm
  case h_2 fd data n =>
    split_ifs at hd
    cases hd
    simp [written]
  case h_6 fd l =>
    obtain ⟨pos, -, hread⟩ := Option.bind_eq_some_iff.mp hd
    split_ifs at hread
    cases hread
    exact (List.append_nil _).symm
  case h_7 => cases hd
  case h_8 _ _ _ hwrite _ _ _ _ _ =>
    have hnone : written [(call, a)] = [] := by
      cases call <;> cases a <;> first | rfl | exact (hwrite _ _ _ rfl rfl).elim
    cases hd
    rw [hnone, List.append_nil]
  all_goals
    first | split_ifs at hd | skip
    cases hd
    exact (List.append_nil _).symm

/-- What other threads do to a file that only grows. -/
theorem Pc.Shows.mono {pc : Pc} {l : List UInt8} (h : pc.Shows d l)
    (hfiles : ∀ fd, pc.file = some fd → d'.files fd = d.files fd) (hstore : d.store <+: d'.store) :
    pc.Shows d' l := by
  cases pc with
  | reading s fd => exact ⟨(hfiles fd rfl).trans h.1, h.2.trans hstore⟩
  | sending s fd rest => exact ⟨(hfiles fd rfl).trans h.1, h.2.trans hstore⟩
  | _ => exact List.IsPrefix.trans h hstore

theorem Pc.Shows.sent {pc : Pc} {l : List UInt8} (h : pc.Shows d l) : l <+: d.store := by
  cases pc with
  | reading s fd => exact h.2
  | sending s fd rest => exact (List.prefix_append l rest).trans h.2
  | _ => exact h

/-- Only `main` truncates. -/
theorem conn_call_append {c c' : Conn} {e : Call × Answer} (h : c.step build e = some c') :
    e.1 ≠ .openFile .truncate := by
  obtain ⟨call, a⟩ := e
  cases move_of_step h
  case writes w w' hw => cases w <;> simp [WritePc.call]
  case wrote w ok hw => cases w <;> simp [WritePc.call]
  all_goals simp

/-- Nothing is sent from `write_to_file`. -/
theorem tell_write (l data : List UInt8) (p : WritePc) (a : Answer) :
    tell l (p.call data, a) <+: l := by
  cases p <;> simp [tell, given, WritePc.call]

/-- One step of a handler: what it has sent stays a part of the file from its start. -/
theorem conn_shows {c c' : Conn} {e : Call × Answer} {l : List UInt8} (hc : c.pc.Shows d l)
    (hd : d.faulty e.1 e.2 = some d') (h : c.step build e = some c') :
    c'.pc.Shows d' (tell l e) := by
  have hgrown := faulty_store (conn_call_append h) hd
  have hstore : d.store <+: d'.store := hgrown ▸ List.prefix_append _ _
  have hsent := hc.sent.trans hstore
  obtain ⟨call, a⟩ := e
  cases move_of_step h
  case read s fd l' hlen hne =>
    obtain ⟨hpos, hl⟩ := hc
    obtain ⟨pos, hfile, hread⟩ := Option.bind_eq_some_iff.mp hd
    rw [hpos] at hfile
    cases hfile
    split_ifs at hread with hbytes
    cases hread
    obtain ⟨behind, hbehind⟩ := hl
    rw [Int.toNat_natCast, ← hbehind, List.drop_left] at hbytes
    have htell : tell l (.read fd, .bytes l') = l := List.append_nil l
    rw [htell]
    refine ⟨by simp, ?_⟩
    rw [← hbehind]
    exact (List.prefix_append_right_inj l).mpr hbytes.1
  case sentPart s fd n rest hn hrest =>
    cases hd
    have htell : tell l (.send rest, .count n) ++ rest.drop n = l ++ rest := by
      rw [tell, given, List.append_assoc, List.take_append_drop]
    rw [Pc.Shows, htell]
    exact hc
  case sentAll s fd n rest hn hrest =>
    cases hd
    have hall : rest.take n = rest := List.take_of_length_le (List.drop_eq_nil_iff.mp hrest)
    have htell : tell l (.send rest, .count n) = l ++ rest := by rw [tell, given, hall]
    rw [Pc.Shows, htell]
    exact hc
  case opened n =>
    obtain ⟨-, hfiles, -⟩ := faulty_open hd
    exact ⟨by simp [hfiles, tell, given], List.nil_prefix⟩
  case writes => exact (tell_write _ _ _ _).trans hsent
  case wrote ok hw => cases ok <;> exact (tell_write _ _ _ _).trans hsent
  case seekOpened | seekNotOpened | notOpened => exact List.nil_prefix
  case positioned => cases hd
  all_goals have hkept : l ++ [] <+: d'.store := by rwa [List.append_nil]
  case stored => split_ifs <;> exact hkept
  case dispatched => cases build <;> exact hkept
  case closedUnsent s fd ha => cases s <;> exact hkept
  case finished c =>
    unfold Conn.finish
    split <;> exact hkept
  all_goals exact hkept

/-- The file and its readers after a run over a file that held `old`. -/
structure Growing (old : Disk (List UInt8)) (tr : List Event) (w : World (Disk (List UInt8))) :
    Prop where
  apart : Apart w.os.files w
  shows : ∀ (i : Nat) (c : Conn), w.clients[i]? = some c →
    c.pc.Shows w.os (told (project (.client i) tr))
  idle : w.main.starting = true → w.clients = []
  first : w.main = .clear → tr = []
  content : w.os.store = written (calls tr) ∨ w.os.store = old.store ++ written (calls tr)
  grown : ∀ pre u, pre <+: tr →
    run (World.step .file faultyFile) (World.start .file old) pre = some u → u.main ≠ .clear →
      u.os.store <+: w.os.store

theorem told_concat (tr : Trace) (e : Call × Answer) : told (tr ++ [e]) = tell (told tr) e := by
  simp [told]

theorem start_growing (old : Disk (List UInt8)) : Growing old [] (World.start .file old) where
  apart := by
    have hnone : ∀ tid, (World.start .file old).file tid = none := fun tid => by cases tid <;> rfl
    refine ⟨fun tid fd hfd => ?_, fun tid _ fd hfd => ?_⟩ <;>
    · rw [hnone] at hfd
      cases hfd
  shows i c hc := by cases hc
  idle _ := rfl
  first _ := rfl
  content := Or.inr (List.append_nil _).symm
  grown pre u hpre hu hclear := by
    rw [List.prefix_nil.mp hpre] at hu
    cases hu
    exact absurd rfl hclear

variable {old : Disk (List UInt8)} {tr : List Event} {w t : World (Disk (List UInt8))} {e : Event}

/-- A connection that is not the one of the event was there before, or is new. -/
theorem client_cases {i : Nat} {c : Conn} (h : w.step build faultyFile e = some t)
    (hne : e.tid ≠ .client i) (hc : t.clients[i]? = some c) :
    w.clients[i]? = some c ∨ w.clients[i]? = none ∧ ∃ fd, c = Conn.start fd := by
  obtain ⟨-, s, m, u, -, -, hu, rfl⟩ := World.step_eq_some.mp h
  obtain ⟨tid, call, a⟩ := e
  cases tid with
  | main =>
    rcases (resumeMain_cases (World.thread_main.mp hu).2).1 with hsame | ⟨fd, -, hnew⟩
    · exact Or.inl ((congrArg (·[i]?) hsame).symm.trans hc)
    · simp only [hnew, List.getElem?_append] at hc
      split_ifs at hc with hlt
      · exact Or.inl hc
      · rw [List.getElem?_singleton] at hc
        split_ifs at hc
        cases hc
        exact Or.inr ⟨List.getElem?_eq_none (Nat.le_of_not_lt hlt), fd, rfl⟩
  | stamp =>
    obtain ⟨st, st', -, -, -, rfl⟩ := World.thread_stamp.mp hu
    exact Or.inl hc
  | client j =>
    obtain ⟨v, v', -, -, rfl⟩ := World.thread_client.mp hu
    have hij : j ≠ i := fun heq => hne (congrArg _ heq)
    exact Or.inl ((List.getElem?_set_ne hij).symm.trans hc)

/-- Behind the first call of `main` nobody truncates the file. -/
theorem call_append (h : w.step build faultyFile e = some t) (hclear : w.main ≠ .clear) :
    e.call ≠ .openFile .truncate := by
  obtain ⟨-, s, m, u, -, -, hu, rfl⟩ := World.step_eq_some.mp h
  obtain ⟨tid, call, a⟩ := e
  cases tid with
  | main =>
    rw [← (World.thread_main.mp hu).1]
    cases hmain : w.main <;> simp [MainPc.call] at hclear ⊢
    exact hclear hmain
  | stamp =>
    obtain ⟨⟨pc, timeStr⟩, st', -, rfl, -, -⟩ := World.thread_stamp.mp hu
    rcases pc with _ | _ | p | _
    case writing => cases p <;> simp [Stamp.call, WritePc.call]
    all_goals simp [Stamp.call]
  | client i =>
    obtain ⟨c, c', -, hstep, -⟩ := World.thread_client.mp hu
    exact conn_call_append hstep

/-- The first step. -/
theorem Growing.clear (hstep : (World.start .file old).step .file faultyFile e = some t) :
    Growing old [e] t := by
  obtain ⟨-, s, m, u, hs, -, hu, rfl⟩ := World.step_eq_some.mp hstep
  obtain ⟨happart, -⟩ := (start_growing old).apart.step hstep fun _ => rfl
  obtain ⟨tid, call, a⟩ := e
  cases tid with
  | stamp =>
    obtain ⟨st, st', hst, -⟩ := World.thread_stamp.mp hu
    cases hst
  | client i =>
    obtain ⟨c, c', hc, -⟩ := World.thread_client.mp hu
    cases hc
  | main =>
    obtain ⟨hcall, hres⟩ := World.thread_main.mp hu
    obtain ⟨hnot, -, -⟩ := resumeMain_starting hres
    have hclients : u.clients = [] := by
      rcases (resumeMain_cases hres).1 with hsame | ⟨fd, hmain, -⟩
      · exact hsame
      · cases hmain
    have hcontent : s.store = [] ∨ s.store = old.store ++ [] := by
      cases hcall
      cases a <;> simp only [World.resumeMain, World.start, if_pos, reduceCtorEq] at hres
      · exact Or.inr (by cases hs; exact (List.append_nil _).symm)
      · exact Or.inl (by rw [(faulty_open hs).2.2, if_pos rfl])
    have hwritten : written (calls [⟨.main, call, a⟩]) = [] := by
      cases hcall
      rfl
    refine ⟨happart, fun i c hc => ?_, fun _ => hclients, fun hclear => absurd hclear hnot, ?_, ?_⟩
    · simp [hclients] at hc
    · rw [hwritten]
      exact hcontent
    · intro pre v hpre hv hclear
      rcases List.prefix_concat_iff.mp (show pre <+: [] ++ [_] from hpre) with rfl | hnil
      · obtain ⟨v', hv', hstep'⟩ := run_concat_eq_some.mp hv
        cases hv'
        rw [hstep] at hstep'
        cases hstep'
        exact List.prefix_rfl
      · rw [List.prefix_nil.mp hnil] at hv
        cases hv
        exact absurd rfl hclear

/-- `main` clears the file before anything else, and starts no connection while it prepares. -/
theorem Growing.early (hg : Growing old tr w) (h : w.step .file faultyFile e = some t)
    (hclear : w.main ≠ .clear) : (t.main.starting = true → t.clients = []) ∧ t.main ≠ .clear := by
  obtain ⟨-, s, m, u, -, -, hu, rfl⟩ := World.step_eq_some.mp h
  obtain ⟨tid, call, a⟩ := e
  cases tid with
  | main =>
    obtain ⟨hnot, hearly, -⟩ := resumeMain_starting (World.thread_main.mp hu).2
    refine ⟨fun hstarting => ?_, hnot⟩
    obtain ⟨hbefore, hsame, -⟩ := hearly hstarting
    exact hsame.trans (hg.idle hbefore)
  | stamp =>
    obtain ⟨st, st', -, -, -, rfl⟩ := World.thread_stamp.mp hu
    exact ⟨hg.idle, hclear⟩
  | client i =>
    obtain ⟨c, c', hc, -, rfl⟩ := World.thread_client.mp hu
    refine ⟨fun hstarting => ?_, hclear⟩
    rw [hg.idle hstarting] at hc
    cases hc

theorem Growing.step (hg : Growing old tr w)
    (hrun : run (World.step .file faultyFile) (World.start .file old) tr = some w)
    (h : w.step .file faultyFile e = some t) : Growing old (tr ++ [e]) t := by
  by_cases hclear : w.main = .clear
  · obtain rfl := hg.first hclear
    cases hrun
    exact Growing.clear h
  have hstarting := (run_stamp_recorded hrun).1
  obtain ⟨happart, hframe⟩ := hg.apart.step h hstarting
  have hstore : t.os.store = w.os.store ++ written [(e.call, e.answer)] := by
    obtain ⟨-, s, m, u, hs, -, -, rfl⟩ := World.step_eq_some.mp h
    exact faulty_store (call_append h hclear) hs
  have hmore : w.os.store <+: t.os.store := hstore ▸ List.prefix_append _ _
  obtain ⟨hidle, hnot⟩ := hg.early h hclear
  refine ⟨happart, fun i c hc => ?_, hidle, fun hfirst => absurd hfirst hnot, ?_,
    fun pre u hpre hu hne => ?_⟩
  · by_cases htid : e.tid = .client i
    · obtain ⟨-, s, m, u, hs, -, hu, rfl⟩ := World.step_eq_some.mp h
      obtain ⟨tid, call, a⟩ := e
      obtain rfl : tid = .client i := htid
      obtain ⟨v, v', hv, hstep, rfl⟩ := World.thread_client.mp hu
      have hset : (w.clients.set i v')[i]? = some v' :=
        List.getElem?_set_self (List.getElem?_eq_some_iff.mp hv).1
      obtain rfl : v' = c := Option.some.inj (hset.symm.trans hc)
      rw [project_concat_self, told_concat]
      exact conn_shows (e := (call, a)) (hg.shows i v hv) hs hstep
    · rw [project_concat_ne htid]
      rcases client_cases h htid hc with hold | ⟨hnone, fd, rfl⟩
      · refine (hg.shows i c hold).mono (fun fd hfd => ?_) hmore
        refine hframe (.client i) fd (Ne.symm htid) ?_
        simp [World.file, hold, hfd]
      · rw [(run_project hrun i).1 hnone]
        exact List.nil_prefix
  · rw [calls_concat, written, List.flatMap_append, hstore]
    rcases hg.content with hcontent | hcontent
    · exact Or.inl (by rw [hcontent]; rfl)
    · exact Or.inr (by rw [hcontent, List.append_assoc]; rfl)
  · rcases List.prefix_concat_iff.mp hpre with rfl | hpre
    · obtain ⟨v, hv, hstep⟩ := run_concat_eq_some.mp hu
      rw [hrun] at hv
      cases hv
      rw [h] at hstep
      cases hstep
      exact List.prefix_rfl
    · exact (hg.grown pre u hpre hu hne).trans hmore

theorem run_growing (h : run (World.step .file faultyFile) (World.start .file old) tr = some w) :
    Growing old tr w :=
  run_invariant (I := Growing old) (start_growing old) (fun _ _ _ _ hes ht ih => ih.step hes ht) h

/-- Whatever fails: behind the clearing the file only grows, by the bytes `write` has taken and in their
order, and what a client is sent between two openings is the file from its start. -/
theorem file_append_only (old : Disk (List UInt8)) (tr : List Event) (w : World (Disk (List UInt8)))
    (h : run (World.step .file faultyFile) (World.start .file old) tr = some w) :
    (w.os.store = written (calls tr) ∨ w.os.store = old.store ++ written (calls tr)) ∧
      (∀ i, told (project (.client i) tr) <+: w.os.store) ∧
      ∀ pre u, pre <+: tr → run (World.step .file faultyFile) (World.start .file old) pre = some u →
        u.main ≠ .clear → u.os.store <+: w.os.store := by
  have hg := run_growing h
  refine ⟨hg.content, fun i => ?_, hg.grown⟩
  cases hc : w.clients[i]? with
  | none =>
    rw [(run_project h i).1 hc]
    exact List.nil_prefix
  | some c => exact (hg.shows i c hc).sent

/-- A line of which `write` takes the first byte only, and a client that reads it. -/
def shortened : List Event :=
  connected ++ byClient 0 [(.recv, .bytes [97, 10]), (.tau, .done),
    (.realloc 1024, .memory (List.replicate 1024 0)), (.tau, .done), (.tau, .done), (.tau, .done),
    (.process [97, 10], .memory []), (.lock [97, 10], .done), (.openFile .append, .fd 5),
    (.write 5 [97, 10], .count 1), (.fsync 5, .failed), (.closeFile 5, .done), (.unlock, .done),
    (.openFile .readOnly, .fd 5), (.read 5, .bytes [97]), (.send [97], .count 1)]

theorem file_append_only_shortened : ∃ w,
    run (World.step .file faultyFile) (World.start .file ⟨[111], fun _ => none⟩) shortened = some w ∧
      told (project (.client 0) shortened) <+: w.os.store := by
  obtain ⟨w, hw⟩ := Option.isSome_iff_exists.mp (show
    (run (World.step .file faultyFile) (World.start .file ⟨[111], fun _ => none⟩)
      shortened).isSome = true by decide +kernel)
  exact ⟨w, hw, (file_append_only _ shortened w hw).2.1 0⟩

end Aesd.Server
