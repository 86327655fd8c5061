import Aesd.Server.Registry
import Aesd.Server.Threads

/-!
# Records and threads

How the memory of `main` stands for its list of threads: the tail queue holds
the records of the listed threads, every thread that has not been joined has a
record and a `pthread_t` of its own, and nothing else is allocated. Every step
of `main` and of a handler keeps it so.
-/
namespace Aesd.Server

open PartialRun Exclusion TailQueue

variable {σ : Type} {build : Build} {os : Os σ} {p p' : Process σ} {w w' : World σ}

namespace Process

/-- The address of a thread's record. -/
def addr (p : Process σ) (i : Nat) : Addr := (p.params[i]?).getD 0

/-- The record of thread `i` at `a`, with its `pthread_t` at `t`. -/
def Owns (p : Process σ) (i : Nat) (a t : Addr) (c : Conn) : Prop :=
  p.params[i]? = some a ∧ p.handlers[i]? = some c ∧
    p.activeThreads.data a = some ⟨some t, c.threadCompleteSuccess, c.clientFd⟩ ∧
    p.threads t = some (some i)

theorem addr_eq {i : Nat} {a : Addr} (h : p.params[i]? = some a) : p.addr i = a := by
  rw [addr, h]
  rfl

/-- Two threads never share a record. -/
theorem Owns.inj {i j : Nat} {a t t' : Addr} {c c' : Conn} (h : p.Owns i a t c)
    (h' : p.Owns j a t' c') : i = j := by
  obtain ⟨-, -, hdata, hblock⟩ := h
  obtain ⟨-, -, hdata', hblock'⟩ := h'
  rw [hdata] at hdata'
  obtain rfl : t = t' := by simpa using (congrArg ThreadData.thread (Option.some.inj hdata'))
  rw [hblock] at hblock'
  simpa using hblock'

theorem Owns.congr {i : Nat} {a t : Addr} {c : Conn} (h : p.Owns i a t c)
    (hparam : p'.params[i]? = p.params[i]?) (hhandler : p'.handlers[i]? = p.handlers[i]?)
    (hdata : p'.activeThreads.data a = p.activeThreads.data a) (hblock : p'.threads t = p.threads t) :
    p'.Owns i a t c :=
  ⟨hparam.trans h.1, hhandler.trans h.2.1, hdata.trans h.2.2.1, hblock.trans h.2.2.2⟩

end Process

/-- The record `main` has allocated and not yet handed to a thread. -/
def ListPc.newRecord : ListPc → Option Addr
  | .allocThread _ tdata | .create _ tdata => some tdata
  | _ => none

/-- Where `main` stands in both processes. -/
def Control (p : Process σ) (w : World σ) : Prop :=
  match p.main with
  | .clear => w.main = .clear
  | .clearClose fd => w.main = .clearClose fd
  | .setup => w.main = .setup
  | .createStamp => w.main = .createStamp
  | .accept => w.main = .accept
  | .allocData fd => w.main = .create fd
  | .allocThread fd a => w.main = .create fd ∧ ∃ d, p.activeThreads.data a = some d
  | .create fd a => w.main = .create fd ∧
    ∃ t, p.activeThreads.data a = some ⟨some t, false, fd⟩ ∧ p.threads t = some none
  | .insert a => ∃ i, w.main = .insert i ∧ p.params[i]? = some a
  | .loop item => ∃ pre items, w.main = .sweep items ∧ w.active = pre ++ items ∧
    item = (items.map p.addr).head?
  | .join item i tmp => ∃ pre items, w.main = .joining i items ∧ w.active = pre ++ i :: items ∧
    p.params[i]? = some item ∧ tmp = (items.map p.addr).head?

/-- The memory of `main`: the list, a record for every thread that has not been joined, and
nothing else. -/
structure Memory (p : Process σ) (w : World σ) : Prop where
  control : Control p w
  length : p.params.length = p.handlers.length
  list : Holds p.activeThreads (w.active.map p.addr)
  owned : ∀ i c, p.handlers[i]? = some c → i ∉ w.joined → ∃ a t, p.Owns i a t c
  new : ∀ a, p.main.newRecord = some a → ∀ i t c, i ∉ w.joined → ¬ p.Owns i a t c
  records : ∀ a d, p.activeThreads.data a = some d →
    p.main.newRecord = some a ∨ ∃ i t c, i ∉ w.joined ∧ p.Owns i a t c
  blocks : ∀ t x, p.threads t = some x →
    (∃ fd a, p.main = .create fd a ∧ p.activeThreads.data a = some ⟨some t, false, fd⟩) ∨
      ∃ i a c, i ∉ w.joined ∧ p.Owns i a t c

/-- The two processes agree, and no memory has been misused. -/
structure Stands (p : Process σ) (w : World σ) : Prop where
  os : p.os = w.os
  mutex : p.mutex = w.mutex
  stamp : p.stamp = w.stamp
  handlers : p.handlers = w.clients
  exited : p.exited = w.exited
  safe : p.fault = false
  memory : p.exited = false → Memory p w

theorem newRecord_none (hnew : p.main.newRecord = none) :
    ∀ a, p.main.newRecord = some a → ∀ i t c, i ∉ w.joined → ¬ p.Owns i a t c := by
  intro a ha
  rw [hnew] at ha
  cases ha

theorem start_stands (build : Build) (s : σ) : Stands (Process.start build s) (World.start build s) := by
  refine ⟨rfl, rfl, rfl, rfl, rfl, rfl, fun _ => ⟨?_, rfl, Holds.init _, ?_, ?_, ?_, ?_⟩⟩
  · cases build <;> rfl
  · intro i c hc
    simp [Process.start] at hc
  · intro a ha
    cases build <;> cases ha
  · intro a d hd
    simp [Process.start, Queue.data, Queue.init] at hd
  · intro t x ht
    simp [Process.start] at ht

/-- Nothing is allocated or freed between two points of `main`. -/
theorem Memory.moved (hm : Memory p w) (hparams : p'.params = p.params)
    (hhandlers : p'.handlers = p.handlers) (hqueue : p'.activeThreads = p.activeThreads)
    (hthreads : p'.threads = p.threads) (hactive : w'.active = w.active) (hjoined : w'.joined = w.joined)
    (hnew : p.main.newRecord = none) (hnew' : p'.main.newRecord = none) (hcontrol : Control p' w') :
    Memory p' w' := by
  obtain ⟨-, hlength, hlist, howned, -, hrecords, hblocks⟩ := hm
  have howns : p'.Owns = p.Owns := by
    unfold Process.Owns
    rw [hparams, hhandlers, hqueue, hthreads]
  have haddr : p'.addr = p.addr := by
    unfold Process.addr
    rw [hparams]
  refine ⟨hcontrol, ?_, ?_, ?_, ?_, ?_, ?_⟩
  · rw [hparams, hhandlers, hlength]
  · rw [hqueue, hactive, haddr]
    exact hlist
  · rw [hhandlers, hjoined, howns]
    exact howned
  · exact newRecord_none hnew'
  · rw [hnew] at hrecords
    rw [hqueue, hjoined, howns, hnew']
    exact hrecords
  · rw [hqueue, hthreads, hjoined, howns]
    intro t x ht
    rcases hblocks t x ht with ⟨fd, a, hmain, -⟩ | hblock
    · simp [hmain, ListPc.newRecord] at hnew
    · exact Or.inr hblock

/-- The threads in the list have not been joined. -/
theorem active_running (hk : Kept w) {i : Nat} (hi : i ∈ w.active) :
    i ∉ w.joined ∧ ∃ c, w.clients[i]? = some c := by
  have hmem : i ∈ (List.range w.clients.length).filter (· ∉ w.joined) := by
    rw [← hk.listed]
    exact List.mem_append_left _ hi
  obtain ⟨hlt, hout⟩ := List.mem_filter.mp hmem
  exact ⟨by simpa using hout, _, List.getElem?_eq_getElem (List.mem_range.mp hlt)⟩

theorem active_owned (hs : Stands p w) (hm : Memory p w) (hk : Kept w) {i : Nat} (hi : i ∈ w.active) :
    ∃ t c, p.Owns i (p.addr i) t c := by
  obtain ⟨hout, c, hc⟩ := active_running hk hi
  obtain ⟨a, t, howns⟩ := hm.owned i c (hs.handlers ▸ hc) hout
  exact ⟨t, c, Process.addr_eq howns.1 ▸ howns⟩

/-- `malloc` for a record: what is allocated stays as it is. -/
theorem Memory.mallocData {fd : Nat} {a : Addr} {n : Node Addr ThreadData} (hm : Memory p w)
    (hmain : p.main = .allocData fd) (hfresh : p.Fresh a) :
    Memory { p with main := .allocThread fd a, activeThreads := p.activeThreads.allocate a n } w := by
  obtain ⟨hcontrol, hlength, hlist, howned, -, hrecords, hblocks⟩ := hm
  obtain ⟨hlist', hdata⟩ := hlist.allocate hfresh.1 n
  have hnone : p.activeThreads.data a = none := by rw [Queue.data, hfresh.1]; rfl
  have howns : ∀ i b t c, p.Owns i b t c → b ≠ a ∧ Process.Owns
      { p with main := .allocThread fd a, activeThreads := p.activeThreads.allocate a n } i b t c := by
    intro i b t c h
    have hb : b ≠ a := by
      rintro rfl
      exact absurd h.2.2.1 (by simp [hnone])
    exact ⟨hb, h.congr rfl rfl (by rw [hdata, Function.update_of_ne hb]) rfl⟩
  simp only [hmain, ListPc.newRecord, reduceCtorEq, false_and, exists_false, false_or] at hrecords hblocks
  refine ⟨?_, hlength, hlist', ?_, ?_, ?_, ?_⟩
  · simp only [Control, hmain] at hcontrol ⊢
    exact ⟨hcontrol, n.data, by rw [hdata, Function.update_self]⟩
  · intro i c hc hi
    obtain ⟨b, t, h⟩ := howned i c hc hi
    exact ⟨b, t, (howns i b t c h).2⟩
  · rintro b hb i t c hi h
    cases hb
    obtain ⟨b, t', h'⟩ := howned i c h.2.1 hi
    exact (howns i b t' c h').1 (Option.some.inj (h'.1.symm.trans h.1))
  · intro b d hd
    by_cases hb : b = a
    · exact Or.inl (by rw [hb]; rfl)
    · rw [hdata, Function.update_of_ne hb] at hd
      obtain ⟨i, t, c, hi, h⟩ := hrecords b d hd
      exact Or.inr ⟨i, t, c, hi, (howns i b t c h).2⟩
  · intro t x ht
    obtain ⟨i, b, c, hi, h⟩ := hblocks t x ht
    exact Or.inr ⟨i, b, c, hi, (howns i b t c h).2⟩

/-- `malloc` for a `pthread_t`, and the assignments behind it. -/
theorem Memory.mallocThread {fd : Nat} {a t : Addr} (hm : Memory p w)
    (hmain : p.main = .allocThread fd a) (hfresh : p.Fresh t) :
    ∃ q, p.activeThreads.setData a ⟨some t, false, fd⟩ = some q ∧
      Memory { p with
        main := .create fd a
        activeThreads := q
        threads := Function.update p.threads t (some none) } w := by
  obtain ⟨hcontrol, hlength, hlist, howned, hnew, hrecords, hblocks⟩ := hm
  simp only [Control, hmain] at hcontrol
  simp only [hmain, ListPc.newRecord, reduceCtorEq, false_and, exists_false, false_or] at hrecords hblocks hnew
  obtain ⟨hw, d, hd⟩ := hcontrol
  obtain ⟨n, hn, -⟩ := Option.map_eq_some_iff.mp hd
  obtain ⟨q, hq, hlist', hdata⟩ := hlist.setData hn ⟨some t, false, fd⟩
  refine ⟨q, hq, ?_⟩
  have howns : ∀ i b t' c, i ∉ w.joined → p.Owns i b t' c → Process.Owns { p with
      main := .create fd a
      activeThreads := q
      threads := Function.update p.threads t (some none) } i b t' c := by
    intro i b t' c hi h
    have hb : b ≠ a := by
      rintro rfl
      exact hnew b rfl i t' c hi h
    have ht : t' ≠ t := by
      rintro rfl
      exact absurd h.2.2.2 (by simp [hfresh.2])
    exact h.congr rfl rfl (by rw [hdata, Function.update_of_ne hb]) (Function.update_of_ne ht _ _)
  refine ⟨?_, hlength, hlist', ?_, ?_, ?_, ?_⟩
  · exact ⟨hw, t, by rw [hdata, Function.update_self], Function.update_self _ _ _⟩
  · intro i c hc hi
    obtain ⟨b, t', h⟩ := howned i c hc hi
    exact ⟨b, t', howns i b t' c hi h⟩
  · rintro b hb i t' c hi h
    cases hb
    obtain ⟨b, t'', h'⟩ := howned i c h.2.1 hi
    obtain rfl : b = a := Option.some.inj (h'.1.symm.trans h.1)
    exact hnew b rfl i t'' c hi h'
  · intro b d' hd'
    by_cases hb : b = a
    · exact Or.inl (by rw [hb]; rfl)
    · rw [hdata, Function.update_of_ne hb] at hd'
      rcases hrecords b d' hd' with hb' | ⟨i, t', c, hi, h⟩
      · exact absurd (Option.some.inj hb').symm hb
      · exact Or.inr ⟨i, t', c, hi, howns i b t' c hi h⟩
  · intro t' x ht'
    by_cases ht : t' = t
    · exact Or.inl ⟨fd, a, rfl, by rw [hdata, Function.update_self, ht]⟩
    · dsimp only at ht'
      rw [Function.update_of_ne ht] at ht'
      obtain ⟨i, b, c, hi, h⟩ := hblocks t' x ht'
      exact Or.inr ⟨i, b, c, hi, howns i b t' c hi h⟩

/-- `pthread_create`: the new record and the new `pthread_t` become the thread's. -/
theorem Stands.create {fd : Nat} {a : Addr} (hs : Stands p w) (hm : Memory p w) (hk : Kept w)
    (hmain : p.main = .create fd a) : ∃ p', p.create a = some p' ∧
      Stands p' { w with clients := w.clients ++ [Conn.start fd], main := .insert w.clients.length } := by
  obtain ⟨hcontrol, hlength, hlist, howned, hnew, hrecords, hblocks⟩ := hm
  simp only [Control, hmain] at hcontrol
  simp only [hmain, ListPc.newRecord, Option.some.injEq] at hrecords hnew
  obtain ⟨-, t, hd, ht⟩ := hcontrol
  obtain ⟨p', hp'⟩ : ∃ p' : Process σ, p' = { p with
    handlers := p.handlers ++ [Conn.start fd]
    params := p.params ++ [a]
    threads := Function.update p.threads t (some (some p.handlers.length))
    main := .insert a } := ⟨_, rfl⟩
  have hold : ∀ i b t' c, p.Owns i b t' c → p'.Owns i b t' c := by
    intro i b t' c h
    have ht' : t' ≠ t := by
      rintro rfl
      exact absurd h.2.2.2 (by simp [ht])
    have hi := (List.getElem?_eq_some_iff.mp h.1).1
    exact h.congr (by rw [hp']; exact List.getElem?_append_left hi)
      (by rw [hp']; exact List.getElem?_append_left (hlength ▸ hi)) (by rw [hp'])
      (by rw [hp']; exact Function.update_of_ne ht' _ _)
  have hself : p'.Owns p.handlers.length a t (Conn.start fd) := by
    rw [hp']
    exact ⟨by simp [← hlength], by simp, hd, Function.update_self _ _ _⟩
  have hfresh : p.handlers.length ∉ w.joined := by
    intro hj
    obtain ⟨c, hc, -⟩ := hk.finished _ hj
    rw [← hs.handlers] at hc
    simp at hc
  have haddr : w.active.map p.addr = w.active.map p'.addr := by
    refine List.map_congr_left fun i hi => ?_
    obtain ⟨-, c, hc⟩ := active_running hk hi
    rw [← hs.handlers] at hc
    have hlt := (List.getElem?_eq_some_iff.mp hc).1
    rw [Process.addr, Process.addr, hp', List.getElem?_append_left (hlength ▸ hlt)]
  have hmem : Memory p' { w with
      clients := w.clients ++ [Conn.start fd]
      main := .insert w.clients.length } := by
    refine ⟨?_, ?_, ?_, ?_, ?_, ?_, ?_⟩
    · rw [hp']
      exact ⟨w.clients.length, rfl, by simp [← hs.handlers, ← hlength]⟩
    · simp [hp', hlength]
    · rw [haddr] at hlist
      rw [hp'] at hlist ⊢
      exact hlist
    · intro i c hc hi
      simp only [hp', List.getElem?_append] at hc
      split_ifs at hc with hlt
      · obtain ⟨b, t', h⟩ := howned i c hc hi
        exact ⟨b, t', hold i b t' c h⟩
      · rw [List.getElem?_singleton] at hc
        split_ifs at hc with hzero
        cases hc
        obtain rfl : i = p.handlers.length := by omega
        exact ⟨a, t, hself⟩
    · exact newRecord_none (by rw [hp']; rfl)
    · intro b d hb
      rw [hp'] at hb
      rcases hrecords b d hb with rfl | ⟨i, t', c, hi, h⟩
      · exact Or.inr ⟨_, t, _, hfresh, hself⟩
      · exact Or.inr ⟨i, t', c, hi, hold i b t' c h⟩
    · intro t' x ht'
      refine Or.inr ?_
      by_cases htt : t' = t
      · exact ⟨_, a, _, hfresh, htt ▸ hself⟩
      · simp only [hp', Function.update_of_ne htt] at ht'
        rcases hblocks t' x ht' with ⟨fd', b, hb, hd'⟩ | ⟨i, b, c, hi, h⟩
        · rw [hmain] at hb
          cases hb
          rw [hd] at hd'
          cases hd'
          exact absurd rfl htt
        · exact ⟨i, b, c, hi, hold i b t' c h⟩
  refine ⟨p', by simp [Process.create, hd, ht, hp'], ?_⟩
  rw [hp'] at hmem ⊢
  exact ⟨hs.os, hs.mutex, hs.stamp, congrArg (· ++ _) hs.handlers, hs.exited, hs.safe, fun _ => hmem⟩

/-- `TAILQ_INSERT_TAIL`: the record that goes in is not in the list yet. -/
theorem Stands.insert {a : Addr} (hs : Stands p w) (hm : Memory p w) (hk : Kept w)
    (hmain : p.main = .insert a) : ∃ i, w.main = .insert i ∧ ∃ p', p.insert a = some p' ∧
      Stands p' { w with active := w.active ++ [i], main := .sweep (w.active ++ [i]) } := by
  have hcontrol := hm.control
  simp only [Control, hmain] at hcontrol
  obtain ⟨i, hw, hi⟩ := hcontrol
  have hlisted := hk.listed
  simp only [entering, hw] at hlisted
  have hnodup : (w.active ++ [i]).Nodup := hlisted ▸ List.nodup_range.filter _
  have hmem : i ∈ (List.range w.clients.length).filter (· ∉ w.joined) := hlisted ▸ by simp
  obtain ⟨-, hout⟩ := List.mem_filter.mp hmem
  have hlt : i < p.handlers.length := hm.length ▸ (List.getElem?_eq_some_iff.mp hi).1
  obtain ⟨a', t, howns⟩ := hm.owned i _ (List.getElem?_eq_getElem hlt) (by simpa using hout)
  obtain rfl : a' = a := Option.some.inj (howns.1.symm.trans hi)
  have hnotin : a' ∉ w.active.map p.addr := by
    intro hin
    obtain ⟨j, hj, haddr⟩ := List.mem_map.mp hin
    obtain ⟨t', c', howns'⟩ := active_owned hs hm hk hj
    rw [haddr] at howns'
    obtain rfl := howns.inj howns'
    exact (List.nodup_append.mp hnodup).2.2 i hj i (by simp) rfl
  obtain ⟨n, hn, -⟩ := Option.map_eq_some_iff.mp howns.2.2.1
  obtain ⟨q, hq, hlist, hdata⟩ := hm.list.insertTail hnotin hn
  have hlist' : Holds q ((w.active ++ [i]).map p.addr) := by
    rw [List.map_append, List.map_singleton, Process.addr_eq hi]
    exact hlist
  refine ⟨i, hw, { p with
    activeThreads := q
    main := .loop ((w.active ++ [i]).map p.addr).head? }, ?_, ?_⟩
  · simp [Process.insert, hq, hlist'.load_head]
  · refine ⟨hs.os, hs.mutex, hs.stamp, hs.handlers, hs.exited, hs.safe, fun _ => ?_⟩
    have hold : ∀ j b t c, p.Owns j b t c → Process.Owns { p with
        activeThreads := q
        main := .loop ((w.active ++ [i]).map p.addr).head? } j b t c :=
      fun j b t c h => h.congr rfl rfl (congrFun hdata b) rfl
    refine ⟨⟨[], _, rfl, rfl, rfl⟩, hm.length, hlist', ?_, newRecord_none rfl, ?_, ?_⟩
    · intro j c hc hj
      obtain ⟨b, t, h⟩ := hm.owned j c hc hj
      exact ⟨b, t, hold j b t c h⟩
    · intro b d hd
      dsimp only at hd
      rw [hdata] at hd
      rcases hm.records b d hd with hb | ⟨j, t, c, hj, h⟩
      · simp [hmain, ListPc.newRecord] at hb
      · exact Or.inr ⟨j, t, c, hj, hold j b t c h⟩
    · intro t x ht
      rcases hm.blocks t x ht with ⟨fd, b, hb, -⟩ | ⟨j, b, c, hj, h⟩
      · simp [hmain] at hb
      · exact Or.inr ⟨j, b, c, hj, hold j b t c h⟩

/-- One turn of `TAILQ_FOREACH_SAFE` up to the join, if there is one. -/
theorem Stands.look {item : Addr} (hs : Stands p w) (hm : Memory p w) (hk : Kept w)
    (hmain : p.main = .loop (some item)) : ∃ i items p' w', w.main = .sweep (i :: items) ∧
      p.look item = some p' ∧ w.resumeMain build .done = some w' ∧ Stands p' w' := by
  have hcontrol := hm.control
  simp only [Control, hmain] at hcontrol
  obtain ⟨pre, items, hw, hactive, hitem⟩ := hcontrol
  cases items with
  | nil => cases hitem
  | cons i items =>
    obtain rfl : item = p.addr i := by simpa using hitem
    obtain ⟨t, c, howns⟩ := active_owned hs hm hk (i := i) (by simp [hactive])
    have hlist := hm.list
    rw [hactive, List.map_append, List.map_cons] at hlist
    have hc : w.clients[i]? = some c := hs.handlers ▸ howns.2.1
    cases hflag : c.threadCompleteSuccess with
    | true =>
      refine ⟨i, items, { p with main := .join (p.addr i) i (items.map p.addr).head? },
        { w with main := .joining i items }, hw, ?_, ?_, ?_⟩
      · simp [Process.look, hlist.load_next, howns.2.2.1, howns.2.2.2, hflag]
      · simp [World.resumeMain, hw, hc, hflag]
      · refine ⟨hs.os, hs.mutex, hs.stamp, hs.handlers, hs.exited, hs.safe, fun _ => ?_⟩
        exact hm.moved rfl rfl rfl rfl rfl rfl (by rw [hmain]; rfl) rfl
          ⟨pre, items, rfl, hactive, howns.1, rfl⟩
    | false =>
      refine ⟨i, items, { p with main := .loop (items.map p.addr).head? },
        { w with main := .sweep items }, hw, ?_, ?_, ?_⟩
      · simp [Process.look, hlist.load_next, howns.2.2.1, hflag]
      · simp [World.resumeMain, hw, hc, hflag]
      · refine ⟨hs.os, hs.mutex, hs.stamp, hs.handlers, hs.exited, hs.safe, fun _ => ?_⟩
        exact hm.moved rfl rfl rfl rfl rfl rfl (by rw [hmain]; rfl) rfl
          ⟨pre ++ [i], items, rfl, by simp [hactive], rfl⟩

/-- `TAILQ_REMOVE` and the two calls of `free`: the memory of the joined thread is returned. -/
theorem Stands.unlink {item : Addr} {i : Nat} {tmp : Option Addr} (hs : Stands p w) (hm : Memory p w)
    (hk : Kept w) (hmain : p.main = .join item i tmp) : ∃ items, w.main = .joining i items ∧
      ∃ p', p.unlink item tmp = some p' ∧ Stands p' { w with
        main := .sweep items
        active := w.active.filter (· ≠ i)
        joined := w.joined ++ [i] } := by
  have hcontrol := hm.control
  simp only [Control, hmain] at hcontrol
  obtain ⟨pre, items, hw, hactive, hitem, htmp⟩ := hcontrol
  obtain ⟨t, c, howns⟩ := active_owned hs hm hk (i := i) (by simp [hactive])
  rw [Process.addr_eq hitem] at howns
  have hnodup : (pre ++ i :: items).Nodup := by
    have hlisted := hk.listed
    rw [entering, hw, List.append_nil, hactive] at hlisted
    exact hlisted ▸ List.nodup_range.filter _
  have hother : ∀ j ∈ pre ++ items, j ≠ i := by
    rintro j hj rfl
    exact (List.nodup_cons.mp (List.nodup_middle.mp hnodup)).1 hj
  have hfilter : w.active.filter (· ≠ i) = pre ++ items := by
    rw [hactive, List.filter_append, List.filter_cons_of_neg (by simp), ← List.filter_append]
    exact List.filter_eq_self.mpr fun j hj => decide_eq_true (hother j hj)
  have hlist := hm.list
  rw [hactive, List.map_append, List.map_cons, Process.addr_eq hitem] at hlist
  obtain ⟨q, hq, hlist₁, hdata⟩ := hlist.remove
  rw [← List.map_append] at hlist₁
  obtain ⟨n, hn, -⟩ := Option.map_eq_some_iff.mp ((congrFun hdata item).trans howns.2.2.1)
  have hout : item ∉ (pre ++ items).map p.addr := by
    intro hin
    obtain ⟨j, hj, haddr⟩ := List.mem_map.mp hin
    have hjactive : j ∈ w.active := by
      rw [hactive]
      exact (List.sublist_cons_self i items).append_left pre |>.subset hj
    obtain ⟨t', c', h⟩ := active_owned hs hm hk hjactive
    rw [haddr] at h
    exact hother j hj (h.inj howns)
  obtain ⟨q', hq', hlist', hdata'⟩ := hlist₁.release hout hn
  rw [hdata] at hdata'
  obtain ⟨p', hp'⟩ : ∃ p' : Process σ, p' = { p with
    activeThreads := q'
    threads := Function.update p.threads t none
    main := .loop tmp } := ⟨_, rfl⟩
  have hold : ∀ j b t' c', j ≠ i → p.Owns j b t' c' → p'.Owns j b t' c' := by
    intro j b t' c' hj h
    have hb : b ≠ item := by
      rintro rfl
      exact hj (h.inj howns)
    have ht : t' ≠ t := by
      rintro rfl
      have hblock := h.2.2.2
      rw [howns.2.2.2] at hblock
      simp only [Option.some.injEq] at hblock
      exact hj hblock.symm
    exact h.congr (by rw [hp']) (by rw [hp']) (by rw [hp']; simp [hdata', hb])
      (by rw [hp']; exact Function.update_of_ne ht _ _)
  have hmem : Memory p' { w with
      main := .sweep items
      active := w.active.filter (· ≠ i)
      joined := w.joined ++ [i] } := by
    refine ⟨?_, ?_, ?_, ?_, ?_, ?_, ?_⟩
    · rw [hp']
      exact ⟨pre, items, rfl, hfilter, htmp⟩
    · rw [hp']
      exact hm.length
    · dsimp only
      rw [hfilter, hp']
      exact hlist'
    · intro j c' hc' hj
      simp only [List.mem_append, List.mem_singleton, not_or] at hj
      obtain ⟨b, t', h⟩ := hm.owned j c' (by rw [hp'] at hc'; exact hc') hj.1
      exact ⟨b, t', hold j b t' c' hj.2 h⟩
    · exact newRecord_none (by rw [hp']; rfl)
    · intro b d hd
      rw [hp'] at hd
      simp only [hdata'] at hd
      have hb : b ≠ item := by
        rintro rfl
        simp at hd
      rw [Function.update_of_ne hb] at hd
      rcases hm.records b d hd with hnew | ⟨j, t', c', hj, h⟩
      · simp [hmain, ListPc.newRecord] at hnew
      · have hji : j ≠ i := by
          rintro rfl
          exact hb (Option.some.inj (h.1.symm.trans hitem))
        exact Or.inr ⟨j, t', c', by simp [hj, hji], hold j b t' c' hji h⟩
    · intro t' x ht'
      simp only [hp'] at ht'
      have htt : t' ≠ t := by
        rintro rfl
        simp at ht'
      rw [Function.update_of_ne htt] at ht'
      rcases hm.blocks t' x ht' with ⟨fd, b, hb, -⟩ | ⟨j, b, c', hj, h⟩
      · simp [hmain] at hb
      · have hji : j ≠ i := by
          rintro rfl
          obtain rfl : b = item := Option.some.inj (h.1.symm.trans hitem)
          have hdata := h.2.2.1
          rw [howns.2.2.1] at hdata
          simp only [Option.some.injEq, ThreadData.mk.injEq] at hdata
          exact htt hdata.1.symm
        exact Or.inr ⟨j, b, c', by simp [hj, hji], hold j b t' c' hji h⟩
  refine ⟨items, hw, p', ?_, ?_⟩
  · have hd := (congrFun hdata item).trans howns.2.2.1
    simp [Process.unlink, hq, hd, howns.2.2.2, hq', hp']
  · rw [hp'] at hmem ⊢
    exact ⟨hs.os, hs.mutex, hs.stamp, hs.handlers, hs.exited, hs.safe, fun _ => hmem⟩

/-- `main` stays where it is while somebody else writes to another record. -/
theorem Control.frame (h : Control p w) (hmain : p'.main = p.main) (hparams : p'.params = p.params)
    (hthreads : p'.threads = p.threads) (hmain' : w'.main = w.main) (hactive : w'.active = w.active)
    (hdata : ∀ a, p.main.newRecord = some a → p'.activeThreads.data a = p.activeThreads.data a) :
    Control p' w' := by
  have haddr : p'.addr = p.addr := by
    unfold Process.addr
    rw [hparams]
  unfold Control at h ⊢
  rw [hmain, hmain', hactive, hparams, hthreads, haddr]
  cases hp : p.main with
  | allocThread fd a | create fd a =>
    rw [hp] at h hdata
    simp only [hdata a rfl]
    exact h
  | _ =>
    rw [hp] at h
    exact h

/-- A handler writes to its own record. -/
theorem Memory.handled {i : Nat} {b t : Addr} {c c' : Conn} {q : Queue Addr ThreadData} (hm : Memory p w)
    (hi : i ∉ w.joined) (howns : p.Owns i b t c) (hfd : c'.clientFd = c.clientFd)
    (hlist : Holds q (w.active.map p.addr)) (hdata : q.data =
      Function.update p.activeThreads.data b (some ⟨some t, c'.threadCompleteSuccess, c.clientFd⟩))
    (hhandlers : p'.handlers = p.handlers.set i c') (hqueue : p'.activeThreads = q)
    (hmain : p'.main = p.main) (hparams : p'.params = p.params) (hthreads : p'.threads = p.threads)
    (hmain' : w'.main = w.main) (hactive : w'.active = w.active) (hjoined : w'.joined = w.joined) :
    Memory p' w' := by
  have hlt := (List.getElem?_eq_some_iff.mp howns.2.1).1
  have hself : p'.Owns i b t c' := by
    refine ⟨hparams ▸ howns.1, ?_, ?_, hthreads ▸ howns.2.2.2⟩
    · rw [hhandlers, List.getElem?_set_self hlt]
    · rw [hqueue, hdata, Function.update_self, hfd]
  have hold : ∀ j a t' d, j ≠ i → p.Owns j a t' d → p'.Owns j a t' d := by
    intro j a t' d hj h
    have ha : a ≠ b := by
      rintro rfl
      exact hj (h.inj howns)
    refine h.congr (by rw [hparams]) ?_ ?_ (by rw [hthreads])
    · rw [hhandlers, List.getElem?_set_ne (Ne.symm hj)]
    · rw [hqueue, hdata, Function.update_of_ne ha]
  have hall : ∀ j a t' d, p.Owns j a t' d → ∃ d', p'.Owns j a t' d' := by
    intro j a t' d h
    by_cases hj : j = i
    · subst hj
      obtain rfl : a = b := Option.some.inj (h.1.symm.trans howns.1)
      have hdata := h.2.2.1
      rw [howns.2.2.1] at hdata
      simp only [Option.some.injEq, ThreadData.mk.injEq] at hdata
      exact ⟨c', hdata.1 ▸ hself⟩
    · exact ⟨d, hold j a t' d hj h⟩
  have haddr : p'.addr = p.addr := by
    unfold Process.addr
    rw [hparams]
  have hnew : ∀ a, p.main.newRecord = some a → a ≠ b := by
    rintro a ha rfl
    exact hm.new a ha i t c hi howns
  refine ⟨?_, ?_, ?_, ?_, ?_, ?_, ?_⟩
  · refine hm.control.frame hmain hparams hthreads hmain' hactive fun a ha => ?_
    rw [hqueue, hdata, Function.update_of_ne (hnew a ha)]
  · rw [hparams, hhandlers, List.length_set, hm.length]
  · rw [hqueue, hactive, haddr]
    exact hlist
  · intro j d hd hj
    rw [hjoined] at hj
    by_cases hji : j = i
    · subst hji
      rw [hhandlers, List.getElem?_set_self hlt] at hd
      cases hd
      exact ⟨b, t, hself⟩
    · rw [hhandlers, List.getElem?_set_ne (Ne.symm hji)] at hd
      obtain ⟨a, t', h⟩ := hm.owned j d hd hj
      exact ⟨a, t', hold j a t' d hji h⟩
  · intro a ha j t' d hj h
    rw [hmain] at ha
    rw [hjoined] at hj
    have hjlt := (List.getElem?_eq_some_iff.mp h.1).1
    rw [hparams, hm.length] at hjlt
    obtain ⟨a', t'', h'⟩ := hm.owned j _ (List.getElem?_eq_getElem hjlt) hj
    obtain rfl : a = a' := by
      have := h.1
      rw [hparams, h'.1] at this
      exact (Option.some.inj this).symm
    exact hm.new a ha j t'' _ hj h'
  · intro a d hd
    rw [hmain, hjoined]
    rw [hqueue, hdata] at hd
    by_cases ha : a = b
    · exact Or.inr ⟨i, t, c', hi, ha ▸ hself⟩
    · rw [Function.update_of_ne ha] at hd
      refine (hm.records a d hd).imp_right ?_
      rintro ⟨j, t', d', hj, h⟩
      obtain ⟨d'', h'⟩ := hall j a t' d' h
      exact ⟨j, t', d'', hj, h'⟩
  · intro t' x ht'
    rw [hthreads] at ht'
    rw [hmain, hjoined, hqueue, hdata]
    rcases hm.blocks t' x ht' with ⟨fd, a, hcreate, hd⟩ | ⟨j, a, d, hj, h⟩
    · refine Or.inl ⟨fd, a, hcreate, ?_⟩
      rw [Function.update_of_ne (hnew a (by rw [hcreate]; rfl))]
      exact hd
    · obtain ⟨d', h'⟩ := hall j a t' d h
      exact Or.inr ⟨j, a, d', hj, h'⟩

/-- A handler's step reads its record, and writes the flag there. -/
theorem Stands.handler (hs : Stands p w) (hm : Memory p w) (hk : Kept w) (i : Nat) (call : Call)
    (a : Answer) : Option.Rel Stands (p.resumeHandler build i call a)
      (w.thread build ⟨.client i, call, a⟩) := by
  simp only [Process.resumeHandler, World.thread, hs.handlers]
  cases hc : w.clients[i]? with
  | none => exact .none
  | some c =>
    have hcp : p.handlers[i]? = some c := hs.handlers ▸ hc
    have hlt : i < p.params.length := hm.length ▸ (List.getElem?_eq_some_iff.mp hcp).1
    by_cases hj : i ∈ w.joined
    · obtain ⟨c', hc', hpc, -⟩ := hk.finished i hj
      rw [hc] at hc'
      cases hc'
      have hworld : c.step build (call, a) = none := returned_stops hpc
      rw [List.getElem?_eq_getElem hlt]
      simp only [Option.bind_eq_bind, Option.bind_some, hworld, hpc]
      cases p.activeThreads.data p.params[i] with
      | none => exact .none
      | some d => simp [returned_stops]
    · obtain ⟨b, t, howns⟩ := hm.owned i c hcp hj
      obtain ⟨n, hn, -⟩ := Option.map_eq_some_iff.mp howns.2.2.1
      simp only [Option.bind_eq_bind, Option.bind_some, howns.1, howns.2.2.1]
      cases hstep : c.step build (call, a) with
      | none => exact .none
      | some c' =>
        obtain ⟨q, hq, hlist, hdata⟩ := hm.list.setData hn
          ⟨some t, c'.threadCompleteSuccess, c.clientFd⟩
        simp only [Option.bind_some, Option.map_some, hq]
        exact .some ⟨hs.os, hs.mutex, hs.stamp, rfl, rfl, hs.safe, fun _ =>
          hm.handled hj howns (step_kept hstep).1 hlist hdata (by rw [hs.handlers]) rfl rfl rfl rfl
            rfl rfl rfl⟩

/-- `main` waits for `malloc`. -/
def ListPc.allocating : ListPc → Bool
  | .allocData _ | .allocThread _ _ => true
  | _ => false

/-- Where neither memory nor the list is touched, `main` goes the same way in both. -/
theorem Stands.goto {m : ListPc} {pc : MainPc} (hs : Stands p w) (hm : Memory p w)
    (hnew : p.main.newRecord = none) (hnew' : m.newRecord = none)
    (hcontrol : Control { p with main := m } { w with main := pc }) :
    Stands { p with main := m } { w with main := pc } :=
  ⟨hs.os, hs.mutex, hs.stamp, hs.handlers, hs.exited, hs.safe,
    fun _ => hm.moved rfl rfl rfl rfl rfl rfl hnew hnew' hcontrol⟩

/-- `main` makes the same call in both, and goes on in both or in none. -/
theorem Stands.main (hs : Stands p w) (hm : Memory p w) (hk : Kept w)
    (hnot : p.main.allocating = false) (a : Answer) : p.main.call = some w.main.call ∧
      Option.Rel Stands (p.resumeMain build a) (w.resumeMain build a) := by
  have hcontrol := hm.control
  cases hp : p.main with
  | allocData fd | allocThread fd b => simp [hp, ListPc.allocating] at hnot
  | clear | clearClose fd =>
    simp only [Control, hp] at hcontrol
    refine ⟨by rw [hcontrol]; rfl, ?_⟩
    have hnew : p.main.newRecord = none := by rw [hp]; rfl
    cases a <;> simp only [Process.resumeMain, World.resumeMain, hp, hcontrol] <;>
      first
        | exact .none
        | exact .some (hs.goto hm hnew rfl rfl)
  | setup =>
    simp only [Control, hp] at hcontrol
    refine ⟨by rw [hcontrol]; rfl, ?_⟩
    have hnew : p.main.newRecord = none := by rw [hp]; rfl
    cases a <;> simp only [Process.resumeMain, World.resumeMain, hp, hcontrol]
    case done => cases build <;> exact .some (hs.goto hm hnew rfl rfl)
    case failed => exact .some ⟨hs.os, hs.mutex, hs.stamp, hs.handlers, rfl, hs.safe, Bool.noConfusion⟩
    all_goals exact .none
  | createStamp =>
    simp only [Control, hp] at hcontrol
    refine ⟨by rw [hcontrol]; rfl, ?_⟩
    have hnew : p.main.newRecord = none := by rw [hp]; rfl
    cases a <;> simp only [Process.resumeMain, World.resumeMain, hp, hcontrol]
    case done =>
      exact .some ⟨hs.os, hs.mutex, rfl, hs.handlers, hs.exited, hs.safe,
        fun _ => hm.moved rfl rfl rfl rfl rfl rfl hnew rfl rfl⟩
    case failed => exact .some ⟨hs.os, hs.mutex, hs.stamp, hs.handlers, rfl, hs.safe, Bool.noConfusion⟩
    all_goals exact .none
  | accept =>
    simp only [Control, hp] at hcontrol
    refine ⟨by rw [hcontrol]; rfl, ?_⟩
    have hnew : p.main.newRecord = none := by rw [hp]; rfl
    cases a <;> simp only [Process.resumeMain, World.resumeMain, hp, hcontrol]
    case fd => exact .some (hs.goto hm hnew rfl rfl)
    case failed => exact .some hs
    all_goals exact .none
  | create fd b =>
    simp only [Control, hp] at hcontrol
    obtain ⟨hw, t, hd, -⟩ := hcontrol
    refine ⟨by rw [hw]; rfl, ?_⟩
    cases a <;> simp only [Process.resumeMain, World.resumeMain, hp, hw]
    case done =>
      obtain ⟨p', hp', hs'⟩ := hs.create hm hk hp
      rw [hp']
      exact .some hs'
    case failed =>
      obtain ⟨n, hn, -⟩ := Option.map_eq_some_iff.mp hd
      simp only [Process.giveUp, Queue.release, hn]
      exact .some ⟨hs.os, hs.mutex, hs.stamp, hs.handlers, rfl, hs.safe, Bool.noConfusion⟩
    all_goals exact .none
  | insert b =>
    obtain ⟨i, hw, p', hp', hs'⟩ := hs.insert hm hk hp
    refine ⟨by rw [hw]; rfl, ?_⟩
    cases a <;> simp only [Process.resumeMain, World.resumeMain, hp, hw]
    case done =>
      rw [hp']
      exact .some hs'
    all_goals exact .none
  | loop item =>
    cases item with
    | none =>
      simp only [Control, hp] at hcontrol
      obtain ⟨pre, items, hw, -, hitem⟩ := hcontrol
      obtain rfl : items = [] := by simpa using hitem.symm
      refine ⟨by rw [hw]; rfl, ?_⟩
      have hnew : p.main.newRecord = none := by rw [hp]; rfl
      cases a <;> simp only [Process.resumeMain, World.resumeMain, hp, hw]
      case done => exact .some (hs.goto hm hnew rfl rfl)
      all_goals exact .none
    | some item =>
      obtain ⟨i, items, p', w', hw, hp', hw', hs'⟩ := hs.look hm hk hp
      refine ⟨by rw [hw]; rfl, ?_⟩
      cases a
      case done =>
        rw [hw']
        simp only [Process.resumeMain, hp, hp']
        exact .some hs'
      all_goals
        simp only [Process.resumeMain, World.resumeMain, hp, hw]
        exact .none
  | join item i tmp =>
    obtain ⟨items, hw, p', hp', hs'⟩ := hs.unlink hm hk hp
    refine ⟨by rw [hw]; rfl, ?_⟩
    cases a <;> simp only [Process.resumeMain, World.resumeMain, hp, hw, hs.handlers]
    case done =>
      split_ifs with hret
      · rw [hp']
        exact .some hs'
      · exact .none
    all_goals exact .none

end Aesd.Server
