import Aesd.Server.Moves
import Aesd.Server.Phase
import Mathlib.Algebra.Ring.Nat

/-!
# The block at `packet_buf`

The block starts at 1024 bytes and doubles whenever a packet has filled it, so
that a connection calls `realloc` a logarithmic number of times, and no block
is more than twice as large as it has to be. It is gone when the thread returns.
-/
namespace Aesd.Server

open PartialRun

/-- The sizes `realloc` has been asked for. -/
def asked (tr : Trace) : List Nat :=
  tr.filterMap fun
    | (.realloc n, _) => some n
    | _ => none

/-- How often `realloc` has not failed. -/
def granted (tr : Trace) : Nat :=
  tr.countP fun
    | (.realloc _, .memory _) => true
    | _ => false

/-- The size of the block after `k` successful calls. -/
def capacity : Nat → Nat
  | 0 => 0
  | k + 1 => 1024 * 2 ^ k

/-- The points from which the thread does not receive any more. -/
def Pc.hungUp : Pc → Bool
  | .clientDone | .closeClient | .returned => true
  | _ => false

variable {build : Build} {c t : Conn} {e : Call × Answer} {tr : Trace}

theorem asked_concat (tr : Trace) (e : Call × Answer) : asked (tr ++ [e]) = asked tr ++ asked [e] :=
  List.filterMap_append

theorem granted_concat (tr : Trace) (e : Call × Answer) :
    granted (tr ++ [e]) = granted tr + granted [e] := List.countP_append

theorem granted_le (tr : Trace) : granted tr ≤ (asked tr).length := by
  rw [asked, List.length_filterMap_eq_countP]
  refine List.countP_mono_left fun e _ he => ?_
  split at he
  · rfl
  · cases he

/-- A refused call is not among the granted ones. -/
theorem granted_lt {pre post : Trace} {n : Nat} (h : tr = pre ++ (.realloc n, .failed) :: post) :
    granted tr < (asked tr).length := by
  have hpre := granted_le pre
  have hpost := granted_le post
  simp only [granted, asked] at hpre hpost
  simp [h, granted, asked]
  omega

theorem asked_kept (tr : Trace) (hask : asked [e] = []) : asked (tr ++ [e]) = asked tr := by
  rw [asked_concat, hask, List.append_nil]

theorem granted_kept (tr : Trace) (hgrant : granted [e] = 0) : granted (tr ++ [e]) = granted tr := by
  rw [granted_concat, hgrant, Nat.add_zero]

theorem newSize_capacity {k : Nat} (h : c.packetSize = capacity k) : c.newSize = capacity (k + 1) := by
  rw [Conn.newSize, h]
  cases k with
  | zero => rfl
  | succ k =>
    have hpos : capacity (k + 1) ≠ 0 := Nat.mul_ne_zero (by decide) (Nat.two_pow_pos k).ne'
    rw [if_neg hpos, capacity, capacity, Nat.pow_succ, Nat.mul_assoc]

/-- What one step does with the block: nothing, or it grows it, gives it up, fills it or frees it. -/
inductive BufferStep (e : Call × Answer) (c t : Conn) : Prop
  | kept (hbuf : t.packetBuf = c.packetBuf) (hsize : t.packetSize = c.packetSize)
      (hlen : t.packetLen ≤ c.packetLen) (hask : asked [e] = []) (hgrant : granted [e] = 0)
      (hopen : t.pc.hungUp = false → c.pc.hungUp = false)
      (hend : t.pc = .closeClient ∨ t.pc = .returned → c.pc = .closeClient)
      (hfull : t.pc = .grow → t.packetSize ≤ t.packetLen)
      (hroom : t.pc = .store → t.packetLen < t.packetSize)
  | grown (hpc : c.pc = .grow) (hask : asked [e] = [c.newSize]) (hgrant : granted [e] = 1)
      (htpc : t.pc = .store) (hbuf : t.memory.length = c.newSize) (hsize : t.packetSize = c.newSize)
      (hlen : t.packetLen = c.packetLen)
  | refused (hpc : c.pc = .grow) (hask : asked [e] = [c.newSize]) (hgrant : granted [e] = 0)
      (htpc : t.pc = .clientDone) (hbuf : t.packetBuf = none)
  | stored (hpc : c.pc = .store) (hask : asked [e] = []) (hgrant : granted [e] = 0)
      (htpc : t.pc = .dispatch ∨ t.pc = .nextByte) (hbuf : t.memory.length = c.memory.length)
      (hsize : t.packetSize = c.packetSize) (hlen : t.packetLen = c.packetLen + 1)
  | freed (hask : asked [e] = []) (hgrant : granted [e] = 0) (htpc : t.pc = .closeClient)
      (hbuf : t.packetBuf = none)

theorem buffer_step (h : c.step build e = some t) : BufferStep e c t := by
  obtain ⟨call, a⟩ := e
  cases move_of_step h
  case grown hnew => exact .grown rfl rfl rfl rfl hnew rfl rfl
  case refused => exact .refused rfl rfl rfl rfl rfl
  case stored c b rest mem hbuf hmem =>
    refine .stored rfl rfl rfl ?_ ?_ rfl rfl
    · by_cases hb : b = newline <;> simp [hb]
    · simp [Conn.memory, hmem]
  case finished =>
    refine .freed rfl rfl ?_ ?_ <;>
    · rw [Conn.finish]
      split <;> simp_all
  case full hfull =>
    exact .kept rfl rfl le_rfl rfl rfl (fun _ => rfl) (by simp) (fun _ => Nat.le_of_lt_succ hfull)
      (by simp)
  case room hroom =>
    exact .kept rfl rfl le_rfl rfl rfl (fun _ => rfl) (by simp) (by simp) fun _ => hroom
  case unlocked =>
    exact .kept rfl rfl (Nat.zero_le _) rfl rfl (fun _ => rfl) (by simp) (by simp) (by simp)
  case writes w w' hw =>
    cases w <;> exact .kept rfl rfl le_rfl rfl rfl (fun _ => rfl) (by simp) (by simp) (by simp)
  case wrote w ok hw =>
    cases w <;> cases ok <;>
      exact .kept rfl rfl le_rfl rfl rfl (fun _ => rfl) (by simp) (by simp) (by simp)
  case dispatched =>
    cases build <;>
      exact .kept rfl rfl le_rfl rfl rfl (fun _ => rfl) (by simp [Conn.dispatch])
        (by simp [Conn.dispatch]) (by simp [Conn.dispatch])
  case closedUnsent s fd ha =>
    cases s <;> exact .kept rfl rfl le_rfl rfl rfl (fun _ => rfl) (by simp) (by simp) (by simp)
  case hungUp =>
    exact .kept rfl rfl le_rfl rfl rfl (fun h => (by cases h)) (by simp) (by simp) (by simp)
  case closedClient =>
    exact .kept rfl rfl le_rfl rfl rfl (fun h => (by cases h)) (fun _ => rfl) (by simp) (by simp)
  all_goals exact .kept rfl rfl le_rfl rfl rfl (fun _ => rfl) (by simp) (by simp) (by simp)

/-- What a run leaves of the block, and what it has asked for. -/
structure Buffered (build : Build) (fd : Nat) (tr : Trace) (c : Conn) : Prop where
  sizes : asked tr = (List.range (asked tr).length).map fun k => capacity (k + 1)
  length_le : (asked tr).length ≤ granted tr + 1
  block : c.packetBuf ≠ none → c.memory.length = capacity (granted tr)
  collecting : c.pc.hungUp = false → (asked tr).length = granted tr ∧
    c.packetSize = capacity (granted tr) ∧ c.memory.length = c.packetSize ∧ c.packetLen ≤ c.packetSize
  full : c.pc = .grow → c.packetSize ≤ c.packetLen
  room : c.pc = .store → c.packetLen < c.packetSize
  freed : c.pc = .closeClient ∨ c.pc = .returned → c.packetBuf = none
  filled : ∀ k, k + 2 ≤ (asked tr).length → ∃ pre u, pre <+: tr ∧
    run (Conn.step build) (Conn.start fd) pre = some u ∧ (asked pre).length = k + 1 ∧
      u.packetLen = capacity (k + 1)

theorem capacity_lt (k : Nat) : capacity k < capacity (k + 1) := by
  cases k with
  | zero => decide
  | succ k =>
    rw [capacity, capacity, Nat.pow_succ]
    have hpos := Nat.two_pow_pos k
    omega

theorem start_buffered (build : Build) (fd : Nat) : Buffered build fd [] (Conn.start fd) where
  sizes := rfl
  length_le := Nat.zero_le _
  block h := absurd rfl h
  collecting _ := ⟨rfl, rfl, rfl, le_rfl⟩
  full h := by cases h
  room h := by cases h
  freed h := by rcases h with h | h <;> cases h
  filled k h := absurd h (by simp [asked])

/-- Another call with the next size. -/
theorem Buffered.sizes_concat {fd : Nat} (hb : Buffered build fd tr c) (hpc : c.pc = .grow)
    (hask : asked [e] = [c.newSize]) : asked (tr ++ [e]) = asked tr ++ [capacity (granted tr + 1)] ∧
      asked (tr ++ [e]) = (List.range (asked (tr ++ [e])).length).map fun k => capacity (k + 1) := by
  obtain ⟨hlength, hsize, -, -⟩ := hb.collecting (by rw [hpc]; rfl)
  have hconcat : asked (tr ++ [e]) = asked tr ++ [capacity (granted tr + 1)] := by
    rw [asked_concat, hask, newSize_capacity hsize]
  refine ⟨hconcat, ?_⟩
  rw [hconcat, List.length_append, List.length_singleton, List.range_succ, List.map_append,
    ← hb.sizes, hlength]
  rfl

/-- The block is full when `realloc` is called. -/
theorem Buffered.filled_grow {fd : Nat} (hb : Buffered build fd tr c)
    (hrun : run (Conn.step build) (Conn.start fd) tr = some c) (hpc : c.pc = .grow)
    (hask : asked [e] = [c.newSize]) (k : Nat) (hk : k + 2 ≤ (asked (tr ++ [e])).length) :
    ∃ pre u, pre <+: tr ++ [e] ∧ run (Conn.step build) (Conn.start fd) pre = some u ∧
      (asked pre).length = k + 1 ∧ u.packetLen = capacity (k + 1) := by
  obtain ⟨hlength, hcap, -, hle⟩ := hb.collecting (by rw [hpc]; rfl)
  rw [(hb.sizes_concat hpc hask).1, List.length_append, List.length_singleton] at hk
  by_cases hold : k + 2 ≤ (asked tr).length
  · obtain ⟨pre, u, hpre, hu⟩ := hb.filled k hold
    exact ⟨pre, u, hpre.trans (List.prefix_append _ _), hu⟩
  · have hfull := hb.full hpc
    have hk' : granted tr = k + 1 := by omega
    exact ⟨tr, c, List.prefix_append _ _, hrun, hlength.trans hk', by rw [hk'] at hcap; omega⟩

theorem Buffered.step {fd : Nat} (hb : Buffered build fd tr c)
    (hrun : run (Conn.step build) (Conn.start fd) tr = some c) (h : c.step build e = some t) :
    Buffered build fd (tr ++ [e]) t := by
  have hfilled : ∀ k, k + 2 ≤ (asked tr).length → ∃ pre u, pre <+: tr ++ [e] ∧
      run (Conn.step build) (Conn.start fd) pre = some u ∧ (asked pre).length = k + 1 ∧
        u.packetLen = capacity (k + 1) := by
    intro k hk
    obtain ⟨pre, u, hpre, hu⟩ := hb.filled k hk
    exact ⟨pre, u, hpre.trans (List.prefix_append _ _), hu⟩
  cases buffer_step h with
  | kept hbuf hsize hlen hask hgrant hopen hend hfull hroom =>
    have hasked := asked_kept tr hask
    have hgranted := granted_kept tr hgrant
    have hmemory : t.memory = c.memory := by rw [Conn.memory, hbuf, Conn.memory]
    refine ⟨?_, ?_, ?_, fun hpc => ?_, hfull, hroom, fun hpc => ?_, ?_⟩
    · rw [hasked]
      exact hb.sizes
    · rw [hasked, hgranted]
      exact hb.length_le
    · rw [hbuf, hmemory, hgranted]
      exact hb.block
    · rw [hasked, hgranted, hsize, hmemory]
      obtain ⟨hlength, hcap, hmem, hle⟩ := hb.collecting (hopen hpc)
      exact ⟨hlength, hcap, hmem, hlen.trans hle⟩
    · rw [hbuf]
      exact hb.freed (Or.inl (hend hpc))
    · rwa [hasked]
  | grown hpc hask hgrant htpc hbuf hsize hlen =>
    obtain ⟨hlength, hcap, hmem, hle⟩ := hb.collecting (by rw [hpc]; rfl)
    obtain ⟨hconcat, hsizes⟩ := hb.sizes_concat hpc hask
    have hgranted : granted (tr ++ [e]) = granted tr + 1 := by rw [granted_concat, hgrant]
    have hnew := newSize_capacity hcap
    have hlt := capacity_lt (granted tr)
    have hcount : (asked (tr ++ [e])).length = granted (tr ++ [e]) := by
      rw [hconcat, hgranted, List.length_append, hlength, List.length_singleton]
    refine ⟨hsizes, by omega, fun _ => ?_, fun _ => ?_, fun h => ?_, fun _ => ?_, fun h => ?_,
      hb.filled_grow hrun hpc hask⟩
    · rw [hbuf, hnew, hgranted]
    · rw [hsize, hbuf, hlen, hnew, hgranted]
      exact ⟨hgranted ▸ hcount, rfl, rfl, by omega⟩
    · rw [htpc] at h
      cases h
    · rw [hlen, hsize, hnew]
      omega
    · rw [htpc] at h
      rcases h with h | h <;> cases h
  | refused hpc hask hgrant htpc hbuf =>
    obtain ⟨hlength, -, -, -⟩ := hb.collecting (by rw [hpc]; rfl)
    obtain ⟨hconcat, hsizes⟩ := hb.sizes_concat hpc hask
    have hgranted := granted_kept tr hgrant
    have hcount : (asked (tr ++ [e])).length = granted tr + 1 := by
      rw [hconcat, List.length_append, hlength, List.length_singleton]
    refine ⟨hsizes, by omega, fun hne => absurd hbuf hne, fun h => ?_, fun h => ?_, fun h => ?_,
      fun _ => hbuf, hb.filled_grow hrun hpc hask⟩ <;>
    · rw [htpc] at h
      cases h
  | stored hpc hask hgrant htpc hbuf hsize hlen =>
    have hasked := asked_kept tr hask
    have hgranted := granted_kept tr hgrant
    obtain ⟨hlength, hcap, hmem, hle⟩ := hb.collecting (by rw [hpc]; rfl)
    have hroom := hb.room hpc
    refine ⟨?_, ?_, fun _ => ?_, fun _ => ?_, fun h => ?_, fun h => ?_, fun h => ?_, ?_⟩
    · rw [hasked]
      exact hb.sizes
    · rw [hasked, hgranted]
      exact hb.length_le
    · rw [hbuf, hmem, hcap, hgranted]
    · rw [hasked, hgranted, hsize, hbuf, hlen]
      exact ⟨hlength, hcap, hmem, hroom⟩
    · rcases htpc with htpc | htpc <;> rw [htpc] at h <;> cases h
    · rcases htpc with htpc | htpc <;> rw [htpc] at h <;> cases h
    · rcases htpc with htpc | htpc <;> rw [htpc] at h <;> rcases h with h | h <;> cases h
    · rwa [hasked]
  | freed hask hgrant htpc hbuf =>
    have hasked := asked_kept tr hask
    have hgranted := granted_kept tr hgrant
    refine ⟨?_, ?_, fun hne => absurd hbuf hne, fun h => ?_, fun h => ?_, fun h => ?_,
      fun _ => hbuf, ?_⟩
    · rw [hasked]
      exact hb.sizes
    · rw [hasked, hgranted]
      exact hb.length_le
    · rw [htpc] at h
      cases h
    · rw [htpc] at h
      cases h
    · rw [htpc] at h
      cases h
    · rwa [hasked]

theorem run_buffered {fd : Nat} (h : run (Conn.step build) (Conn.start fd) tr = some c) :
    Buffered build fd tr c :=
  run_invariant (I := Buffered build fd) (start_buffered build fd)
    (fun _ _ _ _ hes ht ih => ih.step hes ht) h

/-- There is one place that calls `realloc`. -/
theorem grow_of_asked (h : c.step build e = some t) (hask : asked [e] ≠ []) : c.pc = .grow := by
  cases buffer_step h with
  | grown hpc => exact hpc
  | refused hpc => exact hpc
  | kept _ _ _ hnone | stored _ hnone | freed hnone => exact absurd hnone hask

theorem nothing_asked_after {fd : Nat} (h : run (Conn.step build) (Conn.start fd) tr = some c)
    {pre post : Trace} {n : Nat} (hsplit : tr = pre ++ (.realloc n, .failed) :: post) :
    asked post = [] := by
  subst hsplit
  induction post using List.reverseRecOn generalizing c with
  | nil => rfl
  | append_singleton post e ih =>
    rw [← List.cons_append, ← List.append_assoc] at h
    obtain ⟨u, hu, hstep⟩ := run_concat_eq_some.mp h
    rw [asked_concat, ih hu, List.nil_append]
    by_contra hask
    have hpc := grow_of_asked hstep hask
    have hlength := ((run_buffered hu).collecting (by rw [hpc]; rfl)).1
    have hlt : granted (pre ++ (.realloc n, .failed) :: post) <
        (asked (pre ++ (.realloc n, .failed) :: post)).length := granted_lt rfl
    omega

/-- The sizes asked of `realloc` are 1024, 2048, 4096 and so on, and nothing is asked behind a refused
call; the block has the last granted size and is freed before the thread returns; and for every
call but the first the packet has filled the block before it when the call is made. -/
theorem buffer_doubles (build : Build) (fd : Nat) (tr : Trace) (c : Conn)
    (h : run (Conn.step build) (Conn.start fd) tr = some c) :
    asked tr = (List.range (asked tr).length).map (fun k => 1024 * 2 ^ k) ∧
      granted tr ≤ (asked tr).length ∧ (asked tr).length ≤ granted tr + 1 ∧
      (∀ pre n post, tr = pre ++ (.realloc n, .failed) :: post → asked post = []) ∧
      (c.packetBuf ≠ none → c.memory.length = capacity (granted tr)) ∧
      (c.pc = .returned → c.packetBuf = none) ∧
      ∀ k, k + 2 ≤ (asked tr).length → ∃ pre u, pre <+: tr ∧
        run (Conn.step build) (Conn.start fd) pre = some u ∧ (asked pre).length = k + 1 ∧
          u.packetLen = 1024 * 2 ^ k := by
  have hb := run_buffered h
  exact ⟨hb.sizes, granted_le tr, hb.length_le, fun pre n post => nothing_asked_after h, hb.block,
    fun hpc => hb.freed (Or.inr hpc), hb.filled⟩

/-- Bytes without a newline go to the block, as far as there is room for them. -/
theorem bytes_gathered (build : Build) (fd : Nat) (flag : Bool) (l mem : List UInt8) (len : Nat)
    (hl : newline ∉ l) (hroom : len + l.length ≤ mem.length) (hne : l ≠ []) :
    ∃ mem', mem'.length = mem.length ∧
      run (Conn.step build) ⟨.store, fd, l, some mem, len, mem.length, flag⟩
        (List.replicate (2 * l.length) (.tau, .done)) =
          some ⟨.recv, fd, [], some mem', len + l.length, mem.length, flag⟩ := by
  induction l generalizing mem len with
  | nil => exact absurd rfl hne
  | cons b l ih =>
    rw [List.mem_cons, not_or] at hl
    have hstored : Conn.step build ⟨.store, fd, b :: l, some mem, len, mem.length, flag⟩ (.tau, .done) =
        some ⟨.nextByte, fd, l, some (mem.set len b), len + 1, mem.length, flag⟩ := by
      simp [Conn.step, Conn.call, Conn.resume, Conn.store, Ne.symm hl.1]
    rw [List.length_cons, Nat.mul_succ, List.replicate_succ, List.replicate_succ, run_cons, hstored,
      Option.bind_some, run_cons]
    cases l with
    | nil => exact ⟨mem.set len b, List.length_set, rfl⟩
    | cons b' l =>
      rw [List.length_cons] at hroom
      have hnext : Conn.step build ⟨.nextByte, fd, b' :: l, some (mem.set len b), len + 1, mem.length, flag⟩
          (.tau, .done) =
          some ⟨.store, fd, b' :: l, some (mem.set len b), len + 1, (mem.set len b).length, flag⟩ := by
        rw [List.length_set]
        refine Conn.step_eq_some.mpr ⟨rfl, ?_⟩
        simp only [Conn.resume, Conn.nextByte, List.cons_ne_nil, if_false, Option.some.injEq]
        rw [if_neg (by simp at hroom ⊢; omega)]
      obtain ⟨mem', hmem', hrun⟩ := ih (mem.set len b) (len + 1) hl.2 (by rw [List.length_set]; omega)
        (List.cons_ne_nil _ _)
      rw [hnext, Option.bind_some]
      refine ⟨mem', hmem'.trans List.length_set, hrun.trans ?_⟩
      rw [List.length_set, Nat.add_assoc, Nat.add_comm 1]

/-- More bytes come in when the block is full. -/
theorem block_grown (build : Build) (fd : Nat) (flag : Bool) (l mem junk : List UInt8) (hne : l ≠ [])
    (hl : l.length ≤ recvSize) (hmem : mem ≠ []) (hjunk : junk.length = mem.length) :
    run (Conn.step build) ⟨.recv, fd, [], some mem, mem.length, mem.length, flag⟩
      [(.recv, .bytes l), (.tau, .done), (.realloc (mem.length * 2), .memory junk)] =
        some ⟨.store, fd, l, some (mem ++ junk), mem.length, (mem ++ junk).length, flag⟩ := by
  have hsize : (mem ++ junk).length = mem.length * 2 := by
    rw [List.length_append, hjunk]
    omega
  have hpos : mem.length ≠ 0 := by simpa using hmem
  simp [run_cons, Conn.step, Conn.call, Conn.resume, Conn.received, Conn.nextByte, Conn.grow,
    Conn.newSize, Conn.memory, hne, Nat.not_lt.mpr hl, hpos, hjunk]
  omega

/-- A client sends 2049 bytes without a newline. There is no memory for the last one. -/
def overfull : Trace :=
  ([(.recv, .bytes (List.replicate 1024 97)), (.tau, .done),
    (.realloc 1024, .memory (List.replicate 1024 0))] : Trace) ++
  (List.replicate 2048 (.tau, .done) : Trace) ++
  ([(.recv, .bytes (List.replicate 1024 97)), (.tau, .done),
    (.realloc 2048, .memory (List.replicate 1024 0))] : Trace) ++
  (List.replicate 2048 (.tau, .done) : Trace) ++
  ([(.recv, .bytes [97]), (.tau, .done), (.realloc 4096, .failed), (.tau, .done),
    (.closeClient 4, .done)] : Trace)

theorem buffer_doubles_overfull : ∃ c, run (Conn.step .file) (Conn.start 4) overfull = some c ∧
    asked overfull = [1024, 2048, 4096] ∧ granted overfull = 2 ∧ c.packetBuf = none ∧
    ∃ pre u, pre <+: overfull ∧ run (Conn.step .file) (Conn.start 4) pre = some u ∧
      (asked pre).length = 2 ∧ u.packetLen = 2048 := by
  obtain ⟨mem, hmem, hfirst⟩ := bytes_gathered .file 4 false (List.replicate 1024 97)
    (List.replicate 1024 0) 0 (by decide +kernel) (by decide +kernel) (by decide +kernel)
  have hlen : mem.length = 1024 := hmem.trans List.length_replicate
  have hne : mem ≠ [] := by
    rintro rfl
    cases hlen
  have hgrown := block_grown .file 4 false (List.replicate 1024 97) mem (List.replicate 1024 0)
    (by decide +kernel) (by decide +kernel) hne (List.length_replicate.trans hlen.symm)
  obtain ⟨mem', hmem', hsecond⟩ := bytes_gathered .file 4 false (List.replicate 1024 97)
    (mem ++ List.replicate 1024 0) mem.length (by decide +kernel)
    (by rw [List.length_append, List.length_replicate, List.length_replicate]) (by decide +kernel)
  simp only [List.length_append, List.length_replicate, hlen, Nat.reduceMul, Nat.reduceAdd]
    at hfirst hgrown hsecond
  obtain ⟨c, hc, hpc⟩ : ∃ c, run (Conn.step .file) (Conn.start 4) overfull = some c ∧
      c.pc = .returned := by
    refine ⟨⟨.returned, 4, [97], none, 0, 2048, false⟩, ?_, rfl⟩
    unfold overfull
    refine run_append_eq_some.mpr ⟨_, run_append_eq_some.mpr ⟨_, run_append_eq_some.mpr ⟨_,
      run_append_eq_some.mpr ⟨_, ?_, hfirst⟩, hgrown⟩, hsecond⟩, ?_⟩
    · decide +kernel
    · simp [run_cons, Conn.step, Conn.call, Conn.resume, Conn.received, Conn.nextByte, Conn.newSize,
        Conn.finish, recvSize]
  have hasked : asked overfull = [1024, 2048, 4096] := by decide +kernel
  have hgranted : granted overfull = 2 := by decide +kernel
  obtain ⟨-, -, -, -, -, hfreed, hfilled⟩ := buffer_doubles .file 4 overfull c hc
  exact ⟨c, hc, hasked, hgranted, hfreed hpc, hfilled 1 (by rw [hasked]; decide)⟩

end Aesd.Server
