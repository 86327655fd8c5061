import Aesd.Server.Serving

/-!
# Every section comes to its end

Under a system whose calls succeed no answer blocks the holder of the mutex,
however few bytes `send` takes at a time, and the holder has only so many calls
to make before it unlocks: two for every byte of its answer, and a few more.
-/
namespace Aesd.Server

open PartialRun Exclusion

variable {β : Type} {build : Build} {B : Backing β} {acc : Account build B}
  {w t : World (Disk β)} {tr : List Event} {d d' : Disk β} {h : List (List UInt8)}
  {p sent : List UInt8}

/-- A `read` gives no more bytes than it is asked for. -/
def Backing.Bounded (B : Backing β) : Prop :=
  ∀ b pos n l q b', B.read b pos n = (l, q, b') → l.length ≤ n

/-- The calls of `write_to_file` still to come. -/
def WritePc.callsLeft : WritePc → Nat
  | .openFile => 4
  | .write _ => 3
  | .fsync _ => 2
  | .closeFile _ | .writeFailed _ | .fsyncFailed _ => 1

/-- The most calls a section can still take when `n` bytes of the answer are due. -/
def Pc.callsLeft (n : Nat) : Pc → Nat
  | .seekOpen _ _ => 2 * n + 5
  | .seekIoctl _ _ _ | .sendOpen => 2 * n + 4
  | .writing w => w.callsLeft + 2 * n + 4
  | .reading _ _ => 2 * n + 3
  | .sending _ _ _ => 2 * n + 2
  | .closing _ _ => 2
  | .unlocking _ => 1
  | _ => 0

def StampPc.callsLeft : StampPc → Nat
  | .writing w => w.callsLeft + 1
  | .unlock => 1
  | .sleep | .lock => 0

/-- The same for a thread in a run: due is what it has not yet been sent of the answer to the last
packet. -/
def callsLeft (acc : Account build B) (tr : List Event) (w : World (Disk β)) : Tid → Nat
  | .main => 0
  | .stamp => w.stamp.elim 0 fun s => s.pc.callsLeft
  | .client i => (w.clients[i]?).elim 0 fun c => c.pc.callsLeft
      ((acc.reply (packets tr)).length - ((answers (project (.client i) tr)).getLastD []).length)

theorem WritePc.callsLeft_bounds (w : WritePc) : 0 < w.callsLeft ∧ w.callsLeft ≤ 4 := by
  cases w <;> simp [callsLeft]

theorem Pc.callsLeft_le (pc : Pc) (n : Nat) : pc.callsLeft n ≤ 2 * n + 8 := by
  cases pc <;> simp only [callsLeft] <;> try omega
  case writing w =>
    have := w.callsLeft_bounds
    omega

theorem write_calls_left {w w' : WritePc} {a : Answer} (hnext : w.resume a = some (.inl w'))
    (ha : a ≠ .failed) : w'.callsLeft < w.callsLeft := by
  cases w <;> cases a <;> cases hnext <;> first | exact absurd rfl ha | exact Nat.lt_succ_self _

/-- Whatever the system answers to `write_to_file`, it goes on. -/
theorem write_continues {w : WritePc} {a : Answer} (hw : w.Within acc d h p)
    (hd : d.respond B (w.call p) a = some d') : ∃ next, w.resume a = some next := by
  cases w with
  | openFile =>
    obtain ⟨n, rfl, -, -⟩ := respond_open (show OpenMode.append ≠ .truncate by decide) hd
    exact ⟨_, rfl⟩
  | closeFile fd =>
    obtain ⟨rfl, -⟩ := respond_close hd
    exact ⟨_, rfl⟩
  | write fd | fsync fd =>
    cases a <;> simp only [WritePc.call, Disk.respond, reduceCtorEq] at hd
    exact ⟨_, rfl⟩
  | writeFailed fd => exact hw.elim
  | fsyncFailed fd => exact hw.elim

/-- Whatever the system answers to a handler in its section, a short count of `send` included, the
handler goes on. -/
theorem conn_continues {c : Conn} {call : Call} {a : Answer} (hbounded : B.Bounded)
    (hc : c.pc.Within acc d h p sent) (hpacket : c.packet = p) (hcall : c.call = some call)
    (hd : d.respond B call a = some d') : ∃ c', c.step build (call, a) = some c' := by
  obtain ⟨pc, clientFd, buf, packetBuf, packetLen, packetSize, flag⟩ := c
  cases pc <;> try exact hc.elim
  all_goals cases hcall
  case seekOpen x y =>
    obtain ⟨n, rfl, -, -⟩ := respond_open (show OpenMode.readWrite ≠ .truncate by decide) hd
    exact ⟨_, Conn.step_eq_some.mpr ⟨rfl, rfl⟩⟩
  case sendOpen =>
    obtain ⟨n, rfl, -, -⟩ := respond_open (show OpenMode.readOnly ≠ .truncate by decide) hd
    exact ⟨_, Conn.step_eq_some.mpr ⟨rfl, rfl⟩⟩
  case seekIoctl fd x y =>
    cases a <;> simp only [Disk.respond, reduceCtorEq] at hd
    exact ⟨_, Conn.step_eq_some.mpr ⟨rfl, rfl⟩⟩
  case writing w =>
    obtain ⟨hw, -⟩ := hc
    obtain ⟨next, hnext⟩ := write_continues hw (hpacket ▸ hd)
    rw [← Option.isSome_iff_exists]
    simp [Conn.step, Conn.call, Conn.resume, hnext]
  case reading s fd =>
    cases a <;> simp only [Disk.respond, reduceCtorEq] at hd
    obtain ⟨pos, -, hd⟩ := Option.bind_eq_some_iff.mp hd
    rcases hread : B.read d.store pos fileBufSize with ⟨l', q, b⟩
    simp only [hread] at hd
    split_ifs at hd with hl
    have hlen := hbounded _ _ _ _ _ _ hread
    rw [hl] at hlen
    rw [← Option.isSome_iff_exists]
    simp only [Conn.step, Conn.call, Conn.resume, Conn.readBack, if_true, if_neg (Nat.not_lt.mpr hlen)]
    split_ifs <;> rfl
  case sending s fd rest =>
    cases a <;> simp only [Disk.respond, reduceCtorEq] at hd
    split_ifs at hd with hn
    rw [← Option.isSome_iff_exists]
    simp only [Conn.step, Conn.call, Conn.resume, Conn.sent, if_true, if_neg (Nat.not_lt.mpr hn.2)]
    split_ifs <;> rfl
  case closing s fd =>
    obtain ⟨rfl, -⟩ := respond_close hd
    exact ⟨_, Conn.step_eq_some.mpr ⟨rfl, rfl⟩⟩
  case unlocking s =>
    cases a <;> simp only [Disk.respond, reduceCtorEq] at hd
    exact ⟨_, Conn.step_eq_some.mpr ⟨rfl, rfl⟩⟩

/-- The same for the timestamp thread. -/
theorem stamp_continues {s : Stamp} {a : Answer} (hs : s.pc.Within acc d h s.timeStr)
    (hd : d.respond B s.call a = some d') : ∃ s', s.resume a = some s' := by
  obtain ⟨pc, timeStr⟩ := s
  cases pc with
  | sleep | lock => exact hs.elim
  | writing w =>
    obtain ⟨next, hnext⟩ := write_continues hs hd
    rw [← Option.isSome_iff_exists]
    simp [Stamp.resume, hnext]
  | unlock =>
    cases a <;> simp only [Stamp.call, Disk.respond, reduceCtorEq] at hd
    exact ⟨_, rfl⟩

/-- Every call of a handler but the unlock leaves fewer calls to come. -/
theorem conn_calls_left {c c' : Conn} {call : Call} {a : Answer}
    (hc : c.pc.Within acc d h c.packet sent) (hd : d.respond B call a = some d')
    (hstep : c.step build (call, a) = some c') (hunlock : call ≠ .unlock) {n : Nat}
    (hn : n = (acc.reply (h ++ [c.packet])).length) :
    c'.pc.callsLeft (n - (sent ++ given (call, a)).length) < c.pc.callsLeft (n - sent.length) := by
  have hok := (respond_succeeds hd).1
  cases move_of_step hstep
  case seekOpened | positioned | opened | read => simp [given, Pc.callsLeft]
  case writes c w w' hnext =>
    have hgiven : given (w.call c.packet, a) = [] := by cases w <;> rfl
    have := write_calls_left hnext hok
    simp only [hgiven, List.append_nil, Pc.callsLeft]
    omega
  case wrote c w ok hnext =>
    have hgiven : given (w.call c.packet, a) = [] := by cases w <;> rfl
    have := w.callsLeft_bounds.1
    simp only [hgiven, List.append_nil]
    cases ok <;> simp only [Bool.false_eq_true, if_true, if_false, Pc.callsLeft] <;> omega
  case readEnds ha =>
    simp only [Pc.callsLeft]
    omega
  case sentPart c s fd k rest hk hrest | sentAll c s fd k rest hk hrest =>
    obtain ⟨-, m, -, -, hsent⟩ := hc
    have hlen := congrArg List.length hsent
    simp only [Disk.respond] at hd
    split_ifs at hd with hpos
    simp only [given, Pc.callsLeft, List.length_append, List.length_take] at hlen ⊢
    omega
  case closed => simp [Pc.callsLeft]
  case seekNotOpened | notPositioned | notOpened | notSent => exact absurd rfl hok
  case killed => exact absurd rfl (respond_succeeds hd).2
  case unlocked => exact absurd rfl hunlock
  all_goals exact hc.elim

theorem stamp_calls_left {s s' : Stamp} {a : Answer} (hs : s.pc.Within acc d h s.timeStr)
    (hd : d.respond B s.call a = some d') (hres : s.resume a = some s') (hunlock : s.call ≠ .unlock) :
    s'.pc.callsLeft < s.pc.callsLeft := by
  have hok := (respond_succeeds hd).1
  cases hpc : s.pc with
  | sleep | lock => exact (hpc ▸ hs).elim
  | unlock => simp [Stamp.call, hpc] at hunlock
  | writing w =>
    simp only [Stamp.resume, hpc] at hres
    obtain ⟨next, hnext, rfl⟩ := Option.map_eq_some_iff.mp hres
    cases next with
    | inl w' => exact Nat.succ_lt_succ (write_calls_left hnext hok)
    | inr ok => exact Nat.succ_lt_succ w.callsLeft_bounds.1

/-- The holder of the mutex keeps it until it unlocks, and there are no other sections meanwhile. -/
theorem held_step {os : Os β} {w t : World β} {e : Event} {tid : Tid} (hstep : w.step build os e = some t)
    (hguard : ∀ tid, w.call tid = some .unlock → w.mutex = some tid) (hm : w.mutex = some tid)
    (hunlock : e.tid = tid → e.call ≠ .unlock) : t.mutex = some tid ∧ sectionOf e = none := by
  have hcall := step_call hstep
  have hown : e.call ≠ .unlock := fun hu =>
    hunlock (Option.some.inj ((hguard _ (hu ▸ hcall)).symm.trans hm)) hu
  obtain ⟨-, s, m, v, -, hafter, -, rfl⟩ := World.step_eq_some.mp hstep
  rw [hm] at hafter
  unfold sectionOf
  cases huse : e.call <;> rw [huse] at hafter hown <;> first | exact absurd rfl hown | cases hafter
  all_goals exact ⟨rfl, rfl⟩

theorem run_running (hr : run (World.step build (storage B)) (World.start build d) tr = some w) :
    w.exited = false := by
  refine run_invariant (I := fun _ w => w.exited = false) rfl ?_ hr
  intro es u e v _ hv ih
  obtain ⟨-, d', m, v', hd, -, hv', rfl⟩ := World.step_eq_some.mp hv
  obtain ⟨tid, call, a⟩ := e
  have hok := respond_succeeds hd
  cases tid with
  | main =>
    obtain ⟨rfl, hres⟩ := World.thread_main.mp hv'
    exact ((resumeMain_exits hres).resolve_right fun hfail => hok.1 hfail.1).trans ih
  | stamp =>
    obtain ⟨st, st', -, -, -, rfl⟩ := World.thread_stamp.mp hv'
    exact ih
  | client i =>
    obtain ⟨c, c', -, -, rfl⟩ := World.thread_client.mp hv'
    cases call <;> cases a <;> first | rfl | exact absurd rfl hok.2 | cases hd

/-- A call of the holder leaves it fewer calls to make. -/
theorem Going.calls_left {e : Event} (hg : Going acc tr w) (hm : w.mutex = some e.tid)
    (hstep : w.step build (storage B) e = some t) (hunlock : e.call ≠ .unlock)
    (hsection : sectionOf e = none) : callsLeft acc (tr ++ [e]) t e.tid < callsLeft acc tr w e.tid := by
  have hfile := hg.file
  obtain ⟨-, d', m, v, hd, -, hv, rfl⟩ := World.step_eq_some.mp hstep
  obtain ⟨tid, call, a⟩ := e
  cases tid with
  | main => simp [Between, hm] at hfile
  | stamp =>
    obtain ⟨st, st', hst, rfl, hres, rfl⟩ := World.thread_stamp.mp hv
    obtain ⟨S, s, -, hs, hwithin⟩ := by simpa only [Between, hm] using hfile
    obtain rfl := Option.some.inj (hst.symm.trans hs)
    simpa [callsLeft, hst] using stamp_calls_left hwithin hd hres hunlock
  | client i =>
    obtain ⟨c, c', hc, hconn, rfl⟩ := World.thread_client.mp hv
    obtain ⟨S, c₀, sent, hS, hc₀, hans, hwithin⟩ := by simpa only [Between, hm] using hfile
    obtain rfl := Option.some.inj (hc.symm.trans hc₀)
    have hi := (List.getElem?_eq_some_iff.mp hc).1
    have hpackets : packets tr = S.map Prod.snd ++ [c.packet] := by simp [packets, hS]
    have huse : call.use ≠ .acquire := by
      cases call <;> simp [Call.use, sectionOf] at hsection ⊢
    have hans' : answers (project (.client i) (tr ++ [⟨.client i, call, a⟩])) =
        replies acc.reply (.client i) [] S ++ [sent ++ given (call, a)] := by
      rw [project_concat_self, answers_concat, hans, hear_given huse]
    have hleft := conn_calls_left hwithin hd hconn hunlock rfl
    rw [← hpackets] at hleft
    simpa [callsLeft, hc, List.getElem?_set_self hi, hans, hans', (packets_concat_none tr hsection).2]
      using hleft

/-- The calls of other threads leave it as many. -/
theorem Going.calls_kept {e : Event} {tid : Tid} (hg : Going acc tr w) (hm : w.mutex = some tid)
    (hstep : w.step build (storage B) e = some t) (hne : e.tid ≠ tid) (hsection : sectionOf e = none) :
    callsLeft acc (tr ++ [e]) t tid = callsLeft acc tr w tid := by
  have hfile := hg.file
  cases tid with
  | main => simp [Between, hm] at hfile
  | stamp =>
    obtain ⟨S, s, -, hs, -⟩ := by simpa only [Between, hm] using hfile
    obtain ⟨-, d', m, v, -, -, hv, rfl⟩ := World.step_eq_some.mp hstep
    obtain ⟨tid, call, a⟩ := e
    have hkept : v.stamp = w.stamp := by
      cases tid with
      | main =>
        rcases (resumeMain_cases (World.thread_main.mp hv).2).2 with heq | ⟨hmain, -⟩
        · exact heq
        · have := (hg.starting (by rw [hmain]; rfl)).1
          simp [hm] at this
      | stamp => exact absurd rfl hne
      | client i =>
        obtain ⟨c, c', -, -, rfl⟩ := World.thread_client.mp hv
        rfl
    simp [callsLeft, hkept]
  | client i =>
    obtain ⟨S, c, sent, -, hc, -, -⟩ := by simpa only [Between, hm] using hfile
    have hproject : project (.client i) (tr ++ [e]) = project (.client i) tr :=
      project_concat_ne hne tr e.call e.answer
    simp only [callsLeft, hc, client_kept hstep hne hc, hproject, (packets_concat_none tr hsection).2]

/-- What the holder of the mutex can rely on: whatever it is answered it goes on, and it unlocks
before it has made so many calls. -/
structure Answering (acc : Account build B) (tr : List Event) (w : World (Disk β)) (tid : Tid) :
    Prop where
  goes : ∃ call, w.call tid = some call ∧ ∀ a d, w.os.respond B call a = some d →
    ∃ t, w.step build (storage B) ⟨tid, call, a⟩ = some t
  ends : ∀ es t, run (World.step build (storage B)) w es = some t →
    2 * (acc.reply (packets tr)).length + 8 < (project tid es).length →
      ∃ e ∈ project tid es, e.1 = .unlock

/-- Whoever has the mutex does not wait for it. -/
theorem held_thread {os : Os β} {w : World β} {s : β} {tid : Tid} {call : Call} {a : Answer} {u : World β}
    (hgoing : w.exited = false) (hs : os.respond w.os call a = some s) (huse : call.use ≠ .acquire)
    (hu : w.thread build ⟨tid, call, a⟩ = some u) : ∃ t, w.step build os ⟨tid, call, a⟩ = some t := by
  obtain ⟨m, hm⟩ : ∃ m, after w.mutex tid call.use = some m := by
    cases hc : call.use with
    | acquire => exact absurd hc huse
    | release | other => exact ⟨_, rfl⟩
  exact ⟨_, World.step_eq_some.mpr ⟨hgoing, s, m, u, hs, hm, hu, rfl⟩⟩

theorem callsLeft_le (acc : Account build B) (tr : List Event) (w : World (Disk β)) (tid : Tid) :
    callsLeft acc tr w tid ≤ 2 * (acc.reply (packets tr)).length + 8 := by
  cases tid with
  | main => exact Nat.zero_le _
  | stamp =>
    simp only [callsLeft]
    cases w.stamp with
    | none => exact Nat.zero_le _
    | some s =>
      simp only [Option.elim_some]
      cases s.pc <;> simp only [StampPc.callsLeft] <;> try omega
      case writing p =>
        have := p.callsLeft_bounds
        omega
  | client i =>
    simp only [callsLeft]
    cases w.clients[i]? with
    | none => exact Nat.zero_le _
    | some c =>
      refine (c.pc.callsLeft_le _).trans ?_
      omega

/-- As long as the holder has not unlocked, every call it has made is one of those. -/
theorem run_calls_left (hstart : build = .driver → acc.Shows d.store [])
    (hr : run (World.step build (storage B)) (World.start build d) tr = some w)
    (hadm : Admitted acc (packets tr)) {tid : Tid} (hm : w.mutex = some tid) {es : List Event}
    (hes : run (World.step build (storage B)) w es = some t) :
    (∀ e ∈ project tid es, e.1 ≠ .unlock) → packets (tr ++ es) = packets tr ∧ t.mutex = some tid ∧
      callsLeft acc (tr ++ es) t tid + (project tid es).length ≤ callsLeft acc tr w tid := by
  refine run_invariant (I := fun es t => (∀ e ∈ project tid es, e.1 ≠ .unlock) →
    packets (tr ++ es) = packets tr ∧ t.mutex = some tid ∧
      callsLeft acc (tr ++ es) t tid + (project tid es).length ≤ callsLeft acc tr w tid) ?_ ?_ hes
  · intro _
    rw [List.append_nil]
    exact ⟨rfl, hm, le_rfl⟩
  · intro es u e v hu hv ih hnone
    rw [project_append] at hnone ⊢
    obtain ⟨hpackets, hmu, hle⟩ := ih fun e' he' => hnone e' (List.mem_append_left _ he')
    have hrun := run_append_eq_some.mpr ⟨w, hr, hu⟩
    have hg : Going acc (tr ++ es) u := by
      rcases run_going acc hstart hrun (hpackets ▸ hadm) with ⟨-, -, rfl⟩ | hg
      · cases hmu
      · exact hg
    have hunlock : e.tid = tid → e.call ≠ .unlock := by
      rintro rfl
      exact hnone (e.call, e.answer) (List.mem_append_right _ (by simp [project]))
    obtain ⟨hmv, hsection⟩ := held_step hv
      (fun tid htid => run_guarded hrun tid (unlock_holding htid)) hmu hunlock
    rw [← List.append_assoc]
    refine ⟨(packets_concat_none _ hsection).2.trans hpackets, hmv, ?_⟩
    rw [List.length_append]
    by_cases hown : e.tid = tid
    · subst hown
      have hlt := hg.calls_left hmu hv (hunlock rfl) hsection
      have hone : (project e.tid [e]).length = 1 := by simp [project]
      omega
    · have hsame := hg.calls_kept hmu hv hown hsection
      have hzero : (project tid [e]).length = 0 := by simp [project, hown]
      omega

variable (acc) in
/-- In every state of every run in which no call fails. -/
theorem run_answering (hbounded : B.Bounded) (hstart : build = .driver → acc.Shows d.store [])
    (hr : run (World.step build (storage B)) (World.start build d) tr = some w)
    (hadm : Admitted acc (packets tr)) {tid : Tid} (hm : w.mutex = some tid) :
    Answering acc tr w tid := by
  refine ⟨?_, fun es t hes hlong => ?_⟩
  · have hg : Going acc tr w := by
      rcases run_going acc hstart hr hadm with ⟨-, -, rfl⟩ | hg
      · cases hm
      · exact hg
    have hgoing := run_running hr
    have hfile := hg.file
    cases tid with
    | main => simp [Between, hm] at hfile
    | stamp =>
      obtain ⟨S, s, -, hs, hwithin⟩ := by simpa only [Between, hm] using hfile
      have huse : s.call.use ≠ .acquire := by
        cases hpc : s.pc <;> rw [hpc] at hwithin <;> try exact hwithin.elim
        case writing p => simp [Stamp.call, hpc, write_use]
        case unlock => simp [Stamp.call, hpc, Call.use]
      refine ⟨s.call, by simp [World.call, hs], fun a d' hd => ?_⟩
      obtain ⟨s', hs'⟩ := stamp_continues hwithin hd
      exact held_thread hgoing hd huse (World.thread_stamp.mpr ⟨s, s', hs, rfl, hs', rfl⟩)
    | client i =>
      obtain ⟨S, c, sent, -, hc, -, hwithin⟩ := by simpa only [Between, hm] using hfile
      obtain ⟨call, hcall, huse⟩ : ∃ call, c.call = some call ∧ call.use ≠ .acquire := by
        cases hpc : c.pc <;> rw [hpc] at hwithin <;> try exact hwithin.elim
        case writing p => exact ⟨_, by rw [Conn.call, hpc], by simp [write_use]⟩
        all_goals exact ⟨_, by rw [Conn.call, hpc], by simp [Call.use]⟩
      refine ⟨call, by simp [World.call, hc, hcall], fun a d' hd => ?_⟩
      obtain ⟨c', hc'⟩ := conn_continues hbounded hwithin rfl hcall hd
      exact held_thread hgoing hd huse (World.thread_client.mpr ⟨c, c', hc, hc', rfl⟩)
  · by_contra hnone
    have hleft := (run_calls_left hstart hr hadm hm hes fun e he hu => hnone ⟨e, he, hu⟩).2.2
    have := callsLeft_le acc tr w tid
    omega

end Aesd.Server
