import Aesd.Server.Locking
import Aesd.Server.Sections
import Aesd.Server.Storage

/-!
# What the file shows and what the clients are sent

Under a system whose calls succeed, only the holder of the mutex is at work on
the file. Between two sections the file shows every packet there has been; the
holder has sent a part of the answer due to its packet, and everybody else has
been sent exactly the answers to the packets recorded so far.
-/
namespace Aesd.Server

open Segments PartialRun Exclusion

/-- The calls made without the mutex. -/
def Call.aside : Call → Bool
  | .tau | .recv | .realloc _ | .process _ | .closeClient _ | .exit | .time | .setup | .accept
  | .createThread | .join _ => true
  | _ => false

theorem aside_calls {call : Call} (h : call.aside = true) (tid : Tid) (a : Answer) :
    call.touches = false ∧ call.use = .other ∧ sectionOf ⟨tid, call, a⟩ = none ∧
      ∀ l, hear l (call, a) = l := by
  cases call <;> simp only [Call.aside, Bool.false_eq_true] at h <;>
    exact ⟨rfl, rfl, rfl, fun _ => rfl⟩

theorem hear_given {call : Call} (h : call.use ≠ .acquire) (l : List (List UInt8))
    (sent : List UInt8) (a : Answer) :
    hear (l ++ [sent]) (call, a) = l ++ [sent ++ given (call, a)] := by
  cases call <;> simp only [Call.use, ne_eq, not_true_eq_false] at h
  case send data => cases a <;> simp [hear, given]
  all_goals simp [hear, given]

variable {β : Type} {build : Build} {B : Backing β} {acc : Account build B}
  {w t : World (Disk β)} {tr : List Event}

/-- What holds of the file, according to the holder of the mutex. -/
def Between (acc : Account build B) (tr : List Event) (w : World (Disk β)) : Prop :=
  match w.mutex with
  | none => acc.Shows w.os.store (packets tr)
  | some .main => False
  | some .stamp => ∃ S s, sections tr = S ++ [(.stamp, s.timeStr)] ∧ w.stamp = some s ∧
      s.pc.Within acc w.os (S.map Prod.snd) s.timeStr
  | some (.client i) => ∃ S c sent, sections tr = S ++ [(.client i, c.packet)] ∧
      w.clients[i]? = some c ∧
      answers (project (.client i) tr) = replies acc.reply (.client i) [] S ++ [sent] ∧
      c.pc.Within acc w.os (S.map Prod.snd) c.packet sent

/-- The process is on its way, with the file cleared. -/
structure Going (acc : Account build B) (tr : List Event) (w : World (Disk β)) : Prop where
  file : Between acc tr w
  others : ∀ i, w.mutex ≠ some (.client i) →
    answers (project (.client i) tr) = replies acc.reply (.client i) [] (sections tr)
  cleared : w.main ≠ .clear
  starting : w.main.starting = true → w.mutex = none ∧ w.clients = [] ∧ w.stamp = none
  stamped : build = .driver → w.stamp = none ∧ w.main ≠ .createStamp

variable {d : Disk β}

theorem run_succeeds (h : run (World.step build (storage B)) (World.start build d) tr = some w) :
    ∀ e ∈ tr, e.answer ≠ .failed ∧ e.answer ≠ .killed := by
  refine run_invariant (I := fun tr _ => ∀ e ∈ tr, e.answer ≠ .failed ∧ e.answer ≠ .killed)
    (by simp) ?_ h
  intro es u e v _ hv ih e' he'
  rcases List.mem_append.mp he' with he' | he'
  · exact ih e' he'
  · rw [List.mem_singleton.mp he']
    obtain ⟨-, s, -, -, hs, -⟩ := World.step_eq_some.mp hv
    exact respond_succeeds hs

theorem run_project_succeeds
    (h : run (World.step build (storage B)) (World.start build d) tr = some w) (tid : Tid) :
    Succeeds (project tid tr) := by
  intro e he
  obtain ⟨e', he', rfl⟩ := List.mem_map.mp he
  exact run_succeeds h e' (List.mem_of_mem_filter he')

theorem run_guarded (h : run (World.step build (storage B)) (World.start build d) tr = some w) :
    Guarded w.mutex w.Holding := by
  refine (run_disciplined h ?_).2.1
  rintro pre e post u rfl - ⟨i, c, p, -, -, -, hfail⟩
  exact (run_succeeds h e (by simp)).1 hfail

theorem packets_concat_none (tr : List Event) {e : Event} (h : sectionOf e = none) :
    sections (tr ++ [e]) = sections tr ∧ packets (tr ++ [e]) = packets tr := by
  simp [packets, sections_concat, h]

/-- A handler at work on its section holds the mutex. -/
theorem within_holding {c : Conn} {h : List (List UInt8)} {p sent : List UInt8}
    (hc : c.pc.Within acc d h p sent) : c.pc.holding = true := by
  cases hpc : c.pc <;> rw [hpc] at hc <;> first | rfl | exact hc.elim

theorem stamp_within_holding {s : Stamp} {h : List (List UInt8)} {p : List UInt8}
    (hs : s.pc.Within acc d h p) : s.pc.holding = true := by
  cases hpc : s.pc <;> rw [hpc] at hs <;> first | rfl | exact hs.elim

/-- A step that has nothing to do with the file, of a thread that is not at work on it. -/
theorem Going.aside {e : Event} (hg : Going acc tr w) (hcall : e.call.aside = true)
    (hos : t.os = w.os) (hmutex : t.mutex = w.mutex)
    (hclient : ∀ i c, w.mutex = some (.client i) → w.clients[i]? = some c → c.pc.holding = true →
      e.tid ≠ .client i ∧ t.clients[i]? = some c)
    (hstamp : ∀ s, w.mutex = some .stamp → w.stamp = some s → s.pc.holding = true →
      t.stamp = some s)
    (hcleared : t.main ≠ .clear)
    (hstarting : t.main.starting = true → t.mutex = none ∧ t.clients = [] ∧ t.stamp = none)
    (hstamped : build = .driver → t.stamp = none ∧ t.main ≠ .createStamp) :
    Going acc (tr ++ [e]) t := by
  obtain ⟨tid, call, a⟩ := e
  obtain ⟨-, -, hsection, hhear⟩ := aside_calls hcall tid a
  obtain ⟨hsections, hpackets⟩ := packets_concat_none tr hsection
  have hanswers : ∀ i, answers (project (.client i) (tr ++ [⟨tid, call, a⟩])) =
      answers (project (.client i) tr) := by
    intro i
    by_cases hi : tid = .client i
    · subst hi
      rw [project_concat_self, answers_concat, hhear]
    · rw [project_concat_ne hi]
  refine ⟨?_, fun i hi => ?_, hcleared, hstarting, hstamped⟩
  · have hfile := hg.file
    unfold Between at hfile ⊢
    rw [hmutex]
    split at hfile
    · rw [hpackets, hos]
      exact hfile
    · exact hfile
    · rename_i hm
      obtain ⟨S, s, hS, hs, hwithin⟩ := hfile
      exact ⟨S, s, hsections.trans hS, hstamp s hm hs (stamp_within_holding hwithin), hos ▸ hwithin⟩
    · rename_i i hm
      obtain ⟨S, c, sent, hS, hc, hans, hwithin⟩ := hfile
      exact ⟨S, c, sent, hsections.trans hS, (hclient i c hm hc (within_holding hwithin)).2,
        (hanswers i).trans hans, hos ▸ hwithin⟩
  · rw [hanswers, hsections]
    exact hg.others i (hmutex ▸ hi)

theorem going_main {call : Call} {a : Answer} (hg : Going acc tr w)
    (ht : w.step build (storage B) ⟨.main, call, a⟩ = some t) :
    Going acc (tr ++ [⟨.main, call, a⟩]) t := by
  have hkept : ∀ i c, w.clients[i]? = some c → t.clients[i]? = some c :=
    fun i c hc => client_kept ht nofun hc
  obtain ⟨-, s, m, v, hs, hm, hv, rfl⟩ := World.step_eq_some.mp ht
  obtain ⟨rfl, hres⟩ := World.thread_main.mp hv
  obtain ⟨hclear, hstarting, hstamped⟩ := resumeMain_starting hres
  have hstarting' : v.main.starting = true → w.mutex = none ∧ v.clients = [] ∧ v.stamp = none := by
    intro hstart
    obtain ⟨hstart', hclients, hstamp⟩ := hstarting hstart
    rw [hclients, hstamp]
    exact hg.starting hstart'
  have hstamped' : build = .driver → v.stamp = none ∧ v.main ≠ .createStamp := by
    intro hb
    obtain ⟨hnone, hne⟩ := hg.stamped hb
    obtain ⟨hne', hstamp⟩ := hstamped hb hne
    exact ⟨hstamp.trans hnone, hne'⟩
  have hm' : m = w.mutex := by
    rw [main_use] at hm
    exact (Option.some.inj hm).symm
  subst hm'
  by_cases hclose : ∃ fd, w.main = .clearClose fd
  · obtain ⟨fd, hmain⟩ := hclose
    obtain ⟨hfree, -, -⟩ := hg.starting (by rw [hmain]; rfl)
    have hcall : w.main.call = .closeFile fd := by rw [hmain]; rfl
    rw [hcall] at hs ⊢
    have hstore := (respond_close hs).2
    obtain ⟨hsections, hpackets⟩ := packets_concat_none tr (e := ⟨.main, .closeFile fd, a⟩) rfl
    have hfile := hg.file
    simp only [Between, hfree] at hfile
    refine ⟨?_, fun i _ => ?_, hclear, hstarting', hstamped'⟩
    · simp only [Between, hfree, hpackets, hstore]
      exact hfile
    · rw [project_concat_ne (by simp), hsections]
      exact hg.others i (by simp [hfree])
  · have haside : w.main.call.aside = true := by
      cases hmain : w.main <;> first | rfl | exact absurd hmain hg.cleared | exact absurd ⟨_, hmain⟩ hclose
    refine hg.aside haside (respond_untouched hs (aside_calls haside .main a).1) rfl
      (fun i c _ hc _ => ⟨nofun, hkept i c hc⟩) (fun st hmutex hst _ => ?_) hclear hstarting' hstamped'
    rcases (resumeMain_cases hres).2 with heq | ⟨hmain, -⟩
    · exact heq.trans hst
    · have := (hg.starting (by rw [hmain]; rfl)).1
      simp [hmutex] at this

theorem going_stamp {call : Call} {a : Answer} (hg : Going acc tr w)
    (hguard : Guarded w.mutex w.Holding)
    (hadmits : ∀ p, call = .lock p → acc.Admits (packets tr) p)
    (ht : w.step build (storage B) ⟨.stamp, call, a⟩ = some t) :
    Going acc (tr ++ [⟨.stamp, call, a⟩]) t := by
  obtain ⟨-, d', m, v, hd, hm, hv, rfl⟩ := World.step_eq_some.mp ht
  obtain ⟨s, s', hs, rfl, hres, rfl⟩ := World.thread_stamp.mp hv
  have hfileBuild : build ≠ .driver := fun hb => by simp [(hg.stamped hb).1] at hs
  have hnotStarting : w.main.starting ≠ true := fun h => by simp [(hg.starting h).2.2] at hs
  have hothers : ∀ i, project (.client i) (tr ++ [⟨.stamp, s.call, a⟩]) = project (.client i) tr :=
    fun i => project_concat_ne (by simp) tr s.call a
  cases hpc : s.pc with
  | sleep =>
    have hcall : s.call = .time := by simp [Stamp.call, hpc]
    rw [hcall] at hd hm ⊢
    cases hm
    refine hg.aside rfl (respond_untouched hd rfl) rfl (fun i c _ hc _ => ⟨by simp, hc⟩) ?_
      hg.cleared (fun h => absurd h hnotStarting) (fun hb => absurd hb hfileBuild)
    intro st _ hst hhold
    rw [hs] at hst
    cases hst
    simp [hpc, StampPc.holding, StampPc.inSection] at hhold
  | lock =>
    have hcall : s.call = .lock s.timeStr := by simp [Stamp.call, hpc]
    rw [hcall] at hd hm hothers ⊢
    obtain ⟨hfree, rfl⟩ := after_acquire hm
    obtain rfl := respond_untouched hd rfl
    have hsections : sections (tr ++ [⟨.stamp, .lock s.timeStr, a⟩]) =
        sections tr ++ [(.stamp, s.timeStr)] := sections_concat _ _
    have hfile := hg.file
    simp only [Between, hfree] at hfile
    refine ⟨?_, fun i _ => ?_, hg.cleared, fun h => absurd h hnotStarting,
      fun hb => absurd hb hfileBuild⟩
    · simp only [Stamp.resume, hpc] at hres
      cases a <;> simp only [Option.some.injEq, reduceCtorEq] at hres
      subst hres
      exact ⟨sections tr, ⟨.writing .openFile, s.timeStr⟩, hsections, rfl, hfile, hadmits _ hcall,
        fun hb => absurd hb hfileBuild⟩
    · rw [hothers, hsections, replies_append, hg.others i (by simp [hfree])]
      simp [replies]
  | writing p =>
    have hmutex : w.mutex = some .stamp := hguard .stamp ⟨s, hs, by simp [hpc]; rfl⟩
    have hcall : s.call = p.call s.timeStr := by simp [Stamp.call, hpc]
    have huse : s.call.use = .other := by rw [hcall, write_use]
    rw [huse] at hm
    cases hm
    have hsections : sections (tr ++ [⟨.stamp, s.call, a⟩]) = sections tr := by
      rw [sections_concat, hcall]
      cases p <;> simp [sectionOf, WritePc.call]
    obtain ⟨S, s₀, hS, hs₀, hwithin⟩ := by simpa only [Between, hmutex] using hg.file
    rw [hs] at hs₀
    cases hs₀
    obtain ⟨htime, hwithin'⟩ :=
      stamp_within hwithin hd hres (by rw [hcall]; cases p <;> simp [WritePc.call])
    refine ⟨?_, fun i hi => ?_, hg.cleared, fun h => absurd h hnotStarting,
      fun hb => absurd hb hfileBuild⟩
    · simp only [Between, hmutex]
      exact ⟨S, s', by rw [hsections, htime, hS], rfl, htime ▸ hwithin'⟩
    · rw [hothers, hsections]
      exact hg.others i hi
  | unlock =>
    have hmutex : w.mutex = some .stamp := hguard .stamp ⟨s, hs, by simp [hpc]; rfl⟩
    have hcall : s.call = .unlock := by simp [Stamp.call, hpc]
    rw [hcall] at hd hm hothers ⊢
    cases hm
    obtain rfl := respond_untouched hd rfl
    obtain ⟨hsections, hpackets⟩ := packets_concat_none tr (e := ⟨.stamp, .unlock, a⟩) rfl
    obtain ⟨S, s₀, hS, hs₀, hwithin⟩ := by simpa only [Between, hmutex] using hg.file
    rw [hs] at hs₀
    cases hs₀
    rw [hpc] at hwithin
    refine ⟨?_, fun i _ => ?_, hg.cleared, fun h => absurd h hnotStarting,
      fun hb => absurd hb hfileBuild⟩
    · simp only [Between]
      rw [hpackets, packets, hS, List.map_append]
      exact hwithin
    · rw [hothers, hsections]
      exact hg.others i (by simp [hmutex])

/-- What a handler does outside its section does not concern the file. -/
theorem conn_aside {c : Conn} {call : Call} (hcall : c.call = some call)
    (hhold : c.pc.holding = false) (hlock : ∀ seekto, c.pc ≠ .lock seekto) : call.aside = true := by
  cases hpc : c.pc <;> simp [Conn.call, hpc] at hcall <;>
    first
      | exact hcall ▸ rfl
      | exact absurd hpc (hlock _)
      | simp [hpc, Pc.holding, Pc.inSection] at hhold

theorem going_client {i : Nat} {call : Call} {a : Answer} (hg : Going acc tr w)
    (hguard : Guarded w.mutex w.Holding)
    (hadmits : ∀ p, call = .lock p → acc.Admits (packets tr) p)
    (hline : ∀ c : Conn, w.clients[i]? = some c → c.pc.phase = .handling → IsLine newline c.packet)
    (htested : ∀ (c : Conn) seekto, w.clients[i]? = some c → c.pc = .lock seekto →
      (build = .file → seekto = none) ∧
        (build = .driver → ∃ past, seekto = seekCommand (c.packet ++ past)))
    (ht : w.step build (storage B) ⟨.client i, call, a⟩ = some t) :
    Going acc (tr ++ [⟨.client i, call, a⟩]) t := by
  obtain ⟨-, d', m, v, hd, hm, hv, rfl⟩ := World.step_eq_some.mp ht
  obtain ⟨c, c', hc, hstep, rfl⟩ := World.thread_client.mp hv
  have hi := (List.getElem?_eq_some_iff.mp hc).1
  have hnotStarting : w.main.starting ≠ true := fun h => by simp [(hg.starting h).2.1] at hc
  have hself : project (.client i) (tr ++ [⟨.client i, call, a⟩]) =
      project (.client i) tr ++ [(call, a)] := project_concat_self _ _ _ _
  have hothers : ∀ j, j ≠ i → project (.client j) (tr ++ [⟨.client i, call, a⟩]) =
      project (.client j) tr := fun j hj => project_concat_ne (by simpa using Ne.symm hj) _ _ _
  obtain ⟨hcall, hres⟩ := Conn.step_eq_some.mp hstep
  cases hhold : c.pc.holding with
  | false =>
    by_cases hlock : ∃ seekto, c.pc = .lock seekto
    · obtain ⟨seekto, hpc⟩ := hlock
      obtain rfl : call = .lock c.packet := by simpa [Conn.call, hpc, eq_comm] using hcall
      obtain ⟨hfree, rfl⟩ := after_acquire hm
      obtain rfl := respond_untouched hd rfl
      have hsections : sections (tr ++ [⟨.client i, .lock c.packet, a⟩]) =
          sections tr ++ [(.client i, c.packet)] := sections_concat _ _
      have hfile := hg.file
      simp only [Between, hfree] at hfile
      obtain ⟨htestFile, htestDriver⟩ := htested c seekto hc hpc
      have hfollows := hadmits _ rfl
      have hwithin : c'.packet = c.packet ∧ c'.pc.Within acc w.os (packets tr) c.packet [] := by
        cases a <;> simp only [Conn.resume, hpc, reduceCtorEq] at hres
        rcases seekto with _ | ⟨x, y⟩ <;> simp only [Option.some.injEq] at hres <;> subst hres
        · exact ⟨rfl, ⟨hfile, hfollows, fun hb => ⟨hline c hc (by rw [hpc]; rfl), by
            obtain ⟨past, hpast⟩ := htestDriver hb
            exact ⟨past, hpast.symm⟩⟩⟩, rfl⟩
        · have hb : build = .driver := by
            cases build with
            | file => exact absurd (htestFile rfl) (Option.some_ne_none _)
            | driver => rfl
          obtain ⟨past, hpast⟩ := htestDriver hb
          exact ⟨rfl, hfile, ⟨hfollows, hb, hline c hc (by rw [hpc]; rfl), past, hpast.symm⟩, rfl⟩
      refine ⟨?_, fun j hj => ?_, hg.cleared, fun h => absurd h hnotStarting, hg.stamped⟩
      · refine ⟨sections tr, c', [], by rw [hsections, hwithin.1], List.getElem?_set_self hi, ?_,
          hwithin.1 ▸ hwithin.2⟩
        rw [hself, answers_concat, hg.others i (by simp [hfree])]
        rfl
      · have hij : j ≠ i := by
          rintro rfl
          exact hj rfl
        rw [hothers j hij, hsections, replies_append, hg.others j (by simp [hfree])]
        simp [replies, hij.symm]
    · have haside : call.aside = true := conn_aside hcall hhold fun seekto h => hlock ⟨seekto, h⟩
      obtain ⟨htouch, huse, -, -⟩ := aside_calls haside (.client i) a
      rw [huse] at hm
      cases hm
      refine hg.aside haside (respond_untouched hd htouch) rfl (fun j c₀ _ hc₀ hhold₀ => ?_)
        (fun st _ hst _ => hst) hg.cleared (fun h => absurd h hnotStarting) hg.stamped
      have hij : i ≠ j := by
        rintro rfl
        rw [hc] at hc₀
        cases hc₀
        simp [hhold] at hhold₀
      exact ⟨by simpa using hij, (List.getElem?_set_ne hij).trans hc₀⟩
  | true =>
    have hmutex : w.mutex = some (.client i) := hguard (.client i) ⟨c, hc, hhold⟩
    obtain ⟨S, c₀, sent, hS, hc₀, hans, hwithin⟩ := by simpa only [Between, hmutex] using hg.file
    rw [hc] at hc₀
    cases hc₀
    by_cases hunlock : call = .unlock
    · subst hunlock
      cases hm
      obtain rfl := respond_untouched hd rfl
      obtain ⟨hsections, hpackets⟩ := packets_concat_none tr (e := ⟨.client i, .unlock, a⟩) rfl
      have hdone : acc.Shows w.os.store (packets tr) ∧
          sent = acc.reply (S.map Prod.snd ++ [c.packet]) := by
        rw [packets, hS, List.map_append]
        cases hpc : c.pc <;> rw [hpc] at hwithin <;> simp [Conn.call, hpc] at hcall
        case writing p => cases p <;> simp [WritePc.call] at hcall
        case unlocking => exact hwithin
        all_goals exact hwithin.elim
      refine ⟨?_, fun j _ => ?_, hg.cleared, fun h => absurd h hnotStarting, hg.stamped⟩
      · simp only [Between]
        rw [hpackets]
        exact hdone.1
      · by_cases hij : j = i
        · subst hij
          rw [hself, hsections, answers_concat, hans, hS, replies_append, hdone.2]
          simp [hear, replies]
        · rw [hothers j hij, hsections]
          exact hg.others j (by simpa [hmutex] using Ne.symm hij)
    · have huse : call.use = .other := by
        cases hpc : c.pc <;> rw [hpc] at hwithin <;> simp [Conn.call, hpc] at hcall <;>
          first
            | exact hwithin.elim
            | exact absurd hcall.symm hunlock
            | exact hcall ▸ write_use _ _
            | exact hcall ▸ rfl
      rw [huse] at hm
      cases hm
      have hsections : sections (tr ++ [⟨.client i, call, a⟩]) = sections tr := by
        rw [sections_concat]
        cases call <;> simp [Call.use] at huse <;> simp [sectionOf]
      obtain ⟨hpacket, hwithin'⟩ := conn_within (e := (call, a)) hwithin hd hstep hunlock
      refine ⟨?_, fun j hj => ?_, hg.cleared, fun h => absurd h hnotStarting, hg.stamped⟩
      · simp only [Between, hmutex]
        refine ⟨S, c', sent ++ given (call, a), by rw [hsections, hpacket, hS],
          List.getElem?_set_self hi, ?_, hpacket ▸ hwithin'⟩
        rw [hself, answers_concat, hans, hear_given (by simp [huse])]
      · have hij : j ≠ i := by
          rintro rfl
          exact hj hmutex
        rw [hothers j hij, hsections]
        exact hg.others j hj

/-- Every packet may follow the ones before it. -/
def Admitted (acc : Account build B) (ps : List (List UInt8)) : Prop :=
  ∀ h p rest, ps = h ++ p :: rest → acc.Admits h p

theorem start_going (hb : build = .driver) (hshows : acc.Shows d.store []) :
    Going acc [] (World.start build d) := by
  subst hb
  exact ⟨hshows, fun _ _ => rfl, nofun, fun _ => ⟨rfl, rfl, rfl⟩, fun _ => ⟨rfl, nofun⟩⟩

/-- The first thing `main` does in the build with the file. -/
theorem going_cleared {e : Event} (hb : build = .file)
    (ht : (World.start build d).step build (storage B) e = some t) : Going acc [e] t := by
  subst hb
  obtain ⟨-, d', m, v, hd, hm, hv, rfl⟩ := World.step_eq_some.mp ht
  obtain ⟨tid, call, a⟩ := e
  cases tid with
  | stamp =>
    obtain ⟨s, s', hs, -⟩ := World.thread_stamp.mp hv
    cases hs
  | client i =>
    obtain ⟨c, c', hc, -⟩ := World.thread_client.mp hv
    simp [World.start] at hc
  | main =>
    obtain ⟨rfl, hres⟩ := World.thread_main.mp hv
    cases hm
    cases a <;> simp only [storage, World.start, MainPc.call, Disk.respond, if_true, reduceCtorEq] at hd
    split_ifs at hd
    cases hd
    cases hres
    exact ⟨acc.truncated rfl _, fun _ _ => rfl, by simp, fun _ => ⟨rfl, rfl, rfl⟩, by simp⟩

variable (acc) in
theorem run_going (hstart : build = .driver → acc.Shows d.store [])
    (h : run (World.step build (storage B)) (World.start build d) tr = some w)
    (hadm : Admitted acc (packets tr)) :
    build = .file ∧ tr = [] ∧ w = World.start build d ∨ Going acc tr w := by
  revert hadm
  refine run_invariant (I := fun tr w => Admitted acc (packets tr) →
    build = .file ∧ tr = [] ∧ w = World.start build d ∨ Going acc tr w) ?_ ?_ h
  · intro _
    cases build with
    | file => exact Or.inl ⟨rfl, rfl, rfl⟩
    | driver => exact Or.inr (start_going rfl (hstart rfl))
  · intro es u e v hu hv ih hadm
    have hpackets : packets (es ++ [e]) = packets es ++ ((sectionOf e).map Prod.snd).toList := by
      rw [packets, sections_concat, List.map_append]
      cases sectionOf e <;> rfl
    have hes : Admitted acc (packets es) := fun h p rest hsplit =>
      hadm h p (rest ++ ((sectionOf e).map Prod.snd).toList) (by simp [hpackets, hsplit])
    rcases ih hes with ⟨hb, rfl, rfl⟩ | hg
    · exact Or.inr (going_cleared hb hv)
    · refine Or.inr ?_
      obtain ⟨tid, call, a⟩ := e
      have hadmits : ∀ p, call = .lock p → acc.Admits (packets es) p := by
        rintro p rfl
        exact hadm (packets es) p [] hpackets
      cases tid with
      | main => exact going_main hg hv
      | stamp => exact going_stamp hg (run_guarded hu) hadmits hv
      | client i =>
        refine going_client hg (run_guarded hu) hadmits (fun c hc hp => ?_)
          (fun c seekto hc hpc => ?_) hv
        · exact run_line ((run_project hu i).2 c hc) (run_project_succeeds hu _) hp
        · exact run_dispatched ((run_project hu i).2 c hc) hpc

/-- What the holder has sent is the beginning of the answer, and its packet is stored or not yet. -/
theorem within_part {c : Conn} {h : List (List UInt8)} {p sent : List UInt8} {d : Disk β}
    (hc : c.pc.Within acc d h p sent) :
    (acc.Shows d.store h ∨ acc.Shows d.store (h ++ [p])) ∧
      ∃ rest, sent ++ rest = acc.reply (h ++ [p]) := by
  cases hpc : c.pc <;> rw [hpc] at hc <;> try exact hc.elim
  case seekOpen x y =>
    obtain ⟨hshows, -, rfl⟩ := hc
    exact ⟨Or.inl hshows, _, rfl⟩
  case seekIoctl fd x y =>
    obtain ⟨hshows, -, rfl, -⟩ := hc
    exact ⟨Or.inl hshows, _, rfl⟩
  case writing w =>
    obtain ⟨hw, rfl⟩ := hc
    refine ⟨?_, _, rfl⟩
    cases w <;> first | exact Or.inl hw.1 | exact Or.inr hw.1 | exact hw.elim
  case sendOpen =>
    obtain ⟨hshows, -, rfl⟩ := hc
    exact ⟨Or.inr hshows, _, rfl⟩
  case reading s fd =>
    obtain ⟨hshows, n, -, -, hsent⟩ := hc
    exact ⟨Or.inr hshows, _, hsent⟩
  case sending s fd rest =>
    obtain ⟨hshows, n, -, -, hsent⟩ := hc
    exact ⟨Or.inr hshows, _, by rw [← hsent, List.append_assoc]⟩
  all_goals
    obtain ⟨hshows, rfl⟩ := hc
    exact ⟨Or.inr hshows, [], List.append_nil _⟩

/-- The file shows every packet, but for the one its holder has not written yet. -/
theorem Going.shown (hg : Going acc tr w) : acc.Shows w.os.store (packets tr) ∨
    w.mutex ≠ none ∧ acc.Shows w.os.store (packets tr).dropLast := by
  have hfile := hg.file
  unfold Between at hfile
  split at hfile
  · exact Or.inl hfile
  · exact hfile.elim
  · rename_i hm
    obtain ⟨S, s, hS, -, hwithin⟩ := hfile
    rw [packets, hS, List.map_append]
    cases hpc : s.pc <;> rw [hpc] at hwithin <;> try exact hwithin.elim
    case unlock => exact Or.inl hwithin
    case writing p =>
      cases p <;> first
        | exact Or.inr ⟨by simp [hm], by simpa using hwithin.1⟩
        | exact Or.inl hwithin.1
        | exact hwithin.elim
  · rename_i i hm
    obtain ⟨S, c, sent, hS, -, -, hwithin⟩ := hfile
    rw [packets, hS, List.map_append]
    rcases (within_part hwithin).1 with hshows | hshows
    · exact Or.inr ⟨by simp [hm], by simpa using hshows⟩
    · exact Or.inl hshows

/-- In the section between `S` and `S'` client `i` has been sent `bytes`; only the holder of the
mutex may be in the middle of its last answer. -/
def AnsweredWith {σ : Type} (tr : List Event) (w : World σ) (i : Nat) (S S' : List (Tid × List UInt8))
    (bytes : List UInt8) : Prop :=
  ∃ sent rest, (answers (project (.client i) tr))[(S.filter (·.1 = .client i)).length]? = some sent ∧
    sent ++ rest = bytes ∧ (S' ≠ [] ∨ w.mutex ≠ some (.client i) → rest = [])

/-- Every client has been sent the answers to its packets, in their order and nothing else. -/
structure Answered {σ : Type} (reply : List (List UInt8) → List UInt8) (tr : List Event)
    (w : World σ) : Prop where
  count : ∀ i, (answers (project (.client i) tr)).length = (recordsOf (.client i) tr).length
  answer : ∀ i S p S', sections tr = S ++ (.client i, p) :: S' →
    AnsweredWith tr w i S S' (reply (S.map Prod.snd ++ [p]))

theorem replies_at (reply : List (List UInt8) → List UInt8) (tid : Tid)
    (S S' : List (Tid × List UInt8)) (p : List UInt8) (l : List (List UInt8)) :
    (replies reply tid [] (S ++ (tid, p) :: S') ++ l)[(S.filter (·.1 = tid)).length]? =
      some (reply (S.map Prod.snd ++ [p])) := by
  rw [replies_append, ← length_replies reply tid [] S]
  simp [replies]

theorem Going.answered (hg : Going acc tr w) : Answered acc.reply tr w := by
  constructor
  · intro i
    rw [recordsOf, List.length_map, ← length_replies acc.reply (.client i) [] (sections tr)]
    by_cases hm : w.mutex = some (.client i)
    · obtain ⟨S, c, sent, hS, -, hans, -⟩ := by simpa only [Between, hm] using hg.file
      rw [hans, hS, replies_append]
      simp [replies]
    · rw [hg.others i hm]
  · intro i S p S' hsplit
    unfold AnsweredWith
    by_cases hm : w.mutex = some (.client i)
    · obtain ⟨S₀, c, sent, hS, -, hans, hwithin⟩ := by simpa only [Between, hm] using hg.file
      rw [hans]
      rcases List.eq_nil_or_concat S' with rfl | ⟨S'', y, rfl⟩
      · obtain ⟨rfl, hlast⟩ := List.append_inj' (hS.symm.trans hsplit) rfl
        obtain rfl : c.packet = p := by simpa using hlast
        obtain ⟨rest, hrest⟩ := (within_part hwithin).2
        refine ⟨sent, rest, ?_, hrest, fun h => ?_⟩
        · rw [← length_replies acc.reply (.client i) [] S₀]
          simp
        · simp [hm] at h
      · have hS₀ : S₀ = S ++ (.client i, p) :: S'' := by
          have := hS.symm.trans hsplit
          rw [List.concat_eq_append, ← List.cons_append, ← List.append_assoc] at this
          exact (List.append_inj' this rfl).1
        rw [hS₀]
        exact ⟨_, [], replies_at _ _ _ _ _ _, List.append_nil _, fun _ => rfl⟩
    · rw [hg.others i hm, hsplit, ← List.append_nil (replies _ _ _ _)]
      exact ⟨_, [], replies_at _ _ _ _ _ _, List.append_nil _, fun _ => rfl⟩

end Aesd.Server
