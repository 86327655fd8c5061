import Aesd.Launch.Verdict

/-!
# The start as one step of the server

The server's model has one step `setup` for all that prepares the socket. The
start, one call at a time, is a run of that model.
-/
namespace Aesd.Launch

open PartialRun Server

variable {env : Env} {tr : List Event} {w t : World} {p q : Proc} {e : Event}

/-- The step of the server's `main` a point belongs to: all that prepares the socket is `setup`. -/
def Pc.stage (build : Build) : Pc → MainPc
  | .log => if build = .file then .clear else .setup
  | .clear => .clear
  | .clearClose fd => .clearClose fd
  | .createStamp => .createStamp
  | .accept => .accept
  | _ => .setup

/-- What the server's `main` sees of an event. -/
def serverEvents : Event → List Server.Event
  | .answer _ .openData a => [⟨.main, .openFile .truncate, a⟩]
  | .answer _ (.closeData fd) a => [⟨.main, .closeFile fd, a⟩]
  | .answer _ (.listen _) a => [⟨.main, .setup, a⟩]
  | .answer _ .createThread a => [⟨.main, .createThread, a⟩]
  | .answer _ (.sigaction _) .failed | .answer _ .getaddrinfo .failed | .answer _ (.bind _) .failed
  | .answer _ .fork .failed | .answer _ .setsid .failed | .answer _ .chdir .failed =>
    [⟨.main, .setup, .failed⟩]
  | _ => []

theorem serverEvents_other (hother : ∀ who call a, e ≠ .answer who call a) :
    serverEvents e = [] := by
  cases e with
  | answer who call a => exact absurd rfl (hother who call a)
  | signal | kill => rfl

/-- The process and the server's `main` stand at the same step. -/
structure Sim (env : Env) (p : Proc) (v : Server.World Unit) : Prop where
  main : v.main = p.pc.stage env.build
  live : p.ending = none → v.exited = false
  failed : p.ending = some (.exited 1) → v.exited = true
  clients : v.clients = []
  build : p.pc = .createStamp → env.build = .file
  stamp : v.stamp = if p.pc = .accept ∧ env.build = .file then some Stamp.start else none

/-- One event of the server's `main`. -/
theorem sim_main {v u : Server.World Unit} {call : Server.Call} {a : Answer}
    (hgo : v.exited = false) (hcall : v.main.call = call)
    (h : v.resumeMain env.build a = some u) (hs : Sim env q u) :
    ∃ v', run (Server.World.step env.build anyAnswer) v [⟨.main, call, a⟩] = some v' ∧
      Sim env q v' := by
  subst hcall
  refine ⟨{ u with os := (), mutex := v.mutex }, ?_,
    ⟨hs.main, hs.live, hs.failed, hs.clients, hs.build, hs.stamp⟩⟩
  rw [run_cons, Server.World.step_eq_some.mpr ⟨hgo, (), v.mutex, u, rfl, ?_,
    Server.World.thread_main.mpr ⟨rfl, h⟩, rfl⟩]
  · rfl
  · rw [main_use]
    rfl

/-- What the server's `main` does not see. -/
theorem Sim.silent {v : Server.World Unit} {m : MainPc} (hs : Sim env p v)
    (hp : p.pc.stage env.build = m) (hq : q.pc.stage env.build = m) (hm : m = .clear ∨ m = .setup)
    (hend : q.ending = p.ending) : Sim env q v where
  main := hs.main.trans (hp.trans hq.symm)
  live h := hs.live (hend ▸ h)
  failed h := hs.failed (hend ▸ h)
  clients := hs.clients
  build h := by
    rw [h] at hq
    rcases hm with rfl | rfl <;> cases hq
  stamp := by
    rw [hs.stamp, if_neg fun h => ?_, if_neg fun h => ?_]
    · rw [h.1] at hq
      rcases hm with rfl | rfl <;> cases hq
    · rw [h.1] at hp
      rcases hm with rfl | rfl <;> cases hp

/-- A call that fails ends both. -/
theorem sim_failed {who : Who} {call : Call} {v : Server.World Unit} (hcall : p.call = some call)
    (hchecked : p.pc.checked = true) (hlive : p.ending = none) (hs : Sim env p v) :
    ∃ v', run (Server.World.step env.build anyAnswer) v
      (serverEvents (.answer who call .failed)) = some v' ∧ Sim env p.fail v' := by
  have hmain := hs.main
  have hsim : Sim env p.fail { v with exited := true } :=
    ⟨hmain, fun h => (by cases h), fun _ => rfl, hs.clients, hs.build, hs.stamp⟩
  cases hpc : p.pc with
  | log | clear | clearClose | socket | exitParent | close | openNull | accept =>
    rw [hpc] at hchecked
    cases hchecked
  | sigaction | getaddrinfo | bind | fork | setsid | chdir | listen | createStamp =>
    simp only [Proc.call, hpc, Option.some.injEq] at hcall
    subst hcall
    simp only [hpc, Pc.stage] at hmain
    exact sim_main (hs.live hlive) (by rw [hmain]; rfl) (by simp only [Server.World.resumeMain, hmain])
      hsim

theorem sim_answer {who : Who} {call : Call} {a : Answer} {v : Server.World Unit}
    (hmove : p.Move env call a q) (hlive : p.ending = none) (hs : Sim env p v) :
    ∃ v', run (Server.World.step env.build anyAnswer) v (serverEvents (.answer who call a)) =
      some v' ∧ Sim env q v' := by
  have hmain := hs.main
  have hgo := hs.live hlive
  have hstamp := hs.stamp
  have hnofail : ∀ {P : Prop}, p.ending = some (.exited 1) → P := fun h => by
    rw [hlive] at h
    cases h
  cases hmove with
  | logged hpc | notLogged hpc =>
    refine ⟨v, rfl, hs.silent (by rw [hpc]) ?_ ?_ rfl⟩
    · cases env.build <;> rfl
    · cases env.build
      · exact Or.inl rfl
      · exact Or.inr rfl
  | @opened n hpc =>
    simp only [hpc, Pc.stage] at hmain hstamp
    refine sim_main (u := { v with main := .clearClose n }) hgo (by rw [hmain]; rfl) ?_
      ⟨rfl, fun _ => hgo, hnofail, hs.clients, fun h => (by cases h), hstamp⟩
    simp only [Server.World.resumeMain, hmain]
  | notOpened hpc =>
    simp only [hpc, Pc.stage] at hmain hstamp
    refine sim_main (u := { v with main := .setup }) hgo (by rw [hmain]; rfl) ?_
      ⟨rfl, fun _ => hgo, hnofail, hs.clients, fun h => (by cases h), hstamp⟩
    simp only [Server.World.resumeMain, hmain]
  | @cleared fd a hpc ha =>
    simp only [hpc, Pc.stage] at hmain hstamp
    refine sim_main (u := { v with main := .setup }) hgo (by rw [hmain]; rfl) ?_
      ⟨rfl, fun _ => hgo, hnofail, hs.clients, fun h => (by cases h), hstamp⟩
    rcases ha with rfl | rfl <;> simp only [Server.World.resumeMain, hmain]
  | @caught signal hpc =>
    exact ⟨v, rfl, hs.silent (by rw [hpc]; rfl) (by cases signal <;> rfl) (Or.inr rfl) rfl⟩
  | resolved hpc | created hpc | notCreated hpc | leads hpc | moved hpc =>
    exact ⟨v, rfl, hs.silent (by rw [hpc]; rfl) rfl (Or.inr rfl) rfl⟩
  | bound hpc =>
    exact ⟨v, rfl, hs.silent (by rw [hpc]; rfl) (by cases env.daemon <;> rfl) (Or.inr rfl) rfl⟩
  | @closed stream _ hpc | @nulled stream _ hpc | @notNulled stream hpc =>
    exact ⟨v, rfl, hs.silent (by rw [hpc]; rfl) (by cases stream <;> rfl) (Or.inr rfl) rfl⟩
  | left => exact ⟨v, rfl, hmain, fun h => (by cases h), fun h => (by cases h), hs.clients,
    hs.build, hstamp⟩
  | listening hpc =>
    simp only [hpc, Pc.stage] at hmain hstamp
    by_cases hbuild : env.build = .file
    · rw [if_pos hbuild]
      exact sim_main (u := { v with main := .createStamp }) hgo (by rw [hmain]; rfl)
        (by simp only [Server.World.resumeMain, hmain, if_pos hbuild])
        ⟨rfl, fun _ => hgo, hnofail, hs.clients, fun _ => hbuild, by simpa using hstamp⟩
    · rw [if_neg hbuild]
      exact sim_main (u := { v with main := .accept }) hgo (by rw [hmain]; rfl)
        (by simp only [Server.World.resumeMain, hmain, if_neg hbuild])
        ⟨rfl, fun _ => hgo, hnofail, hs.clients, fun h => (by cases h),
          by simpa [hbuild] using hstamp⟩
  | stamped hpc =>
    simp only [hpc, Pc.stage] at hmain hstamp
    exact sim_main (u := { v with stamp := some Stamp.start, main := .accept }) hgo
      (by rw [hmain]; rfl) (by simp only [Server.World.resumeMain, hmain])
      ⟨rfl, fun _ => hgo, hnofail, hs.clients, fun h => (by cases h), by simp [hs.build hpc]⟩
  | failed hcall hchecked => exact sim_failed hcall hchecked hlive hs

theorem sim_step {v : Server.World Unit} (h : w.step env e = some t) (hi : Inv env tr w)
    (hs : Sim env w.server v) :
    ∃ v', run (Server.World.step env.build anyAnswer) v (serverEvents e) = some v' ∧
      Sim env t.server v' := by
  rcases server_step h hi with ⟨rfl, hpc, ht⟩ | ⟨hlive, hreact⟩ | ⟨ht, hcall⟩
  · exact ⟨v, rfl, ht ▸ hs.silent (by rw [hpc]; rfl) rfl (Or.inr rfl) rfl⟩
  · rcases react_cases (server_globalSockfd hi) hreact with
      ⟨who, call, a, rfl, hmove⟩ | ⟨hother, ending, ht, hending⟩
    · exact sim_answer hmove hlive hs
    · rw [serverEvents_other hother, ht]
      exact ⟨v, rfl, hs.main, fun _ => hs.live hlive, fun h => absurd h (hending hlive),
        hs.clients, hs.build, hs.stamp⟩
  · have hnone : serverEvents e = [] := by
      rcases hcall with ⟨who, rfl⟩ | hother
      · rfl
      · exact serverEvents_other hother
    exact ⟨v, by rw [hnone]; rfl, ht ▸ hs⟩

/-- The start is what the server's model takes for it: the one step `setup`, which fails where a
call on the way has failed, and goes on where `listen` has succeeded. -/
theorem server_start (h : run (World.step env) (World.start env) tr = some w) :
    ∃ v, run (Server.World.step env.build anyAnswer) (Server.World.start env.build ())
      (tr.flatMap serverEvents) = some v ∧ Sim env w.server v := by
  refine run_invariant (I := fun tr w => ∃ v, run (Server.World.step env.build anyAnswer)
    (Server.World.start env.build ()) (tr.flatMap serverEvents) = some v ∧ Sim env w.server v)
    ⟨_, rfl, ?_⟩ (fun tr w e t hrun hstep ⟨v, hv, hs⟩ => ?_) h
  · exact ⟨rfl, fun _ => rfl, fun h => (by cases h), rfl, fun h => (by cases h), rfl⟩
  · obtain ⟨v', hv', hs'⟩ := sim_step hstep (run_inv hrun) hs
    refine ⟨v', ?_, hs'⟩
    rw [List.flatMap_append, List.flatMap_singleton]
    exact run_append_eq_some.mpr ⟨v, hv, hv'⟩

theorem server_start_fromShell : ∃ w v,
    run (World.step fromShell) (World.start fromShell) detaches = some w ∧
    run (Server.World.step .file anyAnswer) (Server.World.start .file ())
      (detaches.flatMap serverEvents) = some v ∧ Sim fromShell w.server v := by
  have hrun : run (World.step fromShell) (World.start fromShell) detaches = some _ := rfl
  obtain ⟨v, hv, hs⟩ := server_start hrun
  exact ⟨_, v, hrun, hv, hs⟩

end Aesd.Launch
