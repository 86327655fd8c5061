import Aesd.Launch.Start

/-!
# What the start of the server leads to

The descriptors of a server at its accept loop, in the foreground and as a
daemon, and what the status tells the shell that started it.
-/
namespace Aesd.Launch

open PartialRun Server

variable {env : Env} {tr : List Event} {w t : World} {p q : Proc} {e : Event}
  {base : Descriptors} {opened : List Access}

/-- The opens of `/dev/null` that succeeded. -/
def openedBy : Event → List Access
  | .answer _ (.openNull access) (.fd _) => [access]
  | _ => []

def openedNulls (tr : List Event) : List Access := tr.flatMap openedBy

theorem openedBy_done (who : Who) (call : Call) : openedBy (.answer who call .done) = [] := by
  cases call <;> rfl

theorem openedBy_failed (who : Who) (call : Call) : openedBy (.answer who call .failed) = [] := by
  cases call <;> rfl

/-- Only the answer of a call opens anything. -/
theorem openedBy_other (hother : ∀ who call a, e ≠ .answer who call a) : openedBy e = [] := by
  cases e with
  | answer who call a => exact absurd rfl (hother who call a)
  | signal | kill => rfl

/-- The opens that come before the one of this stream. -/
def Stream.before : Stream → List Access
  | .stdin => []
  | .stdout => [.rdonly]
  | .stderr => [.rdonly, .wronly]

/-- The descriptors behind the first `syslog`, which may have connected to the log. -/
def Logged (env : Env) (base : Descriptors) : Prop :=
  base = env.descriptors ∨ ∃ n, LowestFree env.descriptors n ∧
    base = Function.update env.descriptors n (some .log)

/-- These descriptors and the socket. -/
def held (base : Descriptors) (s : Nat) : Descriptors := Function.update base s (some .socket)

/-- The descriptors of the daemon: every `/dev/null` it could open, from 0 on. -/
def detached (base : Descriptors) (opened : List Access) (s : Nat) : Descriptors := fun n =>
  if n < 3 then (opened[n]?).map .null else held base s n

/-- The socket took the lowest free descriptor, and the table is this one. -/
def Placed (base : Descriptors) (p : Proc) (table : Nat → Descriptors) : Prop :=
  ∃ s : Nat, LowestFree base s ∧ p.sockfd = s ∧ p.descriptors = table s

/-- The table behind the streams. -/
def settled (env : Env) (base : Descriptors) (opened : List Access) : Nat → Descriptors :=
  if env.daemon then detached base opened else held base

/-- The descriptors along the way to the accept loop. -/
def CourseFrom (env : Env) (base : Descriptors) (opened : List Access) (p : Proc) : Prop :=
  match p.pc with
  | .log | .exitParent => False
  | .clear | .sigaction _ | .getaddrinfo | .socket => p.descriptors = base ∧ opened = []
  | .clearClose fd => base fd = none ∧
    p.descriptors = Function.update base fd (some .data) ∧ opened = []
  | .bind => (p.sockfd = -1 ∨ Placed base p (held base)) ∧ opened = []
  | .fork | .setsid | .chdir => Placed base p (held base) ∧ opened = [] ∧ env.daemon = true
  | .close stream =>
    Placed base p (fun s n => if n < stream.fileno then none else held base s n) ∧ opened = [] ∧
      env.daemon = true
  | .openNull stream => Placed base p (detached base opened) ∧ opened.Sublist stream.before ∧
    env.daemon = true
  | .listen => Placed base p (settled env base opened) ∧ opened.Sublist [.rdonly, .wronly, .rdwr]
  | .createStamp | .accept => Placed base p (settled env base opened) ∧
    opened.Sublist [.rdonly, .wronly, .rdwr] ∧ lookup p.descriptors p.sockfd = some .socket

/-- The process is before its first `syslog`, or on the way from there. -/
def Course (env : Env) (opened : List Access) (p : Proc) : Prop :=
  p.pc = .log ∧ p.descriptors = env.descriptors ∧ opened = [] ∨
    ∃ base, Logged env base ∧ CourseFrom env base opened p

@[simp] theorem lookup_natCast (table : Descriptors) (s : Nat) : lookup table s = table s := rfl

theorem lookup_placed {table : Nat → Descriptors} {s : Nat} (hs : p.sockfd = s)
    (htable : p.descriptors = table s) : lookup p.descriptors p.sockfd = table s s := by
  rw [hs, htable, lookup_natCast]

/-- Every free place below 3 is behind the files the daemon has opened. -/
theorem lowestFree_detached {s n : Nat} (hlen : opened.length < 3)
    (hfree : LowestFree (detached base opened s) n) : n = opened.length := by
  rcases Nat.lt_trichotomy n opened.length with hlt | heq | hgt
  · have hnone := hfree.1
    rw [detached, if_pos (by omega), List.getElem?_eq_getElem hlt] at hnone
    cases hnone
  · exact heq
  · have hsome := hfree.2 _ hgt
    rw [detached, if_pos hlen, List.getElem?_eq_none (Nat.le_refl _)] at hsome
    cases hsome

theorem update_detached {s : Nat} (hlen : opened.length < 3) (access : Access) :
    Function.update (detached base opened s) opened.length (some (.null access)) =
      detached base (opened ++ [access]) s := by
  funext n
  by_cases hn : n = opened.length
  · subst hn
    simp [detached, hlen]
  · rw [Function.update_of_ne hn]
    unfold detached
    split_ifs with h3
    · rcases Nat.lt_or_gt_of_ne hn with hlt | hgt
      · rw [List.getElem?_append_left hlt]
      · rw [List.getElem?_eq_none (by omega), List.getElem?_eq_none (by simp; omega)]
    · rfl

/-- The streams are gone up to this one. -/
theorem update_closed (table : Descriptors) (k : Nat) :
    Function.update (fun n => if n < k then none else table n) k none =
      fun n => if n < k + 1 then none else table n := by
  funext n
  by_cases hn : n = k
  · subst hn
    simp
  · rw [Function.update_of_ne hn]
    have hiff : n < k + 1 ↔ n < k := by omega
    simp only [hiff]

theorem Stream.length_before (stream : Stream) : stream.before.length < 3 := by
  cases stream <;> decide

theorem settled_daemon (hdaemon : env.daemon = true) :
    settled env base opened = detached base opened := if_pos hdaemon

theorem settled_foreground (hdaemon : env.daemon = false) :
    settled env base opened = held base := by rw [settled, hdaemon]; rfl

/-- The point behind an open of `/dev/null`, whether it has succeeded or not. -/
theorem courseFrom_afterOpen {stream : Stream} (hpc : q.pc = stream.afterOpen)
    (hplaced : Placed base q (detached base opened))
    (hsub : opened.Sublist (stream.before ++ [stream.access])) (hdaemon : env.daemon = true) :
    CourseFrom env base opened q := by
  unfold CourseFrom
  rw [hpc]
  cases stream with
  | stdin | stdout => exact ⟨hplaced, hsub, hdaemon⟩
  | stderr => exact ⟨by rwa [settled_daemon hdaemon], hsub⟩

theorem courseFrom_answer {who : Who} {call : Call} {a : Answer} (hmove : p.Move env call a q)
    (hc : CourseFrom env base opened p) :
    CourseFrom env base (opened ++ openedBy (.answer who call a)) q := by
  unfold CourseFrom at hc
  cases hmove with
  | logged hpc | notLogged hpc | left hpc => simp only [hpc] at hc
  | opened hpc hfree =>
    simp only [hpc] at hc
    exact ⟨hc.1 ▸ hfree.1, by rw [← hc.1]; rfl, by rw [hc.2]; rfl⟩
  | notOpened hpc =>
    simp only [hpc] at hc
    exact ⟨hc.1, by rw [hc.2]; rfl⟩
  | @cleared fd a hpc ha =>
    simp only [hpc] at hc
    obtain ⟨hfree, htable, rfl⟩ := hc
    refine ⟨?_, rfl⟩
    change Function.update p.descriptors fd none = base
    rw [htable, Function.update_idem, ← hfree, Function.update_eq_self]
  | @caught signal hpc =>
    simp only [hpc] at hc
    obtain ⟨htable, rfl⟩ := hc
    cases signal <;> exact ⟨htable, rfl⟩
  | resolved hpc =>
    simp only [hpc] at hc
    exact ⟨hc.1, by rw [hc.2]; rfl⟩
  | @created n hpc hfree =>
    simp only [hpc] at hc
    obtain ⟨htable, rfl⟩ := hc
    exact ⟨Or.inr ⟨n, htable ▸ hfree, rfl, by rw [held, ← htable]; rfl⟩, rfl⟩
  | notCreated hpc =>
    simp only [hpc] at hc
    exact ⟨Or.inl rfl, by rw [hc.2]; rfl⟩
  | bound hpc hsocket =>
    simp only [hpc] at hc
    obtain ⟨hplaced, rfl⟩ := hc
    have hplaced : Placed base p (held base) := by
      refine hplaced.resolve_left fun hnone => ?_
      rw [hnone] at hsocket
      cases hsocket
    cases hdaemon : env.daemon with
    | true => exact ⟨hplaced, rfl, hdaemon⟩
    | false => exact ⟨by rwa [settled_foreground hdaemon], List.nil_sublist _⟩
  | leads hpc =>
    simp only [hpc] at hc
    obtain ⟨hplaced, rfl, hdaemon⟩ := hc
    exact ⟨hplaced, rfl, hdaemon⟩
  | moved hpc =>
    simp only [hpc] at hc
    obtain ⟨⟨s, hfree, hs, htable⟩, rfl, hdaemon⟩ := hc
    exact ⟨⟨s, hfree, hs, by simpa [Stream.fileno] using htable⟩, rfl, hdaemon⟩
  | @closed stream a hpc =>
    simp only [hpc] at hc
    obtain ⟨⟨s, hfree, hs, htable⟩, rfl, hdaemon⟩ := hc
    have hdrop : (p.drop stream.fileno).descriptors =
        fun n => if n < stream.fileno + 1 then none else held base s n := by
      rw [Proc.drop, htable, update_closed]
    cases stream with
    | stdin | stdout => exact ⟨⟨s, hfree, hs, hdrop⟩, rfl, hdaemon⟩
    | stderr => exact ⟨⟨s, hfree, hs, by rw [hdrop]; rfl⟩, List.nil_sublist _, hdaemon⟩
  | @nulled stream n hpc hnull =>
    simp only [hpc] at hc
    obtain ⟨⟨s, hfree, hs, htable⟩, hsub, hdaemon⟩ := hc
    have hlen : opened.length < 3 := hsub.length_le.trans_lt stream.length_before
    obtain rfl := lowestFree_detached hlen (htable ▸ hnull)
    have hinstall : (p.install opened.length (.null stream.access)).descriptors =
        detached base (opened ++ [stream.access]) s := by
      rw [Proc.install, htable, update_detached hlen]
    exact courseFrom_afterOpen rfl ⟨s, hfree, hs, hinstall⟩
      (hsub.append (List.Sublist.refl [stream.access])) hdaemon
  | @notNulled stream hpc =>
    simp only [hpc] at hc
    obtain ⟨hplaced, hsub, hdaemon⟩ := hc
    rw [openedBy_failed, List.append_nil]
    exact courseFrom_afterOpen rfl hplaced (hsub.trans (List.sublist_append_left _ _)) hdaemon
  | listening hpc hsocket =>
    simp only [hpc] at hc
    rw [openedBy_done, List.append_nil]
    cases hbuild : env.build <;> exact ⟨hc.1, hc.2, hsocket⟩
  | stamped hpc =>
    simp only [hpc] at hc
    rw [openedBy_done, List.append_nil]
    exact hc
  | failed =>
    rw [openedBy_failed, List.append_nil]
    exact hc

theorem Course.from (hc : Course env opened p) (hpc : p.pc ≠ .log) :
    ∃ base, Logged env base ∧ CourseFrom env base opened p :=
  hc.resolve_left fun h => hpc h.1

theorem course_answer {who : Who} {call : Call} {a : Answer} (hmove : p.Move env call a q)
    (hc : Course env opened p) : Course env (opened ++ openedBy (.answer who call a)) q := by
  rcases hc with ⟨hpc, htable, rfl⟩ | ⟨base, hbase, hc⟩
  · cases hmove with
    | @logged n _ hfree =>
      refine Or.inr ⟨_, Or.inr ⟨n, htable ▸ hfree, rfl⟩, ?_⟩
      rw [← htable]
      cases hbuild : env.build <;> exact ⟨rfl, rfl⟩
    | notLogged =>
      refine Or.inr ⟨_, Or.inl rfl, ?_⟩
      rw [← htable]
      cases hbuild : env.build <;> exact ⟨rfl, rfl⟩
    | failed _ hchecked =>
      rw [hpc] at hchecked
      cases hchecked
    | _ hpc' =>
      rw [hpc] at hpc'
      cases hpc'
  · exact Or.inr ⟨base, hbase, courseFrom_answer hmove hc⟩

/-- Both handlers are installed before the socket is made, and the daemon has a session of its
own in `/`. -/
def Prepared (env : Env) (p : Proc) : Prop :=
  match p.pc with
  | .log | .clear | .clearClose _ | .sigaction .sigint => True
  | .sigaction .sigterm => p.dispositions .sigint = .handler
  | .getaddrinfo | .socket | .bind | .fork | .exitParent | .setsid =>
    ∀ signal, p.dispositions signal = .handler
  | .chdir => (∀ signal, p.dispositions signal = .handler) ∧ p.sessionLeader = true
  | .close _ | .openNull _ =>
    (∀ signal, p.dispositions signal = .handler) ∧ p.sessionLeader = true ∧ p.atRoot = true
  | .listen | .createStamp | .accept => (∀ signal, p.dispositions signal = .handler) ∧
    (env.daemon = true → p.sessionLeader = true ∧ p.atRoot = true)

theorem prepared_answer {call : Call} {a : Answer} (hmove : p.Move env call a q)
    (hp : Prepared env p) : Prepared env q := by
  unfold Prepared at hp
  cases hmove with
  | logged | notLogged => cases hbuild : env.build <;> trivial
  | opened | notOpened | cleared => trivial
  | @caught signal hpc =>
    cases signal with
    | sigint => simp [Prepared]
    | sigterm =>
      simp only [hpc] at hp
      intro signal
      cases signal with
      | sigint => simpa using hp
      | sigterm => simp
  | resolved hpc | created hpc | notCreated hpc | stamped hpc =>
    simp only [hpc] at hp
    exact hp
  | left hpc =>
    simp only [hpc] at hp
    simpa only [Prepared, hpc] using hp
  | bound hpc =>
    simp only [hpc] at hp
    cases hdaemon : env.daemon with
    | true => exact hp
    | false => exact ⟨hp, fun h => by rw [hdaemon] at h; cases h⟩
  | leads hpc =>
    simp only [hpc] at hp
    exact ⟨hp, rfl⟩
  | moved hpc =>
    simp only [hpc] at hp
    exact ⟨hp.1, hp.2, rfl⟩
  | @closed stream _ hpc =>
    simp only [hpc] at hp
    cases stream <;> exact hp
  | @nulled stream _ hpc | @notNulled stream hpc =>
    simp only [hpc] at hp
    cases stream with
    | stdin | stdout => exact hp
    | stderr => exact ⟨hp.1, fun _ => hp.2⟩
  | listening hpc =>
    simp only [hpc] at hp
    cases hbuild : env.build <;> exact hp
  | failed => exact hp

/-- What an event does to a process on its course. -/
theorem react_course (hglobal : p.globalSockfd = -1) (h : p.react env e = some q)
    (hc : Course env opened p) (hp : Prepared env p) :
    Course env (opened ++ openedBy e) q ∧ Prepared env q := by
  rcases react_cases hglobal h with ⟨who, call, a, rfl, hmove⟩ | ⟨hother, ending, rfl, -⟩
  · exact ⟨course_answer hmove hc, prepared_answer hmove hp⟩
  · rw [openedBy_other hother, List.append_nil]
    exact ⟨hc, hp⟩

/-- A process gets to `fork` behind a `bind` that succeeded. -/
theorem react_bound (hglobal : p.globalSockfd = -1) (h : p.react env e = some q)
    (hq : q.pc = .fork ∨ q.pc = .exitParent) :
    (p.pc = .fork ∨ p.pc = .exitParent) ∨ ∃ who fd, e = .answer who (.bind fd) .done := by
  rcases react_cases hglobal h with ⟨who, call, a, rfl, hmove⟩ | ⟨-, ending, rfl, -⟩
  · cases hmove with
    | bound => exact Or.inr ⟨_, _, rfl⟩
    | left | failed => exact Or.inl hq
    | logged | notLogged =>
      cases hbuild : env.build <;> simp [hbuild, Pc.afterLog] at hq
    | @caught signal => cases signal <;> rcases hq with hq | hq <;> cases hq
    | @closed stream | @nulled stream | @notNulled stream =>
      cases stream <;> rcases hq with hq | hq <;> cases hq
    | listening => cases hbuild : env.build <;> simp [hbuild] at hq
    | opened | notOpened | cleared | resolved | created | notCreated | leads | moved | stamped =>
      rcases hq with hq | hq <;> cases hq
  · exact Or.inl hq

/-- A process that has forked makes no call but `exit`. -/
theorem react_exitParent (hglobal : p.globalSockfd = -1) (h : p.react env e = some q)
    (hpc : p.pc = .exitParent) : q.pc = .exitParent ∧
      ((∃ who, e = .answer who .exit .done ∧ q.ending = some (.exited 0)) ∨
        (∀ who call a, e ≠ .answer who call a) ∧
          (p.ending = none → q.ending ≠ some (.exited 1))) := by
  rcases react_cases hglobal h with ⟨who, call, a, rfl, hmove⟩ | ⟨hother, ending, rfl, hending⟩
  · cases hmove with
    | left => exact ⟨hpc, Or.inl ⟨who, rfl, rfl⟩⟩
    | failed _ hchecked =>
      rw [hpc] at hchecked
      cases hchecked
    | _ hpc' =>
      rw [hpc] at hpc'
      cases hpc'
  · exact ⟨hpc, Or.inr ⟨hother, hending⟩⟩

/-- What every run keeps: the process that goes on to serve is on its course, and one that has
forked only exits. -/
structure Inv (env : Env) (tr : List Event) (w : World) : Prop where
  globals : ∀ who p, w.proc who = some p → p.globalSockfd = -1
  course : Course env (openedNulls tr) w.server
  prepared : Prepared env w.server
  forked : w.child.isSome → w.parent.pc = .exitParent ∧ env.daemon = true
  forks : w.child.isSome ↔ .answer .parent .fork .done ∈ tr
  bound : w.parent.pc = .fork ∨ w.parent.pc = .exitParent →
    ∃ fd, .answer .parent (.bind fd) .done ∈ tr

theorem openedNulls_concat (tr : List Event) (e : Event) :
    openedNulls (tr ++ [e]) = openedNulls tr ++ openedBy e := by simp [openedNulls]

/-- What an event does to the process that goes on to serve. -/
theorem server_step (h : w.step env e = some t) (hi : Inv env tr w) :
    (e = .answer .parent .fork .done ∧ w.server.pc = .fork ∧
      t.server = { w.server with pc := .setsid }) ∨
    (w.server.ending = none ∧ w.server.react env e = some t.server) ∨
    (t.server = w.server ∧
      ((∃ who, e = .answer who .exit .done) ∨ ∀ who call a, e ≠ .answer who call a)) := by
  rcases step_cases h with ⟨rfl, hpc, -, rfl⟩ | ⟨p, q, hp, hlive, hreact, rfl⟩
  · have hchild : w.child = none := by
      by_contra hsome
      have hexit := (hi.forked (Option.isSome_iff_ne_none.mpr hsome)).1
      rw [hpc] at hexit
      cases hexit
    have hserver : w.server = w.parent := by rw [World.server, hchild, Option.getD_none]
    rw [hserver]
    exact Or.inl ⟨rfl, hpc, rfl⟩
  · cases hwho : e.who with
    | child =>
      simp only [hwho, World.proc] at hp
      have hserver : w.server = p := by rw [World.server, hp, Option.getD_some]
      rw [hserver]
      exact Or.inr (Or.inl ⟨hlive, hreact⟩)
    | parent =>
      have hglobal := hi.globals _ _ hp
      simp only [hwho, World.proc, Option.some.injEq] at hp
      subst hp
      cases hchild : w.child with
      | none =>
        have hserver : w.server = w.parent := by rw [World.server, hchild, Option.getD_none]
        have hserver' : (w.setProc .parent q).server = q := by
          rw [World.server, World.setProc, hchild, Option.getD_none]
        rw [hserver, hserver']
        exact Or.inr (Or.inl ⟨hlive, hreact⟩)
      | some c =>
        have hserver : (w.setProc .parent q).server = w.server := by
          simp [World.server, World.setProc, hchild]
        rw [hserver]
        refine Or.inr (Or.inr ⟨rfl, ?_⟩)
        rcases (react_exitParent hglobal hreact (hi.forked (by simp [hchild])).1).2 with
          ⟨who, rfl, -⟩ | ⟨hother, -⟩
        · exact Or.inl ⟨who, rfl⟩
        · exact Or.inr hother

theorem globals_step (h : w.step env e = some t)
    (hi : ∀ who p, w.proc who = some p → p.globalSockfd = -1) :
    ∀ who p, t.proc who = some p → p.globalSockfd = -1 := by
  rcases step_cases h with ⟨rfl, -, -, rfl⟩ | ⟨p, q, hp, -, hreact, rfl⟩
  · rintro (_ | _) r hr <;> cases hr <;> exact hi .parent w.parent rfl
  · have hq := react_globalSockfd (hi _ _ hp) hreact
    cases hwho : e.who with
    | parent =>
      rintro (_ | _) r hr
      · cases hr
        exact hq
      · exact hi .child r hr
    | child =>
      rintro (_ | _) r hr
      · exact hi .parent r hr
      · cases hr
        exact hq

theorem server_globalSockfd (hi : Inv env tr w) : w.server.globalSockfd = -1 := by
  unfold World.server
  cases hchild : w.child with
  | none => exact hi.globals .parent _ rfl
  | some c => exact hi.globals .child c hchild

theorem course_step (h : w.step env e = some t) (hi : Inv env tr w) :
    Course env (openedNulls (tr ++ [e])) t.server ∧ Prepared env t.server := by
  rw [openedNulls_concat]
  rcases server_step h hi with ⟨rfl, hpc, ht⟩ | ⟨-, hreact⟩ | ⟨ht, hcall⟩
  · obtain ⟨base, hbase, hc⟩ := hi.course.from (by simp [hpc])
    have hp := hi.prepared
    simp only [CourseFrom, Prepared, hpc] at hc hp
    rw [ht, openedBy_done, List.append_nil]
    exact ⟨Or.inr ⟨base, hbase, hc⟩, hp⟩
  · exact react_course (server_globalSockfd hi) hreact hi.course hi.prepared
  · have hopened : openedBy e = [] := by
      rcases hcall with ⟨who, rfl⟩ | hother
      · exact openedBy_done who .exit
      · exact openedBy_other hother
    rw [ht, hopened, List.append_nil]
    exact ⟨hi.course, hi.prepared⟩

theorem inv_step (h : w.step env e = some t) (hi : Inv env tr w) : Inv env (tr ++ [e]) t := by
  obtain ⟨hcourse, hprepared⟩ := course_step h hi
  have hglobals := globals_step h hi.globals
  rcases step_cases h with ⟨rfl, hpc, -, rfl⟩ | ⟨p, q, hp, -, hreact, rfl⟩
  · obtain ⟨fd, hbind⟩ := hi.bound (Or.inl hpc)
    obtain ⟨base, -, -, -, hdaemon⟩ := hcourse.from (fun h => by cases h)
    exact ⟨hglobals, hcourse, hprepared, fun _ => ⟨rfl, hdaemon⟩, by simp,
      fun _ => ⟨fd, by simp [hbind]⟩⟩
  · have hglobal := hi.globals _ _ hp
    have hnofork : e ≠ .answer .parent .fork .done := by
      rintro rfl
      rcases react_cases hglobal hreact with ⟨who, call, a, heq, hmove⟩ | ⟨hother, -⟩
      · cases heq
        cases hmove
      · exact hother _ _ _ rfl
    have hforks : w.child.isSome ↔ .answer .parent .fork .done ∈ tr ++ [e] := by
      simp [hi.forks, Ne.symm hnofork]
    cases hwho : e.who with
    | child =>
      simp only [hwho, World.proc] at hp
      refine ⟨by rwa [hwho] at hglobals, by rwa [hwho] at hcourse, by rwa [hwho] at hprepared,
        fun _ => hi.forked (by simp [hp]), by simpa [World.setProc, hp] using hforks,
        fun hpc => ?_⟩
      obtain ⟨fd, hbind⟩ := hi.bound hpc
      exact ⟨fd, List.mem_append_left _ hbind⟩
    | parent =>
      simp only [hwho, World.proc, Option.some.injEq] at hp
      subst hp
      refine ⟨by rwa [hwho] at hglobals, by rwa [hwho] at hcourse, by rwa [hwho] at hprepared,
        fun hsome => ?_, hforks, fun hq => ?_⟩
      · obtain ⟨hexit, hdaemon⟩ := hi.forked hsome
        exact ⟨(react_exitParent hglobal hreact hexit).1, hdaemon⟩
      · rcases react_bound hglobal hreact hq with hpc | ⟨who, fd, rfl⟩
        · obtain ⟨fd, hbind⟩ := hi.bound hpc
          exact ⟨fd, List.mem_append_left _ hbind⟩
        · cases hwho
          exact ⟨fd, by simp⟩

theorem run_inv (h : run (World.step env) (World.start env) tr = some w) : Inv env tr w := by
  refine run_invariant (I := Inv env) ⟨?_, ?_, ?_, ?_, ?_, ?_⟩ (fun _ _ _ _ _ => inv_step) h
  · rintro (_ | _) p hp <;> cases hp
    rfl
  · exact Or.inl ⟨rfl, rfl, rfl⟩
  · trivial
  · exact fun hsome => by cases hsome
  · simp [World.start]
  · rintro (h | h) <;> cases h

/-- A shell starts the daemon with the three streams open. -/
def fromShell : Env where
  build := .file
  argv := ["aesdsocket", "-d"]
  descriptors n := if n < 3 then some (.inherited n) else none
  dispositions _ := .default
  stack := 0

def detaches : List Event :=
  [.answer .parent .syslog (.fd 3), .answer .parent .openData (.fd 4),
    .answer .parent (.closeData 4) .done, .answer .parent (.sigaction .sigint) .done,
    .answer .parent (.sigaction .sigterm) .done, .answer .parent .getaddrinfo .done,
    .answer .parent .socket (.fd 4), .answer .parent (.bind 4) .done,
    .answer .parent .fork .done, .answer .child .setsid .done, .answer .parent .exit .done,
    .answer .child .chdir .done, .answer .child (.close 0) .done,
    .answer .child (.close 1) .done, .answer .child (.close 2) .done,
    .answer .child (.openNull .rdonly) (.fd 0), .answer .child (.openNull .wronly) (.fd 1),
    .answer .child (.openNull .rdwr) (.fd 2), .answer .child (.listen 4) .done,
    .answer .child .createThread .done]

/-- A server at its accept loop, with its socket at `s`; `base` are the descriptors from which it
was taken. -/
structure Ready (env : Env) (base : Descriptors) (opened : List Access) (p : Proc) (s : Nat) :
    Prop where
  logged : Logged env base
  lowest : LowestFree base s
  sockfd : p.sockfd = s
  socket : p.descriptors s = some .socket
  handlers : ∀ signal, p.dispositions signal = .handler
  others : ∀ n ≠ s, p.descriptors n =
    if env.daemon ∧ n < 3 then (opened[n]?).map .null else base n
  daemon : env.daemon = true → 2 < s ∧ p.sessionLeader = true ∧ p.atRoot = true ∧
    opened.Sublist [.rdonly, .wronly, .rdwr]

/-- A daemon gets to its accept loop only if its socket is none of the standard streams: all three
were taken before it. Its own are then the files it could open, and all its other descriptors are
the ones it was started with and the log. -/
theorem server_ready (h : run (World.step env) (World.start env) tr = some w)
    (hpc : w.server.pc = .accept) : ∃ base s, Ready env base (openedNulls tr) w.server s := by
  have hi := run_inv h
  obtain ⟨base, hbase, hc⟩ := hi.course.from (by simp [hpc])
  have hp := hi.prepared
  simp only [CourseFrom, Prepared, hpc] at hc hp
  obtain ⟨⟨s, hfree, hs, htable⟩, hsub, hsocket⟩ := hc
  rw [lookup_placed hs htable] at hsocket
  cases hdaemon : env.daemon with
  | false =>
    rw [settled_foreground hdaemon] at htable
    refine ⟨base, s, hbase, hfree, hs, ?_, hp.1, fun n hn => ?_, fun hd => ?_⟩
    · rw [htable, held, Function.update_self]
    · simp [htable, held, Function.update_of_ne hn, hdaemon]
    · rw [hdaemon] at hd
      cases hd
  | true =>
    rw [settled_daemon hdaemon] at htable hsocket
    have hs3 : 2 < s := by
      by_contra hle
      rw [detached, if_pos (by omega), Option.map_eq_some_iff] at hsocket
      obtain ⟨access, -, hfile⟩ := hsocket
      cases hfile
    refine ⟨base, s, hbase, hfree, hs, by rw [htable, hsocket], hp.1, fun n hn => ?_,
      fun _ => ⟨hs3, (hp.2 hdaemon).1, (hp.2 hdaemon).2, hsub⟩⟩
    rw [htable, detached, held, Function.update_of_ne hn]
    simp [hdaemon]

theorem server_ready_fromShell : ∃ w,
    run (World.step fromShell) (World.start fromShell) detaches = some w ∧ w.server.pc = .accept ∧
    ∃ base s, Ready fromShell base (openedNulls detaches) w.server s := by
  have hrun : run (World.step fromShell) (World.start fromShell) detaches = some _ := rfl
  exact ⟨_, hrun, rfl, server_ready hrun rfl⟩

/-- No signal reaches this process. -/
def Quiet (who : Who) (tr : List Event) : Prop :=
  ∀ e ∈ tr, e.who = who → ∃ call a, e = .answer who call a

theorem Quiet.init {who : Who} (h : Quiet who (tr ++ [e])) : Quiet who tr := fun e he =>
  h e (List.mem_append_left _ he)

theorem Quiet.last {who : Who} (h : Quiet who (tr ++ [e])) (hwho : e.who = who) :
    ∃ call a, e = .answer who call a := h e (by simp) hwho

/-- By itself a process on its course only fails. -/
theorem react_ending {who : Who} {call : Call} {a : Answer} (hglobal : p.globalSockfd = -1)
    (h : p.react env (.answer who call a) = some q) (hlive : p.ending = none)
    (hc : Course env opened p) : q.ending = none ∨ q.ending = some (.exited 1) := by
  rcases react_cases hglobal h with ⟨_, _, _, heq, hmove⟩ | ⟨hother, -⟩
  · cases hmove with
    | failed => exact Or.inr rfl
    | left hpc =>
      obtain ⟨base, -, hfrom⟩ := hc.from (by simp [hpc])
      simp only [CourseFrom, hpc] at hfrom
    | _ => exact Or.inl hlive
  · exact absurd rfl (hother _ _ _)

/-- How the two processes may have ended. -/
structure Endings (tr : List Event) (w : World) : Prop where
  failed : w.parent.ending = some (.exited 1) → w.child = none
  parent : Quiet .parent tr → ∀ ending, w.parent.ending = some ending →
    ending = .exited (if w.child.isSome then 0 else 1)
  child : Quiet .child tr → ∀ c ending, w.child = some c → c.ending = some ending →
    ending = .exited 1

theorem endings_step (h : w.step env e = some t) (hi : Inv env tr w) (hw : Endings tr w) :
    Endings (tr ++ [e]) t := by
  rcases step_cases h with ⟨rfl, -, hlive, rfl⟩ | ⟨p, q, hp, hlive, hreact, rfl⟩
  · refine ⟨fun hend => ?_, fun _ ending hend => ?_, fun _ c ending hc hend => ?_⟩
    · cases hlive.symm.trans hend
    · cases hlive.symm.trans hend
    · cases hc
      cases hlive.symm.trans hend
  · have hglobal := hi.globals _ _ hp
    cases hwho : e.who with
    | child =>
      simp only [hwho, World.proc] at hp
      refine ⟨fun hend => ?_, fun hquiet ending hend => ?_, fun hquiet c ending hc hend => ?_⟩
      · have hnone := hw.failed hend
        rw [hp] at hnone
        cases hnone
      · simpa [World.setProc, hp] using hw.parent hquiet.init ending hend
      · obtain ⟨call, a, rfl⟩ := hquiet.last hwho
        cases hc
        have hcourse : Course env (openedNulls tr) p := by
          simpa [World.server, hp] using hi.course
        rcases react_ending hglobal hreact hlive hcourse with hnone | hfail
        · cases hnone.symm.trans hend
        · cases hfail.symm.trans hend
          rfl
    | parent =>
      simp only [hwho, World.proc, Option.some.injEq] at hp
      subst hp
      cases hchild : w.child with
      | none =>
        refine ⟨fun _ => hchild, fun hquiet ending hend => ?_, fun _ c _ hc _ => ?_⟩
        · obtain ⟨call, a, rfl⟩ := hquiet.last hwho
          have hcourse : Course env (openedNulls tr) w.parent := by
            simpa [World.server, hchild] using hi.course
          rcases react_ending hglobal hreact hlive hcourse with hnone | hfail
          · cases hnone.symm.trans hend
          · cases hfail.symm.trans hend
            simp [World.setProc, hchild]
        · simp [World.setProc, hchild] at hc
      | some c =>
        obtain ⟨-, hcall⟩ := react_exitParent hglobal hreact (hi.forked (by simp [hchild])).1
        refine ⟨fun hend => ?_, fun hquiet ending hend => ?_, fun hquiet => hw.child hquiet.init⟩
        · rcases hcall with ⟨-, -, hzero⟩ | ⟨-, hnot⟩
          · cases hzero.symm.trans hend
          · exact absurd hend (hnot hlive)
        · rcases hcall with ⟨-, -, hzero⟩ | ⟨hother, -⟩
          · cases hzero.symm.trans hend
            simp [World.setProc, hchild]
          · obtain ⟨call, a, rfl⟩ := hquiet.last hwho
            exact absurd rfl (hother _ _ _)

theorem run_endings (h : run (World.step env) (World.start env) tr = some w) : Endings tr w := by
  refine run_invariant (I := Endings) ⟨?_, ?_, ?_⟩ (fun _ _ _ _ hrun hstep hw =>
    endings_step hstep (run_inv hrun) hw) h
  · exact fun _ => rfl
  · intro _ ending hend
    cases hend
  · intro _ c _ hc
    cases hc

/-- The status of the process that was started: 1 means that no server is left, and without a
signal it is 0 exactly where the daemon was forked, behind a `bind` that succeeded. What becomes
of the daemon then, which fails with a 1 of its own, the status does not tell. -/
theorem launch_status (h : run (World.step env) (World.start env) tr = some w) :
    (w.parent.ending = some (.exited 1) → w.child = none) ∧
    (Quiet .parent tr → ∀ ending, w.parent.ending = some ending →
      ending = .exited (if .answer .parent .fork .done ∈ tr then 0 else 1)) ∧
    (.answer .parent .fork .done ∈ tr →
      env.daemon = true ∧ ∃ fd, .answer .parent (.bind fd) .done ∈ tr) ∧
    (Quiet .child tr → ∀ c ending, w.child = some c → c.ending = some ending →
      ending = .exited 1) := by
  have hi := run_inv h
  have hw := run_endings h
  refine ⟨hw.failed, fun hquiet ending hend => ?_, fun hfork => ?_, hw.child⟩
  · simpa only [hi.forks] using hw.parent hquiet ending hend
  · obtain ⟨hpc, hdaemon⟩ := hi.forked (hi.forks.mpr hfork)
    exact ⟨hdaemon, hi.bound (Or.inr hpc)⟩

/-- The daemon cannot listen, and nobody hears of it. -/
def deaf : List Event := detaches.take 18 ++ [.answer .child (.listen 4) .failed]

theorem launch_status_deaf : ∃ w, run (World.step fromShell) (World.start fromShell) deaf = some w ∧
    w.parent.ending = some (.exited 0) ∧
    (∃ fd, .answer .parent (.bind fd) .done ∈ deaf) ∧
    ∃ c, w.child = some c ∧ c.ending = some (.exited 1) := by
  have hrun : run (World.step fromShell) (World.start fromShell) deaf = some _ := rfl
  obtain ⟨-, -, hforked, -⟩ := launch_status hrun
  exact ⟨_, hrun, rfl, (hforked (by decide)).2, _, rfl, rfl⟩

end Aesd.Launch
