import Mathlib.Data.List.Infix

/-!
# Runs of a partial step function

A machine is a step function that refuses impossible events. A run consumes a
finite list of events; the induction rules keep the history in the invariant,
so that an invariant can speak about everything observed so far.
-/
namespace PartialRun

variable {σ ε : Type*}

/-- The state after the events, `none` as soon as one of them is impossible. -/
def run (step : σ → ε → Option σ) : σ → List ε → Option σ
  | s, [] => some s
  | s, e :: es => (step s e).bind fun s' => run step s' es

@[simp] theorem run_nil (step : σ → ε → Option σ) (s : σ) : run step s [] = some s := rfl

theorem run_cons (step : σ → ε → Option σ) (s : σ) (e : ε) (es : List ε) :
    run step s (e :: es) = (step s e).bind fun s' => run step s' es := rfl

theorem run_append (step : σ → ε → Option σ) (s : σ) (es es' : List ε) :
    run step s (es ++ es') = (run step s es).bind fun s' => run step s' es' := by
  induction es generalizing s with
  | nil => rfl
  | cons e es ih =>
    simp only [List.cons_append, run_cons, Option.bind_assoc]
    exact congrArg _ (funext fun s' => ih s')

theorem run_concat (step : σ → ε → Option σ) (s : σ) (es : List ε) (e : ε) :
    run step s (es ++ [e]) = (run step s es).bind fun s' => step s' e := by
  rw [run_append]
  congr 1
  funext s'
  simp [run_cons]

/-- The last step of a run, taken apart. -/
theorem run_concat_eq_some {step : σ → ε → Option σ} {s t : σ} {es : List ε} {e : ε} :
    run step s (es ++ [e]) = some t ↔ ∃ u, run step s es = some u ∧ step u e = some t := by
  rw [run_concat, Option.bind_eq_some_iff]

theorem run_append_eq_some {step : σ → ε → Option σ} {s t : σ} {es es' : List ε} :
    run step s (es ++ es') = some t ↔ ∃ u, run step s es = some u ∧ run step u es' = some t := by
  rw [run_append, Option.bind_eq_some_iff]

/-- Every prefix of a run is a run. -/
theorem run_prefix {step : σ → ε → Option σ} {s t : σ} {es pre : List ε}
    (h : run step s es = some t) (hp : pre <+: es) : ∃ u, run step s pre = some u := by
  obtain ⟨post, rfl⟩ := hp
  obtain ⟨u, hu, -⟩ := run_append_eq_some.mp h
  exact ⟨u, hu⟩

/-- Events that say more than the machine looks at. -/
theorem run_map {δ : Type*} (step : σ → ε → Option σ) (f : δ → ε) (s : σ) (ds : List δ) :
    run (fun s d => step s (f d)) s ds = run step s (ds.map f) := by
  induction ds generalizing s with
  | nil => rfl
  | cons d ds ih =>
    simp only [List.map_cons, run_cons]
    exact congrArg _ (funext ih)

/-- Some events lead from `s` to `t`. -/
def Reaches (step : σ → ε → Option σ) (s t : σ) : Prop := ∃ es, run step s es = some t

theorem Reaches.refl (step : σ → ε → Option σ) (s : σ) : Reaches step s s := ⟨[], rfl⟩

theorem Reaches.step {step : σ → ε → Option σ} {s t : σ} {e : ε} (h : step s e = some t) :
    Reaches step s t := ⟨[e], by rw [run_cons, h]; rfl⟩

theorem Reaches.trans {step : σ → ε → Option σ} {s t u : σ} (h : Reaches step s t)
    (h' : Reaches step t u) : Reaches step s u := by
  obtain ⟨es, hes⟩ := h
  obtain ⟨es', hes'⟩ := h'
  exact ⟨es ++ es', run_append_eq_some.mpr ⟨t, hes, hes'⟩⟩

/-- The induction rule: what holds of the empty history and survives every
possible last step holds after every run. -/
theorem run_invariant {step : σ → ε → Option σ} {s : σ} {I : List ε → σ → Prop}
    (init : I [] s)
    (last : ∀ es u e t, run step s es = some u → step u e = some t → I es u → I (es ++ [e]) t)
    {es : List ε} {t : σ} (h : run step s es = some t) : I es t := by
  induction es using List.reverseRecOn generalizing t with
  | nil =>
    cases h
    exact init
  | append_singleton es e ih =>
    obtain ⟨u, hu, ht⟩ := run_concat_eq_some.mp h
    exact last es u e t hu ht (ih hu)

end PartialRun
