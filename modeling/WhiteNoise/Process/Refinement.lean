import WhiteNoise.Process.Pool

/-! # Refinement of step machines

A machine refines another one if each of its steps is answered by steps of the
other machine with the same visible outputs. Runs are then answered by runs, so
what holds after every run of the other machine holds of the refined one. A part of
a machine is the special case in which the events of the whole say what the part does.
-/

namespace WhiteNoise.Process

section

variable {σ ε ω : Type}

/-- A run with some events, by what came out of it. -/
inductive Steps (step : σ → ε → Option (σ × List ω)) (s : σ) : List ω → σ → Prop
  | refl : Steps step s [] s
  | tail {os o : List ω} {s' s'' : σ} {e : ε} (h : Steps step s os s')
      (he : step s' e = some (s'', o)) : Steps step s (os ++ o) s''

variable {step : σ → ε → Option (σ × List ω)} {s s' s'' : σ} {os os' : List ω}

theorem Steps.single {e : ε} (h : step s e = some (s', os)) : Steps step s os s' :=
  .tail .refl h

theorem Steps.trans (h : Steps step s os s') (h' : Steps step s' os' s'') :
    Steps step s (os ++ os') s'' := by
  induction h' with
  | refl =>
    rw [List.append_nil]
    exact h
  | tail _ he ih =>
    rw [← List.append_assoc]
    exact .tail ih he

theorem steps_iff : Steps step s os s' ↔ ∃ es, run step s es = some (s', os) := by
  constructor
  · intro h
    induction h with
    | refl => exact ⟨[], rfl⟩
    | tail _ he ih =>
      obtain ⟨es, hes⟩ := ih
      exact ⟨es ++ [_], run_concat_iff.mpr ⟨_, _, _, hes, he, rfl⟩⟩
  · rintro ⟨es, h⟩
    exact run_induction (P := fun _ t os => Steps step s os t) .refl
      (fun _ _ _ _ _ _ ht he => .tail ht he) h

end

section

variable {σ τ ε φ ω ω' : Type} {step : σ → ε → Option (σ × List ω)}
  {step' : τ → φ → Option (τ × List ω')} {view : ω → Option ω'} {R : σ → τ → Prop}

/-- Each step between related states is answered by steps with the outputs that `view` shows. -/
def Refines (step : σ → ε → Option (σ × List ω)) (step' : τ → φ → Option (τ × List ω'))
    (view : ω → Option ω') (R : σ → τ → Prop) : Prop :=
  ∀ {s : σ} {t : τ} {e : ε} {s' : σ} {o : List ω}, R s t → step s e = some (s', o) →
    ∃ t', Steps step' t (o.filterMap view) t' ∧ R s' t'

variable {s s' : σ} {t : τ} {es : List ε} {os : List ω}

theorem Refines.steps (href : Refines step step' view R) (hR : R s t) (h : Steps step s os s') :
    ∃ t', Steps step' t (os.filterMap view) t' ∧ R s' t' := by
  induction h with
  | refl => exact ⟨t, .refl, hR⟩
  | tail _ he ih =>
    obtain ⟨t', ht, hR'⟩ := ih
    obtain ⟨t'', ht', hR''⟩ := href hR' he
    rw [List.filterMap_append]
    exact ⟨t'', ht.trans ht', hR''⟩

theorem Refines.run (href : Refines step step' view R) (hR : R s t)
    (h : run step s es = some (s', os)) :
    ∃ fs t', Process.run step' t fs = some (t', os.filterMap view) ∧ R s' t' := by
  obtain ⟨t', ht, hR'⟩ := href.steps hR (steps_iff.mpr ⟨es, h⟩)
  obtain ⟨fs, hfs⟩ := steps_iff.mp ht
  exact ⟨fs, t', hfs, hR'⟩

end

/-! ## Parts of a machine -/

section

variable {σ τ ε φ ω ω' : Type}

/-- The state of the whole has a state of the part in it. An event of the whole is one of the part,
or it leaves the part alone. -/
structure IsPart (step : σ → ε → Option (σ × List ω)) (step' : τ → φ → Option (τ × List ω'))
    (part : σ → τ) (event : ε → Option φ) (view : ω → Option ω') : Prop where
  idle : ∀ {s e s' o}, event e = none → step s e = some (s', o) →
    part s' = part s ∧ o.filterMap view = []
  acts : ∀ {s e s' o f}, event e = some f → step s e = some (s', o) →
    step' (part s) f = some (part s', o.filterMap view)

variable {step : σ → ε → Option (σ × List ω)} {step' : τ → φ → Option (τ × List ω')}
  {part : σ → τ} {event : ε → Option φ} {view : ω → Option ω'} {s s' : σ} {es : List ε}
  {os : List ω}

/-- A run of the whole is a run of the part. -/
theorem IsPart.run (h : IsPart step step' part event view) (hr : run step s es = some (s', os)) :
    Process.run step' (part s) (es.filterMap event) = some (part s', os.filterMap view) := by
  refine run_induction (P := fun es t os =>
    Process.run step' (part s) (es.filterMap event) = some (part t, os.filterMap view)) rfl ?_ hr
  intro es t os e t' o ih hs
  rw [List.filterMap_append, List.filterMap_append]
  cases he : event e with
  | none =>
    obtain ⟨hpart, ho⟩ := h.idle he hs
    rw [List.filterMap_cons_none he, List.filterMap_nil, List.append_nil, hpart, ho, ih,
      List.append_nil]
  | some f =>
    rw [List.filterMap_cons_some he, List.filterMap_nil]
    exact run_concat_iff.mpr ⟨_, _, _, ih, h.acts he hs, rfl⟩

/-- What the events of the whole meet, those of the part meet. -/
theorem IsPart.meets (h : IsPart step step' part event view) {C : σ → ε → Prop}
    {C' : τ → φ → Prop} (hC : ∀ {s e f}, event e = some f → C s e → C' (part s) f)
    (hr : Process.run step s es = some (s', os)) (hm : Meets C step s es) :
    Meets C' step' (part s) (es.filterMap event) := by
  intro pre' f post' t o' hsplit hpre
  obtain ⟨pre, rest, rfl, rfl, hrest⟩ := List.filterMap_eq_append_iff.mp hsplit
  obtain ⟨skip, e, post, rfl, hskip, he, -⟩ := List.filterMap_eq_cons_iff.mp hrest
  rw [← List.append_assoc] at hr
  obtain ⟨s₁, o₁, -, hs₁, -, -⟩ := run_append_iff.mp hr
  have hnone : skip.filterMap event = [] := List.filterMap_eq_nil_iff.mpr hskip
  have hpart := h.run hs₁
  rw [List.filterMap_append, hnone, List.append_nil, hpre] at hpart
  obtain ⟨rfl, -⟩ := Prod.mk.inj (Option.some.inj hpart)
  exact hC he (hm (pre ++ skip) e post s₁ o₁ (by simp) hs₁)

end

end WhiteNoise.Process
