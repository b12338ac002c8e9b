import WhiteNoise.Process.Program
import Mathlib.Data.List.Induction

/-! # Pools of threads

Threads share one state and take turns, one operation at a time. A schedule is
a list of events; a run is the partial fold of a step function over it. Facts
that every event preserves hold after every run.
-/

namespace WhiteNoise.Process

section Run

variable {σ ε ω : Type}

/-- Run the events in order and collect the outputs. A refused event refuses the run. -/
def run (step : σ → ε → Option (σ × List ω)) : σ → List ε → Option (σ × List ω)
  | s, [] => some (s, [])
  | s, e :: es =>
    match step s e with
    | none => none
    | some (s', o) =>
      match run step s' es with
      | none => none
      | some (s'', o') => some (s'', o ++ o')

variable {step : σ → ε → Option (σ × List ω)}

@[simp] theorem run_nil (s : σ) : run step s [] = some (s, []) := rfl

theorem run_cons_iff {s s'' : σ} {e : ε} {es : List ε} {os : List ω} :
    run step s (e :: es) = some (s'', os) ↔
      ∃ s' o o', step s e = some (s', o) ∧ run step s' es = some (s'', o') ∧ os = o ++ o' := by
  rw [run]
  cases hs : step s e with
  | none => simp
  | some p =>
    obtain ⟨s', o⟩ := p
    dsimp only
    cases hr : run step s' es with
    | none =>
      simp only [reduceCtorEq, false_iff, not_exists, not_and]
      rintro t a b h ht
      obtain ⟨rfl, rfl⟩ := Prod.mk.inj (Option.some.inj h)
      simp [hr] at ht
    | some q =>
      obtain ⟨t, o'⟩ := q
      constructor
      · intro h
        obtain ⟨rfl, rfl⟩ := Prod.mk.inj (Option.some.inj h)
        exact ⟨s', o, o', rfl, hr, rfl⟩
      · rintro ⟨u, a, b, h, ht, rfl⟩
        obtain ⟨rfl, rfl⟩ := Prod.mk.inj (Option.some.inj h)
        obtain ⟨rfl, rfl⟩ := Prod.mk.inj (Option.some.inj (hr.symm.trans ht))
        rfl

theorem run_append_iff {s s'' : σ} {es es' : List ε} {os : List ω} :
    run step s (es ++ es') = some (s'', os) ↔
      ∃ s' o o', run step s es = some (s', o) ∧ run step s' es' = some (s'', o') ∧
        os = o ++ o' := by
  induction es generalizing s os with
  | nil => simp
  | cons e es ih =>
    simp only [List.cons_append, run_cons_iff, ih]
    constructor
    · rintro ⟨t, o, o', ht, ⟨u, p, p', hu, hr, rfl⟩, rfl⟩
      exact ⟨u, o ++ p, p', ⟨t, o, p, ht, hu, rfl⟩, hr, (List.append_assoc ..).symm⟩
    · rintro ⟨u, a, p', ⟨t, o, p, ht, hu, rfl⟩, hr, rfl⟩
      exact ⟨t, o, p ++ p', ht, ⟨u, p, p', hu, hr, rfl⟩, List.append_assoc ..⟩

theorem run_concat_iff {s s'' : σ} {es : List ε} {e : ε} {os : List ω} :
    run step s (es ++ [e]) = some (s'', os) ↔
      ∃ s' o o', run step s es = some (s', o) ∧ step s' e = some (s'', o') ∧
        os = o ++ o' := by
  simp only [run_append_iff, run_cons_iff, run_nil, Option.some.injEq, Prod.mk.injEq]
  constructor
  · rintro ⟨t, o, _, ht, ⟨u, p, _, hu, ⟨rfl, rfl⟩, rfl⟩, rfl⟩
    exact ⟨t, o, p, ht, hu, by simp⟩
  · rintro ⟨t, o, p, ht, hu, rfl⟩
    exact ⟨t, o, p, ht, ⟨s'', p, [], hu, ⟨rfl, rfl⟩, by simp⟩, rfl⟩

/-- Evaluate a run by a test of its result. -/
theorem exists_run (step : σ → ε → Option (σ × List ω)) (s : σ) (es : List ε)
    (P : σ × List ω → Bool) (h : (run step s es).any P) :
    ∃ s' os, run step s es = some (s', os) ∧ P (s', os) := by
  cases hr : run step s es with
  | none => simp [hr] at h
  | some r => exact ⟨r.1, r.2, rfl, by simpa [hr] using h⟩

/-- A fact about the events so far, the state and the outputs so far that every event
preserves holds after every run. -/
theorem run_induction {P : List ε → σ → List ω → Prop} {s : σ} (h₀ : P [] s [])
    (hs : ∀ es t os e t' o, P es t os → step t e = some (t', o) → P (es ++ [e]) t' (os ++ o))
    {es : List ε} {s' : σ} {os : List ω} (h : run step s es = some (s', os)) :
    P es s' os := by
  induction es using List.reverseRecOn generalizing s' os with
  | nil =>
    obtain ⟨rfl, rfl⟩ := Prod.mk.inj (Option.some.inj h)
    exact h₀
  | append_singleton es e ih =>
    obtain ⟨t, o, o', ht, he, rfl⟩ := run_concat_iff.mp h
    exact hs _ _ _ _ _ _ (ih ht) he

/-- Every event of the run meets the condition in the state it happens in. -/
def Meets (C : σ → ε → Prop) (step : σ → ε → Option (σ × List ω)) (s : σ) (es : List ε) : Prop :=
  ∀ pre e post s' os, es = pre ++ e :: post → run step s pre = some (s', os) → C s' e

theorem Meets.of_concat {C : σ → ε → Prop} {s : σ} {es : List ε} {e : ε}
    (h : Meets C step s (es ++ [e])) : Meets C step s es := by
  rintro pre e' post s' os rfl hr
  exact h pre e' (post ++ [e]) s' os (by simp) hr

theorem Meets.nil {C : σ → ε → Prop} {s : σ} : Meets C step s [] := by
  intro pre e post s' os he
  cases pre <;> cases he

theorem Meets.cons {C : σ → ε → Prop} {s : σ} {e : ε} {es : List ε} (hC : C s e)
    (hs : ∀ s' o, step s e = some (s', o) → Meets C step s' es) : Meets C step s (e :: es) := by
  intro pre e' post s' os he hr
  cases pre with
  | nil =>
    cases he
    obtain ⟨rfl, -⟩ := Prod.mk.inj (Option.some.inj hr)
    exact hC
  | cons d pre =>
    cases he
    obtain ⟨t, o, o', hstep, hrun, -⟩ := run_cons_iff.mp hr
    exact hs t o hstep pre e' post s' o' rfl hrun

/-- Test the condition along a run. -/
def meets (C : σ → ε → Prop) [∀ s e, Decidable (C s e)] (step : σ → ε → Option (σ × List ω)) :
    σ → List ε → Bool
  | _, [] => true
  | s, e :: es =>
    decide (C s e) &&
      match step s e with
      | none => true
      | some (s', _) => meets C step s' es

theorem Meets.of_meets {C : σ → ε → Prop} [∀ s e, Decidable (C s e)] {s : σ} {es : List ε}
    (h : meets C step s es) : Meets C step s es := by
  induction es generalizing s with
  | nil => exact .nil
  | cons e es ih =>
    simp only [meets, Bool.and_eq_true, decide_eq_true_eq] at h
    obtain ⟨he, hrest⟩ := h
    refine .cons he fun s' o hs => ih ?_
    rwa [hs] at hrest

/-- Run induction over the runs whose events meet a condition. -/
theorem run_induction_meets {C : σ → ε → Prop} {P : List ε → σ → List ω → Prop} {s : σ}
    (h₀ : P [] s [])
    (hs : ∀ es t os e t' o, P es t os → C t e → step t e = some (t', o) →
      P (es ++ [e]) t' (os ++ o))
    {es : List ε} {s' : σ} {os : List ω} (hC : Meets C step s es)
    (h : run step s es = some (s', os)) : P es s' os := by
  induction es using List.reverseRecOn generalizing s' os with
  | nil =>
    obtain ⟨rfl, rfl⟩ := Prod.mk.inj (Option.some.inj h)
    exact h₀
  | append_singleton es e ih =>
    obtain ⟨t, o, o', ht, he, rfl⟩ := run_concat_iff.mp h
    exact hs _ _ _ _ _ _ (ih hC.of_concat ht) (hC es e [] t o rfl ht) he

/-- The number of events of the run that pass the test in the state they happen in. -/
def tally (f : σ → ε → Bool) (step : σ → ε → Option (σ × List ω)) : σ → List ε → ℕ
  | _, [] => 0
  | s, e :: es =>
    (f s e).toNat +
      match step s e with
      | none => 0
      | some (s', _) => tally f step s' es

theorem tally_concat {f : σ → ε → Bool} {s s' : σ} {es : List ε} {e : ε} {os : List ω}
    (h : run step s es = some (s', os)) :
    tally f step s (es ++ [e]) = tally f step s es + (f s' e).toNat := by
  induction es generalizing s os with
  | nil =>
    obtain ⟨rfl, -⟩ := Prod.mk.inj (Option.some.inj h)
    simp only [List.nil_append, tally]
    cases step s e <;> simp
  | cons d es ih =>
    obtain ⟨t, o, o', hd, hr, -⟩ := run_cons_iff.mp h
    simp only [List.cons_append, tally, hd, ih hr, Nat.add_assoc]

/-- An invariant of the state is kept by every run. -/
theorem run_invariant {I : σ → Prop}
    (hs : ∀ s e s' o, I s → step s e = some (s', o) → I s')
    {s s' : σ} {es : List ε} {os : List ω} (h₀ : I s)
    (h : run step s es = some (s', os)) : I s' :=
  run_induction (P := fun _ t _ => I t) h₀
    (fun _ _ _ _ _ _ hi he => hs _ _ _ _ hi he) h

end Run

/-- What the environment gives back for one operation. -/
structure Reply (S T ω ρ : Type) where
  answer : ρ
  state : S
  outputs : List ω
  spawned : List T

variable {S A T C ω : Type} {R : A → Type}

/-- How the environment answers requests, a choice `C` resolving what is not determined,
and the bodies of the named tasks. A finished thread may continue as a named task. -/
structure Semantics (S : Type) {A : Type} (R : A → Type) (T C ω : Type) where
  reply : (a : A) → C → S → Option (Reply S T ω (R a))
  body : T → Prog S R (Option T)

/-- Threads over one shared state. -/
structure Pool (S : Type) {A : Type} (R : A → Type) (T : Type) where
  state : S
  threads : List (Prog S R (Option T))

namespace Semantics

variable (sem : Semantics S R T C ω)

/-- The next operation of one thread. A finished, failed or blocked thread has none. -/
def advance (c : C) (s : S) :
    Prog S R (Option T) → Option (Reply S T ω (Prog S R (Option T)))
  | .ret none => none
  | .ret (some t) => some ⟨sem.body t, s, [], []⟩
  | .fail => none
  | .atomic f k => some ⟨k s, f s, [], []⟩
  | .act a k =>
    match sem.reply a c s with
    | none => none
    | some r => some ⟨k r.answer, r.state, r.outputs, r.spawned⟩

/-- Thread `i` performs its next operation. -/
def step (p : Pool S R T) (i : ℕ) (c : C) : Option (Pool S R T × List ω) :=
  match p.threads[i]? with
  | none => none
  | some t =>
    match sem.advance c p.state t with
    | none => none
    | some r => some (⟨r.state, p.threads.set i r.answer ++ r.spawned.map sem.body⟩, r.outputs)

theorem step_eq_some {p p' : Pool S R T} {i : ℕ} {c : C} {o : List ω}
    (h : sem.step p i c = some (p', o)) :
    ∃ t r, p.threads[i]? = some t ∧ sem.advance c p.state t = some r ∧
      p'.state = r.state ∧ p'.threads = p.threads.set i r.answer ++ r.spawned.map sem.body ∧
      o = r.outputs := by
  unfold step at h
  split at h
  · cases h
  · next t ht =>
    split at h
    · cases h
    · next r hr =>
      obtain ⟨rfl, rfl⟩ := Prod.mk.inj (Option.some.inj h)
      exact ⟨t, r, ht, hr, rfl, rfl, rfl⟩

/-- One entry of a schedule: a thread and the choice that resolves its operation. -/
def turn (p : Pool S R T) (e : ℕ × C) : Option (Pool S R T × List ω) := sem.step p e.1 e.2

end Semantics

/-- Whether a thread has returned for good. -/
def Prog.isDone : Prog S R (Option T) → Bool
  | .ret none => true
  | _ => false

theorem Prog.isDone_iff {t : Prog S R (Option T)} : t.isDone ↔ t = .ret none := by
  cases t with
  | ret a => cases a <;> simp [isDone]
  | _ => simp [isDone]

/-- Whether every thread has returned. -/
def Pool.finished (p : Pool S R T) : Bool := p.threads.all Prog.isDone

theorem Pool.finished_iff {p : Pool S R T} : p.finished ↔ ∀ t ∈ p.threads, t = .ret none := by
  simp only [finished, List.all_eq_true, Prog.isDone_iff]

/-- Whether a thread has returned for good or failed. -/
def Prog.isEnded : Prog S R (Option T) → Bool
  | .ret none => true
  | .fail => true
  | _ => false

/-! ## One thread alone -/

namespace Semantics

variable {sem : Semantics S R T C ω} {s : S} {t : Prog S R (Option T)} {p : Pool S R T}
  {sched : List (ℕ × C)} {os : List ω}

theorem advance_act {a : A} {k : R a → Prog S R (Option T)} {c : C}
    {r : Reply S T ω (Prog S R (Option T))} (h : sem.advance c s (.act a k) = some r) :
    ∃ x, sem.reply a c s = some x ∧ r = ⟨k x.answer, x.state, x.outputs, x.spawned⟩ := by
  simp only [advance] at h
  split at h
  · cases h
  · next x hx => exact ⟨x, hx, (Option.some.inj h).symm⟩

theorem advance_isEnded (h : t.isEnded) (c : C) : sem.advance c s t = none := by
  cases t with
  | ret a =>
    cases a with
    | none => rfl
    | some _ => cases h
  | fail => rfl
  | atomic => cases h
  | act => cases h

/-- A thread that has ended stays where it is. -/
theorem run_alone_ended (h : run sem.turn ⟨s, [t]⟩ sched = some (p, os)) (ht : t.isEnded) :
    p = ⟨s, [t]⟩ := by
  cases sched with
  | nil =>
    obtain ⟨rfl, -⟩ := Prod.mk.inj (Option.some.inj h)
    rfl
  | cons e sched =>
    obtain ⟨p', o, o', hstep, -⟩ := run_cons_iff.mp h
    obtain ⟨u, r, hu, hr, -⟩ := sem.step_eq_some hstep
    obtain ⟨-, rfl⟩ : e.1 = 0 ∧ t = u := by
      rw [List.getElem?_singleton] at hu
      split at hu
      · next h0 => exact ⟨h0, Option.some.inj hu⟩
      · cases hu
    rw [advance_isEnded ht] at hr
    cases hr

/-- A thread that has not ended performs its next operation, if it spawns nothing. -/
theorem run_alone (h : run sem.turn ⟨s, [t]⟩ sched = some (p, os)) (hp : p.threads.all Prog.isEnded)
    (ht : t.isEnded = false) (hs : ∀ c r, sem.advance c s t = some r → r.spawned = []) :
    ∃ c sched' r os', sched = (0, c) :: sched' ∧ sem.advance c s t = some r ∧
      run sem.turn ⟨r.state, [r.answer]⟩ sched' = some (p, os') := by
  cases sched with
  | nil =>
    obtain ⟨rfl, -⟩ := Prod.mk.inj (Option.some.inj h)
    simp [ht] at hp
  | cons e sched =>
    obtain ⟨i, c⟩ := e
    obtain ⟨⟨s', l⟩, o, o', hstep, hrun, -⟩ := run_cons_iff.mp h
    obtain ⟨u, r, hu, hr, hs', hl, -⟩ := sem.step_eq_some hstep
    obtain ⟨rfl, rfl⟩ : i = 0 ∧ t = u := by
      rw [List.getElem?_singleton] at hu
      split at hu
      · next h0 => exact ⟨h0, Option.some.inj hu⟩
      · cases hu
    rw [hs c r hr] at hl
    simp only at hs' hl
    rw [hs', hl] at hrun
    exact ⟨c, sched, r, o', rfl, hr, hrun⟩

end Semantics

end WhiteNoise.Process
