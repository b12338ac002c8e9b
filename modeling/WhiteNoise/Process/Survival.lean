import WhiteNoise.Process.Pool

/-! # Programs that survive

A program survives if none of its unwraps fails while each of its operations
meets a condition on the state it is performed in and on the choice that
answers it. It makes certain requests only, so it is stuck at no other one. In
a pool the thread survives whatever the other threads do.
-/

namespace WhiteNoise.Process

variable {S A T C ω α β : Type} {R : A → Type}

/-- The requests that may be made, and a condition on the next operation of a program, the state
before it and the choice. A sequence meets the condition only if its first part does. -/
structure Proviso (S C : Type) {A : Type} (R : A → Type) where
  Asks : A → Prop
  Holds : {α : Type} → S → C → Prog S R α → Prop
  of_bind : ∀ {α β : Type} {s : S} {c : C} {p : Prog S R α} {g : α → Prog S R β},
    Holds s c (p >>= g) → Holds s c p

namespace Semantics

variable (sem : Semantics S R T C ω) (proviso : Proviso S C R)

/-- No unwrap of the program fails while its operations meet the proviso, and its result is
in `Q`. The state may be another one before each operation. -/
def Survives (Q : α → Prop) : Prog S R α → Prop
  | .ret a => Q a
  | .fail => False
  | .atomic f k => ∀ s c, proviso.Holds s c (.atomic f k) → Survives Q (k s)
  | .act a k => proviso.Asks a ∧ ∀ s c x, proviso.Holds s c (.act a k) →
    sem.reply a c s = some x → Survives Q (k x.answer)

variable {sem} {proviso} {Q Q' : α → Prop} {p : Prog S R α}

theorem Survives.mono (hQ : ∀ a, Q a → Q' a) (h : sem.Survives proviso Q p) :
    sem.Survives proviso Q' p := by
  induction p with
  | ret a => exact hQ a h
  | fail => exact h
  | atomic f k ih => exact fun s c hs => ih s (h s c hs)
  | act a k ih => exact ⟨h.1, fun s c x hs hx => ih x.answer (h.2 s c x hs hx)⟩

theorem Survives.bind {Q : β → Prop} {g : α → Prog S R β}
    (h : sem.Survives proviso (fun a => sem.Survives proviso Q (g a)) p) :
    sem.Survives proviso Q (p >>= g) := by
  induction p with
  | ret a => exact h
  | fail => exact h
  | atomic f k ih => exact fun s c hs => ih s (h s c (proviso.of_bind hs))
  | act a k ih => exact ⟨h.1, fun s c x hs hx => ih x.answer (h.2 s c x (proviso.of_bind hs) hx)⟩

/-- A program that survives under a weaker condition survives. -/
theorem Survives.of_holds {proviso' : Proviso S C R} (hasks : ∀ a, proviso.Asks a → proviso'.Asks a)
    (hholds : ∀ {γ : Type} s c (p : Prog S R γ), proviso'.Holds s c p → proviso.Holds s c p)
    (h : sem.Survives proviso Q p) : sem.Survives proviso' Q p := by
  induction p with
  | ret a => exact h
  | fail => exact h
  | atomic f k ih => exact fun s c hs => ih s (h s c (hholds s c _ hs))
  | act a k ih =>
    exact ⟨hasks a h.1, fun s c x hs hx => ih x.answer (h.2 s c x (hholds s c _ hs) hx)⟩

/-- The second part survives every result of the first one. -/
theorem Survives.seq {P : α → Prop} {Q : β → Prop} {g : α → Prog S R β}
    (hp : sem.Survives proviso P p) (hg : ∀ a, P a → sem.Survives proviso Q (g a)) :
    sem.Survives proviso Q (p >>= g) :=
  (hp.mono hg).bind

theorem Survives.read {g : S → β} : sem.Survives proviso (fun _ => True) (Prog.read g) :=
  fun _ _ _ => trivial

theorem Survives.update {f : S → S} {g : S → β} :
    sem.Survives proviso (fun _ => True) (Prog.update f g) := fun _ _ _ => trivial

theorem Survives.write {f : S → S} : sem.Survives proviso (fun _ => True) (Prog.write f) :=
  fun _ _ _ => trivial

theorem Survives.call {a : A} (h : proviso.Asks a) :
    sem.Survives proviso (fun _ => True) (Prog.call a) :=
  ⟨h, fun _ _ _ _ _ => trivial⟩

theorem Survives.unwrap {o : Option α} (h : o.isSome) :
    sem.Survives proviso (fun a => o = some a) (Prog.unwrap o) := by
  cases o with
  | none => cases h
  | some a => exact rfl

theorem Survives.ite {c : Prop} [Decidable c] {p q : Prog S R α}
    (hp : c → sem.Survives proviso Q p) (hq : ¬ c → sem.Survives proviso Q q) :
    sem.Survives proviso Q (if c then p else q) := by
  split
  · next h => exact hp h
  · next h => exact hq h

/-! ## In a pool -/

/-- Thread `i` survives, and a loop it comes back to as well. -/
def Alive (sem : Semantics S R T C ω) (proviso : Proviso S C R) (Q : Option T → Prop) (i : ℕ)
    (p : Pool S R T) : Prop :=
  ∃ t, p.threads[i]? = some t ∧ sem.Survives proviso Q t

variable {Q : Option T → Prop} {i j : ℕ} {c : C} {p p' : Pool S R T} {o : List ω}

theorem Alive.ne_fail (h : sem.Alive proviso Q i p) : p.threads[i]? ≠ some .fail := by
  rintro hf
  obtain ⟨t, ht, hs⟩ := h
  obtain rfl := Option.some.inj (ht.symm.trans hf)
  exact hs

theorem Survives.advance {t : Prog S R (Option T)} {s : S}
    {r : Reply S T ω (Prog S R (Option T))}
    (hbody : ∀ task, Q (some task) → sem.Survives proviso Q (sem.body task))
    (h : sem.Survives proviso Q t) (hc : proviso.Holds s c t)
    (hr : sem.advance c s t = some r) : sem.Survives proviso Q r.answer := by
  cases t with
  | ret a =>
    cases a with
    | none => cases hr
    | some task =>
      cases hr
      exact hbody task h
  | fail => cases hr
  | atomic f k =>
    cases hr
    exact h s c hc
  | act a k =>
    obtain ⟨x, hx, rfl⟩ := advance_act hr
    exact h.2 s c x hc hx

/-- A turn of any thread leaves the thread alive, if its own turns meet the proviso. -/
theorem Alive.step (hbody : ∀ task, Q (some task) → sem.Survives proviso Q (sem.body task))
    (h : sem.Alive proviso Q i p)
    (hc : j = i → ∀ t, p.threads[i]? = some t → proviso.Holds p.state c t)
    (hs : sem.step p j c = some (p', o)) : sem.Alive proviso Q i p' := by
  obtain ⟨t, ht, hsurv⟩ := h
  obtain ⟨u, r, hu, hr, -, hthreads, -⟩ := sem.step_eq_some hs
  have hlt : i < p.threads.length := (List.getElem?_eq_some_iff.mp ht).1
  have hget : p'.threads[i]? = (p.threads.set j r.answer)[i]? := by
    rw [hthreads, List.getElem?_append_left (by rwa [List.length_set])]
  by_cases hij : j = i
  · subst hij
    obtain rfl := Option.some.inj (ht.symm.trans hu)
    refine ⟨r.answer, ?_, hsurv.advance hbody (hc rfl t ht) hr⟩
    rw [hget, List.getElem?_set_self hlt]
  · refine ⟨t, ?_, hsurv⟩
    rw [hget, List.getElem?_set_ne hij, ht]

/-- More threads do not matter. -/
theorem Alive.append {ts : List (Prog S R (Option T))} (h : sem.Alive proviso Q i p)
    (hts : p'.threads = p.threads ++ ts) : sem.Alive proviso Q i p' := by
  obtain ⟨t, ht, hsurv⟩ := h
  refine ⟨t, ?_, hsurv⟩
  rw [hts, List.getElem?_append_left (List.getElem?_eq_some_iff.mp ht).1, ht]

end Semantics

end WhiteNoise.Process
