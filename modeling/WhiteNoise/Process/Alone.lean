import WhiteNoise.Process.Pool

/-! # A program alone

The operations of one program, all of them, with no other task in between. A
choice is used for each request. Operations that run one after another are
folds of this.
-/

namespace WhiteNoise.Process

variable {S A T C ω α β : Type} {R : A → Type}

namespace Semantics

variable (sem : Semantics S R T C ω)

/-- Perform all operations of the program. The answer is `none` after a failing unwrap; a request
that blocks and choices that do not fit refuse. -/
def exec : Prog S R α → List C → S → Option (Reply S T ω (Option α))
  | .ret a, [], s => some ⟨some a, s, [], []⟩
  | .ret _, _ :: _, _ => none
  | .fail, [], s => some ⟨none, s, [], []⟩
  | .fail, _ :: _, _ => none
  | .atomic f k, cs, s => exec (k s) cs (f s)
  | .act _ _, [], _ => none
  | .act a k, c :: cs, s =>
    match sem.reply a c s with
    | none => none
    | some x =>
      match exec (k x.answer) cs x.state with
      | none => none
      | some r => some ⟨r.answer, r.state, x.outputs ++ r.outputs, x.spawned ++ r.spawned⟩

variable {sem} {s : S} {cs : List C} {r : Reply S T ω (Option α)}

theorem exec_ret_iff {a : α} :
    sem.exec (.ret a) cs s = some r ↔ cs = [] ∧ r = ⟨some a, s, [], []⟩ := by
  cases cs with
  | nil => simp [exec, eq_comm]
  | cons c cs => simp [exec]

theorem exec_fail_iff :
    sem.exec (.fail : Prog S R α) cs s = some r ↔ cs = [] ∧ r = ⟨none, s, [], []⟩ := by
  cases cs with
  | nil => simp [exec, eq_comm]
  | cons c cs => simp [exec]

@[simp] theorem exec_atomic (f : S → S) (k : S → Prog S R α) :
    sem.exec (.atomic f k) cs s = sem.exec (k s) cs (f s) := by
  cases cs <;> rfl

theorem exec_act_iff {a : A} {k : R a → Prog S R α} :
    sem.exec (.act a k) cs s = some r ↔
      ∃ c cs' x r', cs = c :: cs' ∧ sem.reply a c s = some x ∧
        sem.exec (k x.answer) cs' x.state = some r' ∧
        r = ⟨r'.answer, r'.state, x.outputs ++ r'.outputs, x.spawned ++ r'.spawned⟩ := by
  cases cs with
  | nil => simp [exec]
  | cons c cs =>
    rw [exec]
    constructor
    · intro h
      split at h
      · cases h
      · next x hx =>
        split at h
        · cases h
        · next r' hr' => exact ⟨c, cs, x, r', rfl, hx, hr', (Option.some.inj h).symm⟩
    · rintro ⟨c', cs', x, r', heq, hx, hr', rfl⟩
      obtain ⟨rfl, rfl⟩ := List.cons.inj heq
      simp only [hx, hr']

/-- A sequence stops in its first part, or both parts run. -/
theorem exec_bind_iff {p : Prog S R α} {g : α → Prog S R β} {r : Reply S T ω (Option β)} :
    sem.exec (p >>= g) cs s = some r ↔
      (∃ r₁, sem.exec p cs s = some r₁ ∧ r₁.answer = none ∧
        r = ⟨none, r₁.state, r₁.outputs, r₁.spawned⟩) ∨
      ∃ cs₁ cs₂ r₁ a r₂, cs = cs₁ ++ cs₂ ∧ sem.exec p cs₁ s = some r₁ ∧ r₁.answer = some a ∧
        sem.exec (g a) cs₂ r₁.state = some r₂ ∧
        r = ⟨r₂.answer, r₂.state, r₁.outputs ++ r₂.outputs, r₁.spawned ++ r₂.spawned⟩ := by
  induction p generalizing cs s r with
  | ret a =>
    rw [Prog.ret_bind]
    constructor
    · intro h
      exact Or.inr ⟨[], cs, ⟨some a, s, [], []⟩, a, r, rfl, rfl, rfl, h, rfl⟩
    · rintro (⟨r₁, h, hn, -⟩ | ⟨cs₁, cs₂, r₁, b, r₂, rfl, h, hb, h₂, rfl⟩)
      · obtain ⟨-, rfl⟩ := exec_ret_iff.mp h
        cases hn
      · obtain ⟨rfl, rfl⟩ := exec_ret_iff.mp h
        cases hb
        exact h₂
  | fail =>
    rw [Prog.fail_bind, exec_fail_iff]
    constructor
    · rintro ⟨rfl, rfl⟩
      exact Or.inl ⟨⟨none, s, [], []⟩, rfl, rfl, rfl⟩
    · rintro (⟨r₁, h, -, rfl⟩ | ⟨cs₁, cs₂, r₁, b, r₂, rfl, h, hb, -⟩)
      · obtain ⟨rfl, rfl⟩ := exec_fail_iff.mp h
        exact ⟨rfl, rfl⟩
      · obtain ⟨-, rfl⟩ := exec_fail_iff.mp h
        cases hb
  | atomic f k ih => simpa only [Prog.atomic_bind, exec_atomic] using ih s
  | act a k ih =>
    simp only [Prog.act_bind, exec_act_iff, ih]
    constructor
    · rintro ⟨c, cs', x, r', rfl, hx, h | ⟨cs₁, cs₂, r₁, b, r₂, rfl, h₁, hb, h₂, rfl⟩, rfl⟩
      · obtain ⟨r₁, h₁, hn, rfl⟩ := h
        exact Or.inl ⟨_, ⟨c, cs', x, r₁, rfl, hx, h₁, rfl⟩, hn, rfl⟩
      · exact Or.inr ⟨c :: cs₁, cs₂, _, b, r₂, rfl, ⟨c, cs₁, x, r₁, rfl, hx, h₁, rfl⟩, hb, h₂,
          by simp⟩
    · rintro (⟨r₁, ⟨c, cs', x, r', rfl, hx, h₁, rfl⟩, hn, rfl⟩ |
        ⟨cs₁, cs₂, r₁, b, r₂, rfl, ⟨c, cs', x, r', rfl, hx, h₁, rfl⟩, hb, h₂, rfl⟩)
      · exact ⟨c, cs', x, _, rfl, hx, Or.inl ⟨r', h₁, hn, rfl⟩, rfl⟩
      · exact ⟨c, cs' ++ cs₂, x, _, rfl, hx, Or.inr ⟨cs', cs₂, r', b, r₂, rfl, h₁, hb, h₂, rfl⟩,
          by simp⟩

/-- A result that is only passed on changes nothing. -/
theorem exec_bind_ret {p : Prog S R α} {g : α → β} {r : Reply S T ω (Option β)}
    (h : sem.exec (p >>= fun a => .ret (g a)) cs s = some r) :
    ∃ r₁, sem.exec p cs s = some r₁ ∧ r = ⟨r₁.answer.map g, r₁.state, r₁.outputs, r₁.spawned⟩ := by
  rcases exec_bind_iff.mp h with ⟨r₁, h₁, hn, rfl⟩ | ⟨cs₁, cs₂, r₁, a, r₂, rfl, h₁, ha, h₂, rfl⟩
  · exact ⟨r₁, h₁, by rw [hn]; rfl⟩
  · obtain ⟨rfl, rfl⟩ := exec_ret_iff.mp h₂
    exact ⟨r₁, by rwa [List.append_nil], by simp [ha]⟩

/-- A request alone. -/
theorem exec_call_iff {a : A} {r : Reply S T ω (Option (R a))} :
    sem.exec (Prog.call a) cs s = some r ↔
      ∃ c x, cs = [c] ∧ sem.reply a c s = some x ∧
        r = ⟨some x.answer, x.state, x.outputs, x.spawned⟩ := by
  simp only [Prog.call, exec_act_iff, exec_ret_iff]
  constructor
  · rintro ⟨c, cs', x, r', rfl, hx, ⟨rfl, rfl⟩, rfl⟩
    exact ⟨c, x, rfl, hx, by simp⟩
  · rintro ⟨c, x, rfl, hx, rfl⟩
    exact ⟨c, [], x, _, rfl, hx, ⟨rfl, rfl⟩, by simp⟩

/-- A program whose requests can all be answered runs to its end. -/
theorem exec_total {U : (S → S) → Prop} {V : A → Prop} {Q : α → Prop}
    (hV : ∀ a, V a → ∀ s, ∃ c x, sem.reply a c s = some x) {p : Prog S R α}
    (hp : p.Within U V Q) (s : S) : ∃ cs r, sem.exec p cs s = some r := by
  induction p generalizing s with
  | ret a => exact ⟨[], _, rfl⟩
  | fail => exact ⟨[], _, rfl⟩
  | atomic f k ih =>
    obtain ⟨cs, r, h⟩ := ih s (hp.2 s) (f s)
    exact ⟨cs, r, by rwa [exec_atomic]⟩
  | act a k ih =>
    obtain ⟨c, x, hx⟩ := hV a hp.1 s
    obtain ⟨cs, r, h⟩ := ih x.answer (hp.2 _) x.state
    exact ⟨c :: cs, _, exec_act_iff.mpr ⟨c, cs, x, r, rfl, hx, h, rfl⟩⟩

/-- What the updates and the requests of a program keep, the program keeps. -/
theorem exec_within {U : (S → S) → Prop} {V : A → Prop} {Q : α → Prop} {I : S → Prop}
    {O : ω → Prop} {P : T → Prop} (hU : ∀ f, U f → ∀ s, I s → I (f s))
    (hV : ∀ a, V a → ∀ c s x, sem.reply a c s = some x → I s →
      I x.state ∧ (∀ o ∈ x.outputs, O o) ∧ ∀ t ∈ x.spawned, P t)
    {p : Prog S R α} (hp : p.Within U V Q) (hs : I s) (h : sem.exec p cs s = some r) :
    I r.state ∧ (∀ o ∈ r.outputs, O o) ∧ (∀ t ∈ r.spawned, P t) ∧
      ∀ a, r.answer = some a → Q a := by
  induction p generalizing s cs r with
  | ret a =>
    obtain ⟨-, rfl⟩ := exec_ret_iff.mp h
    refine ⟨hs, by simp, by simp, ?_⟩
    rintro b ⟨⟩
    exact hp
  | fail =>
    obtain ⟨-, rfl⟩ := exec_fail_iff.mp h
    exact ⟨hs, by simp, by simp, by simp⟩
  | atomic f k ih =>
    rw [exec_atomic] at h
    exact ih s (hp.2 s) (hU f hp.1 s hs) h
  | act a k ih =>
    obtain ⟨c, cs', x, r', rfl, hx, hr, rfl⟩ := exec_act_iff.mp h
    obtain ⟨hs', ho, ht⟩ := hV a hp.1 c s x hx hs
    obtain ⟨hi, ho', ht', ha⟩ := ih x.answer (hp.2 _) hs' hr
    refine ⟨hi, ?_, ?_, ha⟩
    · intro o hmem
      rcases List.mem_append.mp hmem with hmem | hmem
      · exact ho o hmem
      · exact ho' o hmem
    · intro t hmem
      rcases List.mem_append.mp hmem with hmem | hmem
      · exact ht t hmem
      · exact ht' t hmem

end Semantics

end WhiteNoise.Process
