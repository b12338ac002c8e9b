import WhiteNoise.Process.Survival

/-! # A program among others

A program is run to its end while other tasks change the state between its
operations. The record of such a run lists what the program asked, with the
answers. What the others may do is a relation between the state after one
operation and the state before the next.
-/

namespace WhiteNoise.Process

variable {S A T C ω α β : Type} {R : A → Type}

/-- A run that has ended. The answer is `none` after a failing unwrap. -/
structure Record (S T ω : Type) {A : Type} (R : A → Type) (α : Type) where
  answer : Option α
  state : S
  asked : List (Sigma R)
  outputs : List ω
  spawned : List T

namespace Record

variable (r : Record S T ω R α)

/-- The record with an answered request before it. -/
def after (x : Sigma R) (os : List ω) (ts : List T) : Record S T ω R α :=
  { r with asked := x :: r.asked, outputs := os ++ r.outputs, spawned := ts ++ r.spawned }

variable {x : Sigma R} {os : List ω} {ts : List T}

@[simp] theorem answer_after : (r.after x os ts).answer = r.answer := rfl

@[simp] theorem state_after : (r.after x os ts).state = r.state := rfl

@[simp] theorem asked_after : (r.after x os ts).asked = x :: r.asked := rfl

@[simp] theorem outputs_after : (r.after x os ts).outputs = os ++ r.outputs := rfl

@[simp] theorem spawned_after : (r.after x os ts).spawned = ts ++ r.spawned := rfl

/-- The second record behind the first one, whose answer it has used. -/
def append (r' : Record S T ω R β) : Record S T ω R β :=
  ⟨r'.answer, r'.state, r.asked ++ r'.asked, r.outputs ++ r'.outputs, r.spawned ++ r'.spawned⟩

end Record

/-- Any request and any operation will do. -/
def Proviso.free : Proviso S C R := ⟨fun _ => True, fun _ _ _ => True, fun h => h⟩

namespace Semantics

variable (sem : Semantics S R T C ω)

/-- The record is that of a run of the program from the state. Each operation meets the proviso, and
before it the others have done what they may. -/
def Amid (rely : S → S → Prop) (proviso : Proviso S C R) :
    Prog S R α → S → Record S T ω R α → Prop
  | .ret a, s, r => r = ⟨some a, s, [], [], []⟩
  | .fail, s, r => r = ⟨none, s, [], [], []⟩
  | .atomic f k, s, r => ∃ s' c, rely s s' ∧ proviso.Holds s' c (.atomic f k) ∧
      Amid rely proviso (k s') (f s') r
  | .act a k, s, r => ∃ s' c x r', rely s s' ∧ proviso.Holds s' c (.act a k) ∧
      sem.reply a c s' = some x ∧ Amid rely proviso (k x.answer) x.state r' ∧
      r = r'.after ⟨a, x.answer⟩ x.outputs x.spawned

variable {sem} {rely rely' : S → S → Prop} {proviso proviso' : Proviso S C R}
  {p : Prog S R α} {s : S} {r : Record S T ω R α}

theorem Amid.mono (hrely : ∀ s s', rely s s' → rely' s s')
    (hholds : ∀ {γ : Type} s c (p : Prog S R γ), proviso.Holds s c p → proviso'.Holds s c p)
    (h : sem.Amid rely proviso p s r) : sem.Amid rely' proviso' p s r := by
  induction p generalizing s r with
  | ret a => exact h
  | fail => exact h
  | atomic f k ih =>
    obtain ⟨s', c, hs, hc, hk⟩ := h
    exact ⟨s', c, hrely s s' hs, hholds s' c _ hc, ih s' hk⟩
  | act a k ih =>
    obtain ⟨s', c, x, r', hs, hc, hx, hk, hr⟩ := h
    exact ⟨s', c, x, r', hrely s s' hs, hholds s' c _ hc, hx, ih x.answer hk, hr⟩

theorem Amid.unwrap {o : Option β} {k : β → Prog S R α}
    (h : sem.Amid rely proviso (Prog.unwrap o >>= k) s r) :
    (∃ a, o = some a ∧ sem.Amid rely proviso (k a) s r) ∨ o = none ∧ r = ⟨none, s, [], [], []⟩ := by
  cases o with
  | none => exact Or.inr ⟨rfl, h⟩
  | some a => exact Or.inl ⟨a, rfl, h⟩

/-- A sequence ends in its first part, or both parts are run. -/
theorem Amid.bind {g : α → Prog S R β} {r : Record S T ω R β}
    (h : sem.Amid rely proviso (p >>= g) s r) :
    (∃ r₁, sem.Amid rely proviso p s r₁ ∧ r₁.answer = none ∧
      r = ⟨none, r₁.state, r₁.asked, r₁.outputs, r₁.spawned⟩) ∨
    ∃ r₁ a r₂, sem.Amid rely proviso p s r₁ ∧ r₁.answer = some a ∧
      sem.Amid rely proviso (g a) r₁.state r₂ ∧ r = r₁.append r₂ := by
  induction p generalizing s r with
  | ret a => exact Or.inr ⟨_, a, r, rfl, rfl, h, rfl⟩
  | fail =>
    obtain rfl : r = _ := h
    exact Or.inl ⟨_, rfl, rfl, rfl⟩
  | atomic f k ih =>
    obtain ⟨s', c, hs, hc, hk⟩ := h
    have hc := proviso.of_bind (p := .atomic f k) (g := g) hc
    rcases ih s' hk with ⟨r₁, h₁, hn, hr⟩ | ⟨r₁, a, r₂, h₁, ha, h₂, hr⟩
    · exact Or.inl ⟨r₁, ⟨s', c, hs, hc, h₁⟩, hn, hr⟩
    · exact Or.inr ⟨r₁, a, r₂, ⟨s', c, hs, hc, h₁⟩, ha, h₂, hr⟩
  | act a k ih =>
    obtain ⟨s', c, x, r', hs, hc, hx, hk, rfl⟩ := h
    have hc := proviso.of_bind (p := .act a k) (g := g) hc
    rcases ih x.answer hk with ⟨r₁, h₁, hn, rfl⟩ | ⟨r₁, b, r₂, h₁, hb, h₂, rfl⟩
    · exact Or.inl ⟨_, ⟨s', c, x, r₁, hs, hc, hx, h₁, rfl⟩, hn, rfl⟩
    · refine Or.inr ⟨_, b, r₂, ⟨s', c, x, r₁, hs, hc, hx, h₁, rfl⟩, hb, h₂, ?_⟩
      simp [Record.append, Record.after]

/-- What no request of the program gives out, the program does not give out. -/
theorem Amid.outputs_within {U : (S → S) → Prop} {V : A → Prop} {Q : α → Prop} {P : ω → Prop}
    (hV : ∀ a, V a → ∀ c s x, sem.reply a c s = some x → ∀ o ∈ x.outputs, P o)
    (hp : p.Within U V Q) (h : sem.Amid rely proviso p s r) : ∀ o ∈ r.outputs, P o := by
  induction p generalizing s r with
  | ret a =>
    obtain rfl : r = _ := h
    simp
  | fail =>
    obtain rfl : r = _ := h
    simp
  | atomic f k ih =>
    obtain ⟨s', c, -, -, hk⟩ := h
    exact ih s' (hp.2 s') hk
  | act a k ih =>
    obtain ⟨s', c, x, r', -, -, hx, hk, rfl⟩ := h
    intro o ho
    rcases List.mem_append.mp ho with ho | ho
    · exact hV a hp.1 c s' x hx o ho
    · exact ih x.answer (hp.2 x.answer) hk o ho

/-- What every update and every request keeps, and the others too, the program keeps. -/
theorem Amid.state_within {U : (S → S) → Prop} {V : A → Prop} {Q : α → Prop} {I : S → Prop}
    (hrely : ∀ s s', rely s s' → I s → I s') (hU : ∀ f, U f → ∀ s, I s → I (f s))
    (hV : ∀ a, V a → ∀ c s x, sem.reply a c s = some x → I s → I x.state)
    (hp : p.Within U V Q) (hs : I s) (h : sem.Amid rely proviso p s r) : I r.state := by
  induction p generalizing s r with
  | ret a =>
    obtain rfl : r = _ := h
    exact hs
  | fail =>
    obtain rfl : r = _ := h
    exact hs
  | atomic f k ih =>
    obtain ⟨s', c, hr, -, hk⟩ := h
    exact ih s' (hp.2 s') (hU f hp.1 s' (hrely s s' hr hs)) hk
  | act a k ih =>
    obtain ⟨s', c, x, r', hr, -, hx, hk, rfl⟩ := h
    exact ih x.answer (r := r') (hp.2 x.answer) (hV a hp.1 c s' x hx (hrely s s' hr hs)) hk

/-- The requests of a run are those of the program, and so is its answer. -/
theorem Amid.within {U : (S → S) → Prop} {V : A → Prop} {Q : α → Prop} (hp : p.Within U V Q)
    (h : sem.Amid rely proviso p s r) :
    (∀ x ∈ r.asked, V x.1) ∧ ∀ a, r.answer = some a → Q a := by
  induction p generalizing s r with
  | ret a =>
    obtain rfl : r = _ := h
    refine ⟨by simp, ?_⟩
    rintro b hb
    obtain rfl := Option.some.inj hb
    exact hp
  | fail =>
    obtain rfl : r = _ := h
    exact ⟨by simp, by simp⟩
  | atomic f k ih =>
    obtain ⟨s', c, -, -, hk⟩ := h
    exact ih s' (hp.2 s') hk
  | act a k ih =>
    obtain ⟨s', c, x, r', -, -, hx, hk, rfl⟩ := h
    obtain ⟨hasked, hanswer⟩ := ih x.answer (r := r') (hp.2 x.answer) hk
    refine ⟨?_, hanswer⟩
    rintro y hy
    rcases List.mem_cons.mp hy with rfl | hy
    · exact hp.1
    · exact hasked y hy

/-- A program that survives ends with an answer. -/
theorem Survives.amid {Q : α → Prop} (hp : sem.Survives proviso Q p)
    (h : sem.Amid rely proviso p s r) : ∃ a, r.answer = some a ∧ Q a := by
  induction p generalizing s r with
  | ret a =>
    obtain rfl : r = _ := h
    exact ⟨a, rfl, hp⟩
  | fail => exact hp.elim
  | atomic f k ih =>
    obtain ⟨s', c, -, hc, hk⟩ := h
    exact ih s' (hp s' c hc) hk
  | act a k ih =>
    obtain ⟨s', c, x, r', -, hc, hx, hk, rfl⟩ := h
    exact ih x.answer (r := r') (hp.2 s' c x hc hx) hk

/-- A program that survives has a run, if the others can always bring about a state in which the next
operation meets the proviso and is answered. -/
theorem Survives.exists_amid {Q : α → Prop}
    (hready : ∀ s, ∃ s', rely s s' ∧
      (∀ (f : S → S) (k : S → Prog S R α), ∃ c, proviso.Holds s' c (.atomic f k)) ∧
      ∀ a (k : R a → Prog S R α), proviso.Asks a →
        ∃ c x, proviso.Holds s' c (.act a k) ∧ sem.reply a c s' = some x)
    (hp : sem.Survives proviso Q p) (s : S) : ∃ r, sem.Amid rely proviso p s r := by
  induction p generalizing s with
  | ret a => exact ⟨_, rfl⟩
  | fail => exact hp.elim
  | atomic f k ih =>
    obtain ⟨s', hs, hatomic, -⟩ := hready s
    obtain ⟨c, hc⟩ := hatomic f k
    obtain ⟨r, hr⟩ := ih s' (hp s' c hc) (f s')
    exact ⟨r, s', c, hs, hc, hr⟩
  | act a k ih =>
    obtain ⟨s', hs, -, hact⟩ := hready s
    obtain ⟨c, x, hc, hx⟩ := hact a k hp.1
    obtain ⟨r, hr⟩ := ih x.answer (hp.2 s' c x hc hx) x.state
    exact ⟨_, s', c, x, r, hs, hc, hx, hr, rfl⟩

/-! ## Runs that exist -/

theorem Amid.here {f : S → S} {k : S → Prog S R α} (c : C) (hs : rely s s)
    (h : sem.Amid rely .free (k s) (f s) r) : sem.Amid rely .free (.atomic f k) s r :=
  ⟨s, c, hs, trivial, h⟩

theorem Amid.reply {a : A} {k : R a → Prog S R α} {s' : S} {c : C} {x : Reply S T ω (R a)}
    (hs : rely s s') (hx : sem.reply a c s' = some x)
    (h : sem.Amid rely .free (k x.answer) x.state r) :
    sem.Amid rely .free (.act a k) s (r.after ⟨a, x.answer⟩ x.outputs x.spawned) :=
  ⟨s', c, x, r, hs, trivial, hx, h, rfl⟩

/-- Two runs, one after the other. -/
theorem Amid.seq {g : α → Prog S R β} {a : α} {r' : Record S T ω R β}
    (h : sem.Amid rely .free p s r) (ha : r.answer = some a)
    (h' : sem.Amid rely .free (g a) r.state r') :
    sem.Amid rely .free (p >>= g) s (r.append r') := by
  induction p generalizing s r with
  | ret b =>
    obtain rfl : r = _ := h
    obtain rfl := Option.some.inj ha
    exact h'
  | fail =>
    obtain rfl : r = _ := h
    cases ha
  | atomic f k ih =>
    obtain ⟨s', c, hs, hc, hk⟩ := h
    exact ⟨s', c, hs, hc, ih s' hk ha h'⟩
  | act b k ih =>
    obtain ⟨s', c, x, r₁, hs, hc, hx, hk, rfl⟩ := h
    refine ⟨s', c, x, r₁.append r', hs, hc, hx, ih x.answer hk ha h', ?_⟩
    simp [Record.append, Record.after]

/-- A program whose requests are always answered has a run, even if the others do nothing. -/
theorem exists_amid_within {U : (S → S) → Prop} {V : A → Prop} {Q : α → Prop}
    (hrely : ∀ s, rely s s) (hV : ∀ a, V a → ∀ s, ∃ c x, sem.reply a c s = some x)
    (c : C) (hp : p.Within U V Q) (s : S) :
    ∃ r, sem.Amid rely .free p s r ∧ ∀ x ∈ r.asked, V x.1 := by
  induction p generalizing s with
  | ret a => exact ⟨_, rfl, by simp⟩
  | fail => exact ⟨_, rfl, by simp⟩
  | atomic f k ih =>
    obtain ⟨r, hr, hasked⟩ := ih s (hp.2 s) (f s)
    exact ⟨r, .here c (hrely s) hr, hasked⟩
  | act a k ih =>
    obtain ⟨c, x, hx⟩ := hV a hp.1 s
    obtain ⟨r, hr, hasked⟩ := ih x.answer (hp.2 x.answer) x.state
    refine ⟨_, .reply (hrely s) hx hr, ?_⟩
    rintro y hy
    rcases List.mem_cons.mp hy with rfl | hy
    · exact hp.1
    · exact hasked y hy

end Semantics

end WhiteNoise.Process
