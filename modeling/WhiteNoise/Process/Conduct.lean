import Mathlib.Data.Set.Basic
import WhiteNoise.Process.Pool

/-! # What a program may do

A conduct says what a program may ask for and what it may leave in the shared state,
and it can allow more to a program that has been told more. In a pool whose threads
all keep to it, each step does, and what comes out of a step is the answer to a request
that was allowed.
-/

namespace WhiteNoise.Process

variable {S A T C ω κ α β : Type} {R : A → Type}

/-- The requests that are allowed to who knows `K`, what the answers tell, and what the shared state
may hold by then. -/
structure Conduct (κ S : Type) {A : Type} (R : A → Type) where
  allows : Set κ → A → Prop
  learns : (a : A) → R a → Set κ
  holds : Set κ → S → Prop
  allows_mono : ∀ {K L a}, K ⊆ L → allows K a → allows L a
  holds_mono : ∀ {K L s}, K ⊆ L → holds K s → holds L s

/-- The results that are right for who knows `K`. -/
structure Outcome (κ α : Type) where
  right : Set κ → α → Prop
  mono : ∀ {K L a}, K ⊆ L → right K a → right L a

/-- Every result is right. -/
def Outcome.any (κ α : Type) : Outcome κ α := ⟨fun _ _ => True, fun _ h => h⟩

namespace Prog

/-- Who knows `K` at first, and finds the shared state as it should be for what is known at each
lock, keeps to the conduct and returns a right result. -/
def Abides (V : Conduct κ S R) (Q : Outcome κ α) : Prog S R α → Set κ → Prop
  | ret a, K => Q.right K a
  | fail, _ => True
  | atomic f k, K => ∀ L s, K ⊆ L → V.holds L s → V.holds L (f s) ∧ (k s).Abides V Q L
  | act a k, K => V.allows K a ∧ ∀ r, (k r).Abides V Q (K ∪ V.learns a r)

namespace Abides

variable {V : Conduct κ S R} {Q : Outcome κ α} {Q' : Outcome κ β} {K L : Set κ}

theorem mono {p : Prog S R α} (hKL : K ⊆ L) (h : p.Abides V Q K) : p.Abides V Q L := by
  induction p generalizing K L with
  | ret a => exact Q.mono hKL h
  | fail => trivial
  | atomic f k ih => exact fun M s hLM => h M s (hKL.trans hLM)
  | act a k ih =>
    exact ⟨V.allows_mono hKL h.1,
      fun r => ih r (Set.union_subset_union_left _ hKL) (h.2 r)⟩

theorem pure {a : α} (h : Q.right K a) : (Pure.pure a : Prog S R α).Abides V Q K := h

theorem fail : (Prog.fail : Prog S R α).Abides V Q K := trivial

theorem bind {p : Prog S R α} {g : α → Prog S R β} (hp : p.Abides V Q K)
    (hg : ∀ L a, K ⊆ L → Q.right L a → (g a).Abides V Q' L) : (p >>= g).Abides V Q' K := by
  induction p generalizing K with
  | ret a => exact hg K a subset_rfl hp
  | fail => trivial
  | atomic f k ih =>
    intro L s hKL hs
    obtain ⟨hf, hk⟩ := hp L s hKL hs
    exact ⟨hf, ih s hk fun M a hLM => hg M a (hKL.trans hLM)⟩
  | act a k ih =>
    refine ⟨hp.1, fun r => ih r (hp.2 r) fun M a hLM => hg M a ?_⟩
    exact Set.subset_union_left.trans hLM

/-- Nothing need be known of the result. -/
theorem seq {p : Prog S R α} {g : α → Prog S R β} (hp : p.Abides V (.any κ α) K)
    (hg : ∀ a, (g a).Abides V Q' K) : (p >>= g).Abides V Q' K :=
  hp.bind fun _ a hKL _ => (hg a).mono hKL

theorem forget {p : Prog S R α} (hp : p.Abides V Q K) : p.Abides V (.any κ α) K := by
  rw [← bind_ret p]
  exact hp.bind fun _ _ _ _ => pure trivial

theorem act {a : A} {k : R a → Prog S R α} (ha : V.allows K a)
    (hk : ∀ r, (k r).Abides V Q (K ∪ V.learns a r)) : (Prog.act a k).Abides V Q K := ⟨ha, hk⟩

theorem call {a : A} (ha : V.allows K a) : (Prog.call a : Prog S R (R a)).Abides V (.any κ (R a)) K :=
  ⟨ha, fun _ => trivial⟩

/-- What the answer tells is known from then on. -/
theorem learn {a : A} {g : R a → Prog S R α} (ha : V.allows K a)
    (hg : ∀ r, (g r).Abides V Q (K ∪ V.learns a r)) : (Prog.call a >>= g).Abides V Q K := ⟨ha, hg⟩

theorem update {f : S → S} {g : S → α} (hf : ∀ L s, K ⊆ L → V.holds L s → V.holds L (f s)) :
    (Prog.update f g : Prog S R α).Abides V (.any κ α) K :=
  fun L s hKL hs => ⟨hf L s hKL hs, trivial⟩

theorem read (g : S → α) : (Prog.read g : Prog S R α).Abides V (.any κ α) K :=
  fun _ _ _ hs => ⟨hs, trivial⟩

theorem write {f : S → S} (hf : ∀ L s, K ⊆ L → V.holds L s → V.holds L (f s)) :
    (Prog.write f : Prog S R Unit).Abides V (.any κ Unit) K :=
  fun L s hKL hs => ⟨hf L s hKL hs, trivial⟩

/-- What is read comes from a state that is as it should be. -/
theorem look {v : S → α} {g : α → Prog S R β}
    (hg : ∀ L s, K ⊆ L → V.holds L s → (g (v s)).Abides V Q' L) :
    (Prog.read v >>= g).Abides V Q' K :=
  fun L s hKL hs => ⟨hs, hg L s hKL hs⟩

/-- What is taken out comes from such a state. -/
theorem modify {f : S → S} {v : S → α} {g : α → Prog S R β}
    (hg : ∀ L s, K ⊆ L → V.holds L s → V.holds L (f s) ∧ (g (v s)).Abides V Q' L) :
    (Prog.update f v >>= g).Abides V Q' K := hg

theorem unwrap (o : Option α) : (Prog.unwrap o : Prog S R α).Abides V (.any κ α) K := by
  cases o with
  | none => exact fail
  | some a => exact pure trivial

theorem unwrap_bind {o : Option α} {g : α → Prog S R β}
    (hg : ∀ a, o = some a → (g a).Abides V Q' K) : (Prog.unwrap o >>= g).Abides V Q' K := by
  cases o with
  | none => exact fail
  | some a => exact hg a rfl

theorem ite {c : Prop} [Decidable c] {p q : Prog S R α} (hp : c → p.Abides V Q K)
    (hq : ¬ c → q.Abides V Q K) : (if c then p else q).Abides V Q K := by
  split
  · exact hp ‹_›
  · exact hq ‹_›

end Abides

end Prog

/-! ## In a pool -/

variable {V : Conduct κ S R} {Q : Outcome κ (Option T)} {K L : Set κ}

/-- The shared state is as it should be, and all threads keep to the conduct, if they know `K`. -/
structure Pool.Abides (V : Conduct κ S R) (Q : Outcome κ (Option T)) (K : Set κ)
    (p : Pool S R T) : Prop where
  holds : V.holds K p.state
  threads : ∀ t ∈ p.threads, t.Abides V Q K

variable {p p' : Pool S R T} {i : ℕ} {c : C} {o : List ω}

theorem Pool.Abides.mono (hKL : K ⊆ L) (h : p.Abides V Q K) : p.Abides V Q L where
  holds := V.holds_mono hKL h.holds
  threads t ht := (h.threads t ht).mono hKL

/-- New tasks, and another state that is as it should be. -/
theorem Pool.Abides.append (sem : Semantics S R T C ω) (ts : List T) (hp : p.Abides V Q K)
    (hbody : ∀ t ∈ ts, (sem.body t).Abides V Q K) (hstate : V.holds K p'.state)
    (hts : p'.threads = p.threads ++ ts.map sem.body) : p'.Abides V Q K := by
  refine ⟨hstate, fun t ht => ?_⟩
  rw [hts] at ht
  rcases List.mem_append.mp ht with ht | ht
  · exact hp.threads t ht
  · obtain ⟨task, htask, rfl⟩ := List.mem_map.mp ht
    exact hbody task htask

variable {sem : Semantics S R T C ω} {U : (S → S) → Prop} {W : A → Prop}

/-- The threads stay within `U` and `W`, whatever they read and whatever they are answered. -/
def Pool.Within (U : (S → S) → Prop) (W : A → Prop) (p : Pool S R T) : Prop :=
  ∀ t ∈ p.threads, t.Within U W fun _ => True

theorem Pool.Within.append (ts : List (Prog S R (Option T))) (hp : p.Within U W)
    (hts : ∀ t ∈ ts, t.Within U W fun _ => True) (hthreads : p'.threads = p.threads ++ ts) :
    p'.Within U W := by
  intro t ht
  rw [hthreads] at ht
  rcases List.mem_append.mp ht with ht | ht
  · exact hp t ht
  · exact hts t ht

variable (sem) in
/-- The step of a pool changes nothing, does one of the state changes or answers a request. -/
theorem Pool.Within.step (hbody : ∀ t, (sem.body t).Within U W fun _ => True) (hp : p.Within U W)
    (hs : sem.step p i c = some (p', o)) :
    p'.Within U W ∧ ((p'.state = p.state ∧ o = []) ∨ (∃ f, U f ∧ p'.state = f p.state ∧ o = []) ∨
      ∃ a x, W a ∧ sem.reply a c p.state = some x ∧ p'.state = x.state ∧ o = x.outputs) := by
  obtain ⟨t, r, ht, hr, hstate, hthreads, rfl⟩ := sem.step_eq_some hs
  have hset (hanswer : r.answer.Within U W fun _ => True) : p'.Within U W := by
    intro u hu
    rw [hthreads] at hu
    rcases List.mem_append.mp hu with hu | hu
    · rcases List.mem_or_eq_of_mem_set hu with hu | rfl
      · exact hp u hu
      · exact hanswer
    · obtain ⟨task, -, rfl⟩ := List.mem_map.mp hu
      exact hbody task
  have hwithin := hp t (List.mem_of_getElem? ht)
  cases t with
  | ret a =>
    cases a with
    | none => cases hr
    | some task =>
      cases hr
      exact ⟨hset (hbody task), Or.inl ⟨hstate, rfl⟩⟩
  | fail => cases hr
  | atomic f k =>
    cases hr
    exact ⟨hset (hwithin.2 p.state), Or.inr (Or.inl ⟨f, hwithin.1, hstate, rfl⟩)⟩
  | act a k =>
    obtain ⟨x, hx, rfl⟩ := Semantics.advance_act hr
    exact ⟨hset (hwithin.2 x.answer), Or.inr (Or.inr ⟨a, x, hwithin.1, hx, hstate, rfl⟩)⟩

/-- A thread that goes on keeps to its conduct. It asks for nothing, or for what it may. -/
theorem Prog.Abides.advance {t : Prog S R (Option T)} {s : S}
    {r : Reply S T ω (Prog S R (Option T))}
    (hbody : ∀ t, Q.right K (some t) → (sem.body t).Abides V Q K) (ht : t.Abides V Q K)
    (hs : V.holds K s) (hr : sem.advance c s t = some r) :
    (r.answer.Abides V Q K ∧ V.holds K r.state ∧ r.outputs = [] ∧ r.spawned = []) ∨
      ∃ a x, V.allows K a ∧ sem.reply a c s = some x ∧ r.outputs = x.outputs ∧
        r.spawned = x.spawned ∧ r.state = x.state ∧
        r.answer.Abides V Q (K ∪ V.learns a x.answer) := by
  cases t with
  | ret a =>
    cases a with
    | none => cases hr
    | some task =>
      cases hr
      exact Or.inl ⟨hbody task ht, hs, rfl, rfl⟩
  | fail => cases hr
  | atomic f k =>
    cases hr
    obtain ⟨hf, hk⟩ := ht K s subset_rfl hs
    exact Or.inl ⟨hk, hf, rfl, rfl⟩
  | act a k =>
    obtain ⟨x, hx, rfl⟩ := Semantics.advance_act hr
    exact Or.inr ⟨a, x, ht.1, hx, rfl, rfl, rfl, ht.2 x.answer⟩

variable (sem) in
/-- The threads keep to their conduct in a step, once they know what it tells. -/
theorem Pool.Abides.step (hbody : ∀ t, Q.right K (some t) → (sem.body t).Abides V Q K)
    (hreply : ∀ a x, V.allows K a → sem.reply a c p.state = some x →
      V.holds K x.state ∧ ∀ t ∈ x.spawned, (sem.body t).Abides V Q K)
    (hp : p.Abides V Q K) (hs : sem.step p i c = some (p', o)) :
    (p'.Abides V Q K ∧ o = []) ∨
      ∃ a x, V.allows K a ∧ sem.reply a c p.state = some x ∧ o = x.outputs ∧
        p'.Abides V Q (K ∪ V.learns a x.answer) := by
  obtain ⟨t, r, ht, hr, hstate, hthreads, rfl⟩ := sem.step_eq_some hs
  have hset {L : Set κ} (hL : K ⊆ L) (hstate' : V.holds L r.state)
      (hanswer : r.answer.Abides V Q L)
      (hspawned : ∀ t ∈ r.spawned, (sem.body t).Abides V Q L) : p'.Abides V Q L := by
    refine ⟨hstate ▸ hstate', fun u hu => ?_⟩
    rw [hthreads] at hu
    rcases List.mem_append.mp hu with hu | hu
    · rcases List.mem_or_eq_of_mem_set hu with hu | rfl
      · exact (hp.threads u hu).mono hL
      · exact hanswer
    · obtain ⟨task, htask, rfl⟩ := List.mem_map.mp hu
      exact hspawned task htask
  rcases (hp.threads t (List.mem_of_getElem? ht)).advance hbody hp.holds hr with
    ⟨hanswer, hstate', houtputs, hspawned⟩ | ⟨a, x, ha, hx, houtputs, hspawned, hx', hanswer⟩
  · refine Or.inl ⟨hset subset_rfl hstate' hanswer ?_, houtputs⟩
    rw [hspawned]
    simp
  · obtain ⟨hheld, htasks⟩ := hreply a x ha hx
    refine Or.inr ⟨a, x, ha, hx, houtputs, ?_⟩
    refine hset Set.subset_union_left ?_ hanswer fun t ht => ?_
    · rw [hx']
      exact V.holds_mono Set.subset_union_left hheld
    · rw [hspawned] at ht
      exact (htasks t ht).mono Set.subset_union_left

end WhiteNoise.Process
