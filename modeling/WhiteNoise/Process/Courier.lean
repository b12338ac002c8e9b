import WhiteNoise.Process.Pool

/-! # Programs that carry items

A courier takes items in and gives them out in the same order, and holds those
in between. A contract says what an operation may rely on and what it may do to
the state, with the items it moves. A program that keeps a contract does so in
whatever states its operations are performed.
-/

namespace WhiteNoise.Process

variable {S A T C ω δ α β : Type} {R : A → Type}

/-- What holds before every operation, the choices that answer requests, the requests that may be
made while some items are held, and what one operation may do: in `Moves s s' os ts inn out` the
items `inn` come in and the items `out` go out. -/
structure Contract (S A T C ω δ : Type) where
  Inv : S → Prop
  Allows : C → Prop
  Asks : List δ → A → Prop
  Moves : S → S → List ω → List T → List δ → List δ → Prop
  mayFail : Prop

namespace Semantics

variable (sem : Semantics S R T C ω)

/-- The next operation of a program, whatever it returns in the end. -/
def operate (c : C) (s : S) : Prog S R α → Option (Reply S T ω (Prog S R α))
  | .ret _ => none
  | .fail => none
  | .atomic f k => some ⟨k s, f s, [], []⟩
  | .act a k =>
    match sem.reply a c s with
    | none => none
    | some r => some ⟨k r.answer, r.state, r.outputs, r.spawned⟩

/-- The program keeps the contract and moves items in order, holding the given ones now and
the ones in `Q` with its result. -/
def Carries (K : Contract S A T C ω δ) (Q : List δ → α → Prop) : Prog S R α → List δ → Prop
  | .ret a, held => Q held a
  | .fail, _ => K.mayFail
  | .atomic f k, held => ∀ s, K.Inv s → ∃ inn out held', held ++ inn = out ++ held' ∧
      K.Moves s (f s) [] [] inn out ∧ Carries K Q (k s) held'
  | .act a k, held => K.Asks held a ∧ ∀ s c x, K.Inv s → K.Allows c → sem.reply a c s = some x →
      ∃ inn out held', held ++ inn = out ++ held' ∧
        K.Moves s x.state x.outputs x.spawned inn out ∧ Carries K Q (k x.answer) held'

variable {sem} {K : Contract S A T C ω δ} {Q Q' : List δ → α → Prop} {p : Prog S R α}
  {held : List δ}

theorem Carries.mono (hQ : ∀ held a, Q held a → Q' held a) (h : sem.Carries K Q p held) :
    sem.Carries K Q' p held := by
  induction p generalizing held with
  | ret a => exact hQ held a h
  | fail => exact h
  | atomic f k ih =>
    intro s hs
    obtain ⟨inn, out, held', heq, hm, hk⟩ := h s hs
    exact ⟨inn, out, held', heq, hm, ih s hk⟩
  | act a k ih =>
    refine ⟨h.1, fun s c x hs hc hx => ?_⟩
    obtain ⟨inn, out, held', heq, hm, hk⟩ := h.2 s c x hs hc hx
    exact ⟨inn, out, held', heq, hm, ih x.answer hk⟩

theorem Carries.bind {Q : List δ → β → Prop} {g : α → Prog S R β}
    (h : sem.Carries K (fun held a => sem.Carries K Q (g a) held) p held) :
    sem.Carries K Q (p >>= g) held := by
  induction p generalizing held with
  | ret a => exact h
  | fail => exact h
  | atomic f k ih =>
    intro s hs
    obtain ⟨inn, out, held', heq, hm, hk⟩ := h s hs
    exact ⟨inn, out, held', heq, hm, ih s hk⟩
  | act a k ih =>
    refine ⟨h.1, fun s c x hs hc hx => ?_⟩
    obtain ⟨inn, out, held', heq, hm, hk⟩ := h.2 s c x hs hc hx
    exact ⟨inn, out, held', heq, hm, ih x.answer hk⟩

/-- A lock acquisition that moves no item. -/
theorem Carries.idle {f : S → S} {k : S → Prog S R α}
    (hm : ∀ s, K.Inv s → K.Moves s (f s) [] [] [] [])
    (hk : ∀ s, K.Inv s → sem.Carries K Q (k s) held) : sem.Carries K Q (.atomic f k) held :=
  fun s hs => ⟨[], [], held, List.append_nil held, hm s hs, hk s hs⟩

/-- The next operation of a courier moves items as the contract says. -/
theorem Carries.operate {s : S} {c : C} {r : Reply S T ω (Prog S R α)}
    (h : sem.Carries K Q p held) (hs : K.Inv s) (hc : K.Allows c)
    (hr : sem.operate c s p = some r) :
    ∃ inn out held', held ++ inn = out ++ held' ∧
      K.Moves s r.state r.outputs r.spawned inn out ∧ sem.Carries K Q r.answer held' := by
  cases p with
  | ret a => cases hr
  | fail => cases hr
  | atomic f k =>
    cases hr
    exact h s hs
  | act a k =>
    simp only [Semantics.operate] at hr
    split at hr
    · cases hr
    · next x hx =>
      cases hr
      exact h.2 s c x hs hc hx

/-- A courier that must not fail and cannot go on has returned or waits for an answer. -/
theorem Carries.blocked [Nonempty C] {s : S} (h : sem.Carries K Q p held) (hfail : ¬ K.mayFail)
    (hr : ∀ c, sem.operate c s p = none) :
    (∃ a, p = .ret a ∧ Q held a) ∨
      ∃ a k, p = .act a k ∧ K.Asks held a ∧ ∀ c, sem.reply a c s = none := by
  cases p with
  | ret a => exact Or.inl ⟨a, rfl, h⟩
  | fail => exact absurd h hfail
  | atomic f k =>
    obtain ⟨c⟩ := ‹Nonempty C›
    cases hr c
  | act a k =>
    refine Or.inr ⟨a, k, rfl, h.1, fun c => ?_⟩
    have hc := hr c
    simp only [Semantics.operate] at hc
    split at hc
    · next hx => exact hx
    · cases hc

/-! ## Threads -/

theorem advance_eq_operate {s : S} {c : C} {t : Prog S R (Option T)}
    (ht : ∀ task, t ≠ .ret (some task)) : sem.advance c s t = sem.operate c s t := by
  cases t with
  | ret a =>
    cases a with
    | none => rfl
    | some task => exact absurd rfl (ht task)
  | _ => rfl

/-- A turn of a thread that is a courier, and goes on as a courier after it has returned. -/
theorem Carries.advance {Q : List δ → Option T → Prop} {t : Prog S R (Option T)} {s : S} {c : C}
    {r : Reply S T ω (Prog S R (Option T))}
    (hidle : ∀ s, K.Inv s → K.Moves s s [] [] [] [])
    (hbody : ∀ held task, Q held (some task) → sem.Carries K Q (sem.body task) held)
    (h : sem.Carries K Q t held) (hs : K.Inv s) (hc : K.Allows c)
    (hr : sem.advance c s t = some r) :
    ∃ inn out held', held ++ inn = out ++ held' ∧
      K.Moves s r.state r.outputs r.spawned inn out ∧ sem.Carries K Q r.answer held' := by
  by_cases ht : ∃ task, t = .ret (some task)
  · obtain ⟨task, rfl⟩ := ht
    cases hr
    exact ⟨[], [], held, List.append_nil held, hidle s hs, hbody held task h⟩
  · rw [advance_eq_operate fun task heq => ht ⟨task, heq⟩] at hr
    exact h.operate hs hc hr

/-! ## Programs that carry nothing -/

/-- The program keeps the contract and never holds an item. Its result is in `P`. -/
def Keeps (sem : Semantics S R T C ω) (K : Contract S A T C ω δ) (P : α → Prop)
    (p : Prog S R α) : Prop :=
  sem.Carries K (fun held a => held = [] ∧ P a) p []

variable {P : α → Prop} {P' : β → Prop} {g : α → Prog S R β}

theorem Keeps.ret {a : α} (h : P a) : sem.Keeps K P (.ret a) := ⟨rfl, h⟩

theorem Keeps.fail (h : K.mayFail) : sem.Keeps K P .fail := h

theorem Keeps.bind (hp : sem.Keeps K P p) (hg : ∀ a, P a → sem.Keeps K P' (g a)) :
    sem.Keeps K P' (p >>= g) := by
  refine Carries.bind (Carries.mono ?_ hp)
  rintro held a ⟨rfl, ha⟩
  exact hg a ha

theorem Keeps.mono {P' : α → Prop} (hP : ∀ a, P a → P' a) (h : sem.Keeps K P p) :
    sem.Keeps K P' p :=
  Carries.mono (fun _ a ha => ⟨ha.1, hP a ha.2⟩) h

theorem Keeps.update {f : S → S} {v : S → α} (hm : ∀ s, K.Inv s → K.Moves s (f s) [] [] [] [])
    (hv : ∀ s, K.Inv s → P (v s)) : sem.Keeps K P (Prog.update f v) :=
  Carries.idle hm fun s hs => ⟨rfl, hv s hs⟩

theorem Keeps.call {a : A} {P : R a → Prop} (ha : K.Asks [] a)
    (hm : ∀ s c x, K.Inv s → K.Allows c → sem.reply a c s = some x →
      K.Moves s x.state x.outputs x.spawned [] [] ∧ P x.answer) :
    sem.Keeps K P (Prog.call a) := by
  refine ⟨ha, fun s c x hs hc hx => ?_⟩
  obtain ⟨hmove, hans⟩ := hm s c x hs hc hx
  exact ⟨[], [], [], rfl, hmove, rfl, hans⟩

theorem Keeps.unwrap {o : Option α} (hfail : K.mayFail) (h : ∀ a, o = some a → P a) :
    sem.Keeps K P (Prog.unwrap o) := by
  cases o with
  | none => exact hfail
  | some a => exact .ret (h a rfl)

theorem Keeps.ite {c : Prop} [Decidable c] {p q : Prog S R α} (hp : c → sem.Keeps K P p)
    (hq : ¬ c → sem.Keeps K P q) : sem.Keeps K P (if c then p else q) := by
  split
  · next h => exact hp h
  · next h => exact hq h

end Semantics

/-! ## Couriers in a row -/

section Row

variable {B B' : ℕ → List δ} {n k : ℕ} {x : δ}

/-- What is on its way along a row of couriers that hold `B 0`, ..., `B n`, in the order in which
it comes out at the end of the row. -/
def row (B : ℕ → List δ) : ℕ → List δ
  | 0 => B 0
  | n + 1 => B (n + 1) ++ row B n

theorem row_congr (h : ∀ k ≤ n, B' k = B k) : row B' n = row B n := by
  induction n with
  | zero => exact h 0 (Nat.le_refl 0)
  | succ n ih =>
    rw [row, row, h (n + 1) (Nat.le_refl _), ih fun k hk => h k (Nat.le_succ_of_le hk)]

theorem row_put {l : List δ} (hzero : B' 0 = B 0 ++ l) (h : ∀ j ≤ n, j ≠ 0 → B' j = B j) :
    row B' n = row B n ++ l := by
  induction n with
  | zero => exact hzero
  | succ n ih =>
    rw [row, row, ih fun j hj => h j (Nat.le_succ_of_le hj),
      h (n + 1) (Nat.le_refl _) (Nat.succ_ne_zero n), List.append_assoc]

theorem row_take (hlast : B n = x :: B' n) (h : ∀ j < n, B' j = B j) :
    row B n = x :: row B' n := by
  cases n with
  | zero => exact hlast
  | succ n =>
    have hrest : row B' n = row B n := row_congr fun j hj => h j (Nat.lt_succ_of_le hj)
    rw [row, row, hlast, hrest, List.cons_append]

/-- Handing an item on to the next courier changes nothing. -/
theorem row_hand (hk : k < n) (hlow : B k = x :: B' k) (hhigh : B' (k + 1) = B (k + 1) ++ [x])
    (h : ∀ j ≤ n, j ≠ k → j ≠ k + 1 → B' j = B j) : row B' n = row B n := by
  induction n with
  | zero => cases hk
  | succ n ih =>
    by_cases hkn : k = n
    · subst hkn
      have htake : row B k = x :: row B' k := row_take hlow fun j hj =>
        h j (by omega) (by omega) (by omega)
      rw [row, row, hhigh, htake, List.append_assoc, List.singleton_append]
    · have hlt : k < n := by omega
      rw [row, row, ih hlt fun j hj => h j (by omega), h (n + 1) (by omega) (by omega) (by omega)]

theorem row_nil (h : ∀ k ≤ n, B k = []) : row B n = [] := by
  induction n with
  | zero => exact h 0 (Nat.le_refl 0)
  | succ n ih =>
    rw [row, h (n + 1) (Nat.le_refl _), ih fun k hk => h k (Nat.le_succ_of_le hk), List.nil_append]

end Row

end WhiteNoise.Process
