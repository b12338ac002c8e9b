import WhiteNoise.Process.Budget

/-! # What a program costs

Requests have a price and answers bring something in. The costs of programs add
up along a bind, and in a pool whose requests cover what they set free, all
outputs are paid for by what comes in.
-/

namespace WhiteNoise.Process

variable {S A T C ω α β : Type} {R : A → Type}

/-- What requests cost and what answers bring in. -/
structure Prices (A : Type) (R : A → Type) where
  cost : A → ℕ
  gain : (a : A) → R a → ℕ

/-- State changes that stay within `U` are free, and more than the price may be paid. -/
def Prices.tariff (V : Prices A R) (U : (S → S) → Prop) : Tariff S R where
  fee f c := c = 0 ∧ U f
  toll a c := V.cost a ≤ c
  ok _ _ := True
  gain := V.gain

namespace Prog

variable {V : Prices A R} {U : (S → S) → Prop} {due : α → ℕ} {due' : β → ℕ} {c d e : ℕ}

/-- With `c`, what is due for the result is left in the end, and what was there besides. -/
def Costs (V : Prices A R) (due : α → ℕ) (c : ℕ) (p : Prog S R α) : Prop :=
  ∀ n, p.Pays (V.tariff fun _ => True) (fun m a => due a + n ≤ m) (c + n)

/-- Nothing is due for the result. -/
abbrev Spends (V : Prices A R) (c : ℕ) (p : Prog S R α) : Prop := p.Costs V (fun _ => 0) c

theorem Pays.mono {Q Q' : ℕ → α → Prop} {m n : ℕ} {p : Prog S R α} (hmn : m ≤ n)
    (hQ : ∀ k k' a, k ≤ k' → Q k a → Q' k' a) (h : p.Pays (V.tariff U) Q m) :
    p.Pays (V.tariff U) Q' n := by
  induction p generalizing m n with
  | ret a => exact hQ m n a hmn h
  | fail => trivial
  | atomic f k ih =>
    obtain ⟨_, m', rfl, ⟨rfl, hf⟩, hk⟩ := h
    exact ⟨0, n, (Nat.zero_add n).symm, ⟨rfl, hf⟩, fun s => ih s (by omega) (hk s)⟩
  | act a k ih =>
    obtain ⟨c, m', rfl, ha, hk⟩ := h
    have ha' : V.cost a ≤ c := ha
    refine ⟨n - m', m', by omega, (by omega : V.cost a ≤ n - m'), fun r hr => ?_⟩
    exact ih r le_rfl (hk r hr)

/-- A budget is kept within the state changes that the program keeps to. -/
theorem Pays.within {Q : ℕ → α → Prop} {W : A → Prop} {P : α → Prop} {n : ℕ} {p : Prog S R α}
    (h : p.Pays (V.tariff fun _ => True) Q n) (hp : p.Within U W P) : p.Pays (V.tariff U) Q n := by
  induction p generalizing n with
  | ret a => exact h
  | fail => trivial
  | atomic f k ih =>
    obtain ⟨c, m, hn, ⟨hc, -⟩, hk⟩ := h
    exact ⟨c, m, hn, ⟨hc, hp.1⟩, fun s => ih s (hk s) (hp.2 s)⟩
  | act a k ih =>
    obtain ⟨c, m, hn, ha, hk⟩ := h
    exact ⟨c, m, hn, ha, fun r hr => ih r (hk r hr) (hp.2 r)⟩

namespace Costs

variable {p : Prog S R α} {g : α → Prog S R β}

theorem mono (h : p.Costs V due c) (hc : c ≤ d) : p.Costs V due d := fun n =>
  (h n).mono (by omega) fun _ _ _ hk ha => Nat.le_trans ha hk

theorem pure {a : α} (h : due a ≤ c) : (Pure.pure a : Prog S R α).Costs V due c :=
  fun n => (Nat.add_le_add_right h n : due a + n ≤ c + n)

theorem fail : (Prog.fail : Prog S R α).Costs V due c := fun _ => trivial

/-- What is due for the first result is there for the rest. -/
theorem bind (hp : p.Costs V due c) (hg : ∀ a, (g a).Costs V due' (d + due a)) :
    (p >>= g).Costs V due' (c + d) := by
  intro n
  rw [Nat.add_assoc]
  refine (hp (d + n)).bind fun m a hm => ?_
  exact (hg a n).mono (by omega) fun _ _ _ hk ha => Nat.le_trans ha hk

/-- The first program is paid, and the rest has to do with what is left. -/
theorem seq (hp : p.Spends V c) (hg : ∀ a, (g a).Costs V due' (e - c)) (h : c ≤ e) :
    (p >>= g).Costs V due' e := by
  have hce := hp.bind (d := e - c) hg
  rwa [Nat.add_sub_cancel' h] at hce

theorem free (hp : p.Spends V 0) (hg : ∀ a, (g a).Costs V due' e) : (p >>= g).Costs V due' e :=
  seq hp hg e.zero_le

/-- The answer to a request pays for what comes of it. -/
theorem act {a : A} {k : R a → Prog S R α} (hk : ∀ r, (k r).Costs V due (d + V.gain a r))
    (h : V.cost a + d ≤ c) : (Prog.act a k).Costs V due c := fun n =>
  ⟨c - d, d + n, by omega, (by omega : V.cost a ≤ c - d), fun r _ => by
    have hr := hk r n
    rwa [Nat.add_right_comm] at hr⟩

theorem learn {a : A} {g : R a → Prog S R α} (hg : ∀ r, (g r).Costs V due (d + V.gain a r))
    (h : V.cost a + d ≤ c) : (Prog.call a >>= g).Costs V due c := act hg h

theorem call {a : A} (h : V.cost a ≤ c) : (Prog.call a : Prog S R (R a)).Spends V c :=
  act (d := 0) (fun _ => pure (Nat.zero_le _)) h

theorem update (f : S → S) (v : S → α) : (Prog.update f v : Prog S R α).Spends V 0 := fun n =>
  ⟨0, 0 + n, by omega, ⟨rfl, trivial⟩, fun _ => le_rfl⟩

theorem read (v : S → α) : (Prog.read v : Prog S R α).Spends V 0 := update _ v

theorem write (f : S → S) : (Prog.write f : Prog S R Unit).Spends V 0 := update f _

theorem unwrap (o : Option α) : (Prog.unwrap o : Prog S R α).Spends V 0 := by
  cases o with
  | none => exact fail
  | some a => exact pure le_rfl

theorem ite {b : Prop} [Decidable b] {q : Prog S R α} (hp : p.Costs V due c)
    (hq : q.Costs V due c) : (if b then p else q).Costs V due c := by
  split <;> assumption

end Costs

end Prog

/-! ## In a pool -/

variable {V : Tariff S R} {Q : ℕ → Option T → Prop} {n : ℕ} {p p' : Pool S R T}

/-- The threads have budgets, `n` in all. -/
def Pool.Affords (V : Tariff S R) (Q : ℕ → Option T → Prop) (n : ℕ) (p : Pool S R T) : Prop :=
  ∃ ns, List.Forall₂ (fun m t => t.Pays V Q m) ns p.threads ∧ ns.sum = n

theorem Pool.Affords.append {ts : List (Prog S R (Option T))} {ms : List ℕ} (hp : p.Affords V Q n)
    (hts : List.Forall₂ (fun m t => t.Pays V Q m) ms ts) (h : p'.threads = p.threads ++ ts) :
    p'.Affords V Q (n + ms.sum) := by
  obtain ⟨ns, hns, rfl⟩ := hp
  exact ⟨ns ++ ms, h ▸ List.rel_append hns hts, List.sum_append⟩

variable (sem : Semantics S R T C ω) {i : ℕ} {c : C} {o : List ω}

/-- The requests cover what comes out and what is spawned, so nothing comes out that is not paid
for. -/
theorem Pool.Affords.step (hbody : ∀ m t, Q m (some t) → (sem.body t).Pays V Q m)
    (hreply : ∀ a cost x, V.toll a cost → sem.reply a c p.state = some x → V.ok a x.answer ∧
      ∃ ms, List.Forall₂ (fun m t => t.Pays V Q m) ms (x.spawned.map sem.body) ∧
        x.outputs.length + ms.sum ≤ cost)
    (hp : p.Affords V Q n) (hs : sem.step p i c = some (p', o)) :
    ∃ n', p'.Affords V Q n' ∧
      (((p'.state = p.state ∨ ∃ f cost, V.fee f cost ∧ p'.state = f p.state) ∧
          n' + o.length ≤ n) ∨
        ∃ a x, sem.reply a c p.state = some x ∧ p'.state = x.state ∧
          n' + o.length ≤ n + V.gain a x.answer) := by
  obtain ⟨t, r, ht, hr, hstate, hthreads, rfl⟩ := sem.step_eq_some hs
  obtain ⟨ns, hns, rfl⟩ := hp
  obtain ⟨m, hm, hset⟩ := forall₂_set hns ht
  have hrest (m' : ℕ) (ms : List ℕ) (hanswer : r.answer.Pays V Q m')
      (hms : List.Forall₂ (fun m t => t.Pays V Q m) ms (r.spawned.map sem.body)) :
      ∃ n', p'.Affords V Q n' ∧ n' + m = ns.sum + m' + ms.sum := by
    obtain ⟨hall, hsum⟩ := hset m' _ hanswer
    refine ⟨_, ⟨ns.set i m' ++ ms, hthreads ▸ List.rel_append hall hms, rfl⟩, ?_⟩
    rw [List.sum_append]
    omega
  cases t with
  | ret a =>
    cases a with
    | none => cases hr
    | some task =>
      cases hr
      obtain ⟨n', hn', hsum⟩ := hrest m [] (hbody m task hm) .nil
      exact ⟨n', hn', Or.inl ⟨Or.inl hstate, by simp at hsum ⊢; omega⟩⟩
  | fail => cases hr
  | atomic f k =>
    cases hr
    obtain ⟨cost, m', rfl, hfee, hk⟩ := hm
    obtain ⟨n', hn', hsum⟩ := hrest m' [] (hk p.state) .nil
    exact ⟨n', hn', Or.inl ⟨Or.inr ⟨f, cost, hfee, hstate⟩, by simp at hsum ⊢; omega⟩⟩
  | act a k =>
    obtain ⟨x, hx, rfl⟩ := Semantics.advance_act hr
    obtain ⟨cost, m', rfl, htoll, hk⟩ := hm
    obtain ⟨hok, ms, hms, hcover⟩ := hreply a cost x htoll hx
    obtain ⟨n', hn', hsum⟩ := hrest _ ms (hk x.answer hok) hms
    refine ⟨n', hn', Or.inr ⟨a, x, hx, hstate, ?_⟩⟩
    dsimp only
    omega

end WhiteNoise.Process
