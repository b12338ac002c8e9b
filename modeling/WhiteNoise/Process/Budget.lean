import WhiteNoise.Process.Pool
import Mathlib.Algebra.Ring.Nat
import Mathlib.Data.List.Forall2

/-! # Programs that pay for what they do

A tariff puts a price on updates and requests, and some answers bring a
program something in. What all threads of a pool may still spend is then
bounded by what has come in.
-/

namespace WhiteNoise.Process

variable {S A T ω α β : Type} {R : A → Type}

/-- What updates and requests cost, which answers can be given and what they bring in. -/
structure Tariff (S : Type) {A : Type} (R : A → Type) where
  fee : (S → S) → ℕ → Prop
  toll : A → ℕ → Prop
  ok : (a : A) → R a → Prop
  gain : (a : A) → R a → ℕ

namespace Prog

/-- With the budget the program can pay for all it does; a result leaves a budget in `Q`. -/
def Pays (V : Tariff S R) (Q : ℕ → α → Prop) : ℕ → Prog S R α → Prop
  | n, .ret a => Q n a
  | _, .fail => True
  | n, .atomic f k => ∃ c m, n = c + m ∧ V.fee f c ∧ ∀ s, Pays V Q m (k s)
  | n, .act a k => ∃ c m, n = c + m ∧ V.toll a c ∧ ∀ r, V.ok a r → Pays V Q (m + V.gain a r) (k r)

variable {V : Tariff S R} {Q : ℕ → α → Prop} {n : ℕ}

theorem Pays.bind {P : ℕ → α → Prop} {Q : ℕ → β → Prop} {p : Prog S R α} {g : α → Prog S R β}
    (hp : p.Pays V P n) (hg : ∀ m a, P m a → (g a).Pays V Q m) : (p >>= g).Pays V Q n := by
  induction p generalizing n with
  | ret a => exact hg n a hp
  | fail => trivial
  | atomic f k ih =>
    obtain ⟨c, m, hn, hf, hk⟩ := hp
    exact ⟨c, m, hn, hf, fun s => ih s (hk s)⟩
  | act a k ih =>
    obtain ⟨c, m, hn, ha, hk⟩ := hp
    exact ⟨c, m, hn, ha, fun r hr => ih r (hk r hr)⟩

/-- A program whose operations are free keeps its budget. -/
theorem Within.pays {U : (S → S) → Prop} {W : A → Prop} {P : α → Prop}
    (hU : ∀ f, U f → V.fee f 0) (hW : ∀ a, W a → V.toll a 0 ∧ ∀ r, V.gain a r = 0)
    {p : Prog S R α} (hp : p.Within U W P) (hQ : ∀ a, P a → Q n a) : p.Pays V Q n := by
  induction p with
  | ret a => exact hQ a hp
  | fail => trivial
  | atomic f k ih => exact ⟨0, n, (Nat.zero_add n).symm, hU f hp.1, fun s => ih s (hp.2 s)⟩
  | act a k ih =>
    refine ⟨0, n, (Nat.zero_add n).symm, (hW a hp.1).1, fun r _ => ?_⟩
    rw [(hW a hp.1).2 r]
    exact ih r (hp.2 r)

end Prog

/-! ## A list of budgets -/

/-- One element of the list and its budget, and what may take their place. -/
theorem forall₂_set {P : ℕ → α → Prop} {ns : List ℕ} {l : List α} {i : ℕ} {a : α}
    (h : List.Forall₂ P ns l) (hi : l[i]? = some a) :
    ∃ n, P n a ∧ ∀ n' a', P n' a' → List.Forall₂ P (ns.set i n') (l.set i a') ∧
      (ns.set i n').sum + n = ns.sum + n' := by
  induction h generalizing i with
  | nil => cases hi
  | @cons m b ns l hb hl ih =>
    cases i with
    | zero =>
      obtain rfl := Option.some.inj hi
      refine ⟨m, hb, fun n' a' ha => ⟨.cons ha hl, ?_⟩⟩
      simp only [List.set_cons_zero, List.sum_cons]
      omega
    | succ i =>
      obtain ⟨n, hn, hset⟩ := ih hi
      refine ⟨n, hn, fun n' a' ha => ?_⟩
      obtain ⟨hall, hsum⟩ := hset n' a' ha
      refine ⟨.cons hb hall, ?_⟩
      simp only [List.set_cons_succ, List.sum_cons]
      omega

/-- Take an element out of the list, or nothing. -/
theorem exists_take [DecidableEq α] {q : List α} {w : α} {m : ℕ} {b : Bool}
    (h : q.count w = b.toNat + m) :
    ∃ q' : List α, (∀ v, q'.count v = if v = w then m else q.count v) ∧
      q'.length + b.toNat = q.length := by
  cases b with
  | false =>
    refine ⟨q, fun v => ?_, rfl⟩
    split
    · next hv => rw [hv, h, Bool.toNat_false, Nat.zero_add]
    · rfl
  | true =>
    rw [Bool.toNat_true] at h ⊢
    have hmem : w ∈ q := List.count_pos_iff.mp (by omega)
    refine ⟨q.erase w, fun v => ?_, ?_⟩
    · split
      · next hv =>
        rw [hv, List.count_erase_self, h]
        omega
      · next hv => exact List.count_erase_of_ne hv
    · have hpos := List.length_pos_of_mem hmem
      rw [List.length_erase_of_mem hmem]
      omega

end WhiteNoise.Process
