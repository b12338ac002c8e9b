import Mathlib.Logic.Function.Basic

/-! # Mutually inverse partial maps

A partial map and an index of it: the index lists the records by a name, the
map gives the name under the key of the record.
-/

namespace WhiteNoise.Registry

variable {α β γ : Type} {f : α → Option β} {g : β → Option γ} {key : γ → α}

/-- `f a` names `b` exactly when the record of `b` has the key `a`. -/
def Inverse (f : α → Option β) (g : β → Option γ) (key : γ → α) : Prop :=
  ∀ a b, f a = some b ↔ ∃ c, g b = some c ∧ key c = a

namespace Inverse

theorem empty : Inverse (fun _ : α => (none : Option β)) (fun _ : β => none) key := by
  intro a b
  simp

/-- A key the map does not have occurs in no record. -/
theorem absent (h : Inverse f g key) {a : α} (ha : f a = none) :
    ∀ b c, g b = some c → key c ≠ a := by
  rintro b c hc rfl
  have hf := (h (key c) b).mpr ⟨c, hc, rfl⟩
  rw [ha] at hf
  cases hf

variable [DecidableEq α] [DecidableEq β]

/-- A new record keeps the maps inverse exactly when its key is new. -/
theorem insert_iff (h : Inverse f g key) {b : β} (hb : g b = none) (c : γ) :
    Inverse (Function.update f (key c) (some b)) (Function.update g b (some c)) key ↔
      f (key c) = none := by
  constructor
  · intro h'
    cases ha : f (key c) with
    | none => rfl
    | some b' =>
      obtain ⟨c', hc', hk⟩ := (h (key c) b').mp ha
      have hne : b' ≠ b := by
        rintro rfl
        rw [hb] at hc'
        cases hc'
      have hf := (h' (key c) b').mpr ⟨c', by rw [Function.update_of_ne hne, hc'], hk⟩
      rw [Function.update_self] at hf
      exact absurd (Option.some.inj hf).symm hne
  · intro ha a' b'
    by_cases haa : a' = key c
    · subst haa
      rw [Function.update_self, Option.some.injEq]
      constructor
      · rintro rfl
        exact ⟨c, Function.update_self .., rfl⟩
      · rintro ⟨c', hc', hk⟩
        by_contra hne
        rw [Function.update_of_ne (Ne.symm hne)] at hc'
        exact h.absent ha b' c' hc' hk
    · rw [Function.update_of_ne haa, h a' b']
      by_cases hbb : b' = b
      · subst hbb
        rw [Function.update_self]
        constructor
        · rintro ⟨c', hc', -⟩
          rw [hb] at hc'
          cases hc'
        · rintro ⟨c', hc', hk⟩
          cases hc'
          exact absurd hk.symm haa
      · rw [Function.update_of_ne hbb]

/-- Removing a key and the record it names keeps the maps inverse. -/
theorem remove (h : Inverse f g key) {a : α} {b : β} (ha : f a = some b) :
    Inverse (Function.update f a none) (Function.update g b none) key := by
  intro a' b'
  by_cases haa : a' = a
  · subst haa
    rw [Function.update_self]
    refine iff_of_false (by simp) ?_
    rintro ⟨c', hc', hk⟩
    by_cases hbb : b' = b
    · subst hbb
      rw [Function.update_self] at hc'
      cases hc'
    · rw [Function.update_of_ne hbb] at hc'
      have hf := (h a' b').mpr ⟨c', hc', hk⟩
      rw [ha] at hf
      exact hbb (Option.some.inj hf).symm
  · rw [Function.update_of_ne haa, h a' b']
    by_cases hbb : b' = b
    · subst hbb
      rw [Function.update_self]
      refine iff_of_false ?_ (by simp)
      rintro ⟨c', hc', hk⟩
      obtain ⟨c, hc, hkc⟩ := (h a b').mp ha
      rw [hc] at hc'
      cases hc'
      exact haa (hk.symm.trans hkc)
    · rw [Function.update_of_ne hbb]

omit [DecidableEq β] in
/-- Removing a key that is not there changes nothing. -/
theorem remove_absent (h : Inverse f g key) {a : α} (ha : f a = none) :
    Inverse (Function.update f a none) g key := by
  rwa [← ha, Function.update_eq_self]

end Inverse

/-- What `f` names has a record with the key. A record may be left that `f` does not name. -/
def Owned (f : α → Option β) (g : β → Option γ) (key : γ → α) : Prop :=
  ∀ a b, f a = some b → ∃ c, g b = some c ∧ key c = a

namespace Owned

theorem empty : Owned (fun _ : α => (none : Option β)) (fun _ : β => none) key := by
  rintro a b hab
  cases hab

variable [DecidableEq α]

/-- A key is forgotten, its record stays. -/
theorem forget (h : Owned f g key) (a : α) : Owned (Function.update f a none) g key := by
  rintro a' b hab
  by_cases haa : a' = a
  · rw [haa, Function.update_self] at hab
    cases hab
  · rw [Function.update_of_ne haa] at hab
    exact h a' b hab

variable [DecidableEq β]

/-- A new record, under a key that may have had one before. -/
theorem insert (h : Owned f g key) {b : β} (hb : g b = none) (c : γ) :
    Owned (Function.update f (key c) (some b)) (Function.update g b (some c)) key := by
  rintro a' b' hab
  by_cases haa : a' = key c
  · rw [haa, Function.update_self] at hab
    obtain rfl := Option.some.inj hab
    exact ⟨c, Function.update_self .., haa.symm⟩
  · rw [Function.update_of_ne haa] at hab
    obtain ⟨c', hc', hk⟩ := h a' b' hab
    have hne : b' ≠ b := by
      rintro rfl
      rw [hb] at hc'
      cases hc'
    exact ⟨c', by rw [Function.update_of_ne hne, hc'], hk⟩

omit [DecidableEq α] in
/-- The record of a key that is forgotten goes; what the other keys name stays. -/
theorem remove (h : Owned f g key) {a : α} (ha : f a = none) {b : β}
    (hb : ∀ c, g b = some c → key c = a) : Owned f (Function.update g b none) key := by
  rintro a' b' hab
  obtain ⟨c, hc, hk⟩ := h a' b' hab
  have hne : b' ≠ b := by
    rintro rfl
    obtain rfl := hk.symm.trans (hb c hc)
    rw [ha] at hab
    cases hab
  exact ⟨c, by rw [Function.update_of_ne hne, hc], hk⟩

end Owned

end WhiteNoise.Registry
