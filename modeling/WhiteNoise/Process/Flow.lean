import WhiteNoise.Process.Pool
import Mathlib.Data.List.Basic

/-! # Queues as flows

What is put at the end of a queue and what is taken from its head determine each
other up to what is still in it. The equation is kept when queues are put one
behind the other and when only some of the elements are looked at, and it adds
up along a run.
-/

namespace WhiteNoise.Process

variable {α β : Type}

/-- With `put` behind the elements of `q` and `taken` from their head, `q'` is left. -/
def Flow (taken put q q' : List α) : Prop := q ++ put = taken ++ q'

namespace Flow

variable {t t' p p' q q' q'' : List α}

theorem refl (q : List α) : Flow [] [] q q := List.append_nil q

theorem put (p q : List α) : Flow [] p q (q ++ p) := rfl

theorem take (t q : List α) : Flow t [] (t ++ q) q := List.append_nil _

theorem trans (h : Flow t p q q') (h' : Flow t' p' q' q'') : Flow (t ++ t') (p ++ p') q q'' := by
  calc q ++ (p ++ p') = t ++ q' ++ p' := by rw [← List.append_assoc, h]
    _ = t ++ t' ++ q'' := by rw [List.append_assoc, h', List.append_assoc]

/-- What is taken from the second queue is put at the end of the first. -/
theorem serial {r r' : List α} (h : Flow t p r r') (h' : Flow p p' q q') :
    Flow t p' (r ++ q) (r' ++ q') := by
  calc r ++ q ++ p' = r ++ p ++ q' := by rw [List.append_assoc, h', List.append_assoc]
    _ = t ++ (r' ++ q') := by rw [h, List.append_assoc]

theorem filterMap (f : α → Option β) (h : Flow t p q q') :
    Flow (t.filterMap f) (p.filterMap f) (q.filterMap f) (q'.filterMap f) := by
  rw [Flow, ← List.filterMap_append, h, List.filterMap_append]

end Flow

/-! ## Along a run -/

variable {σ ε ω : Type} {step : σ → ε → Option (σ × List ω)}

/-- The flows of the steps add up to the flow of the run. -/
theorem run_flow (view : σ → List α) (put : List ε → List ω → List α) (taken : List ω → List α)
    (hput₀ : put [] [] = [])
    (hput : ∀ es e os o, put (es ++ [e]) (os ++ o) = put es os ++ put [e] o)
    (htaken₀ : taken [] = []) (htaken : ∀ os o, taken (os ++ o) = taken os ++ taken o)
    (hs : ∀ s e s' o, step s e = some (s', o) →
      Flow (taken o) (put [e] o) (view s) (view s'))
    {s s' : σ} {es : List ε} {os : List ω} (h : run step s es = some (s', os)) :
    Flow (taken os) (put es os) (view s) (view s') := by
  refine run_induction (P := fun es t os => Flow (taken os) (put es os) (view s) (view t)) ?_ ?_ h
  · rw [hput₀, htaken₀]
    exact .refl _
  · intro es t os e t' o hflow he
    rw [hput, htaken]
    exact hflow.trans (hs t e t' o he)

end WhiteNoise.Process
