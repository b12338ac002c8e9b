import Mathlib.Logic.Function.Basic
import Mathlib.Data.Nat.Notation

/-! # Programs over a shared state

An asynchronous function is a tree of operations. One operation is either a
single lock acquisition on the shared state or a request to the environment,
so the nodes of the tree are exactly the places where another task may run.
-/

namespace WhiteNoise.Process

variable {S A : Type} {R : A → Type} {α β γ : Type}

/-- A program over the shared state `S` whose requests `a : A` are answered in `R a`.
`atomic f k` holds a lock once: it leaves `f s` and continues as `k s`.
`fail` is a failing unwrap. -/
inductive Prog (S : Type) {A : Type} (R : A → Type) (α : Type) : Type where
  | ret (a : α)
  | fail
  | atomic (f : S → S) (k : S → Prog S R α)
  | act (a : A) (k : R a → Prog S R α)

namespace Prog

/-- Run the first program, then continue with its result. -/
def bind : Prog S R α → (α → Prog S R β) → Prog S R β
  | ret a, g => g a
  | fail, _ => fail
  | atomic f k, g => atomic f fun s => (k s).bind g
  | act a k, g => act a fun r => (k r).bind g

instance : Monad (Prog S R) where
  pure := ret
  bind := bind

@[simp] theorem pure_eq (a : α) : (pure a : Prog S R α) = ret a := rfl

@[simp] theorem bind_eq (p : Prog S R α) (g : α → Prog S R β) : p.bind g = (p >>= g) := rfl

@[simp] theorem ret_bind (a : α) (g : α → Prog S R β) : (ret a >>= g) = g a := rfl

@[simp] theorem fail_bind (g : α → Prog S R β) : ((fail : Prog S R α) >>= g) = fail := rfl

@[simp] theorem atomic_bind (f : S → S) (k : S → Prog S R α) (g : α → Prog S R β) :
    (atomic f k >>= g) = atomic f fun s => k s >>= g := rfl

@[simp] theorem act_bind (a : A) (k : R a → Prog S R α) (g : α → Prog S R β) :
    (act a k >>= g) = act a fun r => k r >>= g := rfl

theorem bind_ret (p : Prog S R α) : (p >>= ret) = p := by
  induction p with
  | ret a => rfl
  | fail => rfl
  | atomic f k ih => exact congrArg (atomic f) (funext ih)
  | act a k ih => exact congrArg (act a) (funext ih)

theorem bind_assoc (p : Prog S R α) (g : α → Prog S R β) (h : β → Prog S R γ) :
    (p >>= g >>= h) = (p >>= fun a => g a >>= h) := by
  induction p with
  | ret a => rfl
  | fail => rfl
  | atomic f k ih => exact congrArg (atomic f) (funext ih)
  | act a k ih => exact congrArg (act a) (funext ih)

instance : LawfulMonad (Prog S R) :=
  LawfulMonad.mk' _ bind_ret (fun _ _ => rfl) bind_assoc

/-- Hold the lock once and only look. -/
def read (g : S → α) : Prog S R α := atomic id fun s => ret (g s)

/-- Hold the lock once and replace the state. -/
def write (f : S → S) : Prog S R Unit := atomic f fun _ => ret ()

/-- Hold the lock once, replace the state and return a view of the old one. -/
def update (f : S → S) (g : S → α) : Prog S R α := atomic f fun s => ret (g s)

/-- Ask the environment. -/
def call (a : A) : Prog S R (R a) := act a ret

/-- The value of an option, or a failing unwrap. -/
def unwrap : Option α → Prog S R α
  | some a => ret a
  | none => fail

@[simp] theorem read_bind (g : S → α) (h : α → Prog S R β) :
    (read g >>= h) = atomic id fun s => h (g s) := rfl

@[simp] theorem write_bind (f : S → S) (h : Unit → Prog S R β) :
    (write f >>= h) = atomic f fun _ => h () := rfl

@[simp] theorem update_bind (f : S → S) (g : S → α) (h : α → Prog S R β) :
    (update f g >>= h) = atomic f fun s => h (g s) := rfl

@[simp] theorem call_bind (a : A) (h : R a → Prog S R β) :
    (call a >>= h) = act a h := rfl

@[simp] theorem unwrap_some (a : α) : (unwrap (some a) : Prog S R α) = ret a := rfl

@[simp] theorem unwrap_none : (unwrap none : Prog S R α) = fail := rfl

/-- Every state change the program can make is in `U`, every request in `V`
and every result in `Q`. -/
def Within (U : (S → S) → Prop) (V : A → Prop) (Q : α → Prop) : Prog S R α → Prop
  | ret a => Q a
  | fail => True
  | atomic f k => U f ∧ ∀ s, (k s).Within U V Q
  | act a k => V a ∧ ∀ r, (k r).Within U V Q

theorem Within.bind {U : (S → S) → Prop} {V : A → Prop} {Q : β → Prop}
    {p : Prog S R α} {g : α → Prog S R β}
    (h : p.Within U V fun a => (g a).Within U V Q) : (p >>= g).Within U V Q := by
  induction p with
  | ret a => exact h
  | fail => trivial
  | atomic f k ih => exact ⟨h.1, fun s => ih s (h.2 s)⟩
  | act a k ih => exact ⟨h.1, fun r => ih r (h.2 r)⟩

theorem Within.mono {U U' : (S → S) → Prop} {V V' : A → Prop} {Q Q' : α → Prop}
    (hU : ∀ f, U f → U' f) (hV : ∀ a, V a → V' a) (hQ : ∀ a, Q a → Q' a)
    {p : Prog S R α} (h : p.Within U V Q) : p.Within U' V' Q' := by
  induction p with
  | ret a => exact hQ a h
  | fail => trivial
  | atomic f k ih => exact ⟨hU f h.1, fun s => ih s (h.2 s)⟩
  | act a k ih => exact ⟨hV a h.1, fun r => ih r (h.2 r)⟩

/-- The program can come to make the request, if every request is answered within `ok` and the
state is anything at each lock. -/
def Issues (ok : (a : A) → R a → Prop) (b : A) : Prog S R α → Prop
  | ret _ => False
  | fail => False
  | atomic _ k => ∃ s, (k s).Issues ok b
  | act a k => a = b ∨ ∃ r, ok a r ∧ (k r).Issues ok b

end Prog

end WhiteNoise.Process
