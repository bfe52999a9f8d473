/-
# Calls that return, fail or panic

A fallible call of a language with panics ends in one of three ways: it
returns a value, it returns an error, or it panics and nothing after it runs.
`Outcome` is the monad of such calls; `bind_eq_ok` and `bind_eq_panic` take a
call apart into what each of its parts did, so that a proof about a long
function follows its text and never unfolds the monad. That a call does
not panic and what it returns is carried backwards through its text
(`Meets`, `meets_bind`).

Key definitions: `Outcome`, `Outcome.reject`, `Outcome.okOr`, `Outcome.unwrap`, `Outcome.mapErr`,
`Outcome.Meets`.
Key theorems: `Outcome.bind_eq_ok`, `Outcome.bind_eq_panic`, `Outcome.meets_bind`, `Except.bind_eq_ok`.
-/
import Mathlib.Order.Defs.LinearOrder
import Mathlib.Tactic.Common

/-- How a call ends: with a value, with an error, or in a panic. -/
inductive Outcome (ε α : Type) where
  | ok (a : α)
  | err (e : ε)
  | panic
  deriving DecidableEq, Repr

namespace Outcome

variable {ε α β : Type}

/-- Run `x`, then `f` on what it returned. -/
def bind (x : Outcome ε α) (f : α → Outcome ε β) : Outcome ε β :=
  match x with
  | ok a => f a
  | err e => err e
  | panic => panic

instance : Monad (Outcome ε) where
  pure := ok
  bind := bind

/-- Fail with `e` if `c`: an early `return Err(e)`. -/
def reject (c : Prop) [Decidable c] (e : ε) : Outcome ε Unit := if c then err e else ok ()

/-- The value, or the error `e` for `None`: `Option::ok_or`. -/
def okOr (x : Option α) (e : ε) : Outcome ε α := x.elim (err e) ok

/-- The value, or a panic where there is none. -/
def unwrap (x : Option α) : Outcome ε α := x.elim panic ok

/-- The outcome of a call that does not panic. -/
def ofExcept : Except ε α → Outcome ε α
  | .ok a => ok a
  | .error e => err e

/-- Another error for the error: `Result::map_err`. -/
def mapErr {δ : Type} (f : ε → δ) : Outcome ε α → Outcome δ α
  | ok a => ok a
  | err e => err (f e)
  | panic => panic

/-- The value a call returned, if it did: `Result::ok`. -/
def value : Outcome ε α → Option α
  | ok a => some a
  | err _ => none
  | panic => none

@[simp] theorem value_eq_some {x : Outcome ε α} {a : α} : x.value = some a ↔ x = ok a := by
  cases x <;> simp [value]

@[simp] theorem ofExcept_eq_ok {x : Except ε α} {a : α} : ofExcept x = ok a ↔ x = .ok a := by
  cases x <;> simp [ofExcept]

@[simp] theorem ofExcept_mapError_eq_ok {δ : Type} {f : ε → δ} {x : Except ε α} {a : α} :
    ofExcept (x.mapError f) = ok a ↔ x = .ok a := by
  cases x <;> simp [Except.mapError, ofExcept]

@[simp] theorem ofExcept_ne_panic {x : Except ε α} : ofExcept x ≠ panic := by
  cases x <;> simp [ofExcept]

@[simp] theorem mapErr_eq_ok {δ : Type} {f : ε → δ} {x : Outcome ε α} {a : α} : x.mapErr f = ok a ↔ x = ok a := by
  cases x <;> simp [mapErr]

@[simp] theorem mapErr_eq_panic {δ : Type} {f : ε → δ} {x : Outcome ε α} : x.mapErr f = panic ↔ x = panic := by
  cases x <;> simp [mapErr]

@[simp] theorem pure_eq_ok (a : α) : (pure a : Outcome ε α) = ok a := rfl
@[simp] theorem ok_bind (a : α) (f : α → Outcome ε β) : (ok a >>= f) = f a := rfl
@[simp] theorem err_bind (e : ε) (f : α → Outcome ε β) : (err e >>= f) = err e := rfl
@[simp] theorem panic_bind (f : α → Outcome ε β) : ((panic : Outcome ε α) >>= f) = panic := rfl

theorem bind_assoc {γ : Type} (x : Outcome ε α) (f : α → Outcome ε β) (g : β → Outcome ε γ) :
    (x >>= f) >>= g = x >>= fun a => f a >>= g := by
  cases x <;> rfl

theorem bind_eq_ok {x : Outcome ε α} {f : α → Outcome ε β} {b : β} :
    (x >>= f) = ok b ↔ ∃ a, x = ok a ∧ f a = ok b := by
  cases x <;> simp

/-- A sequence panics when its first part does, or returns and the second
panics. -/
theorem bind_eq_panic {x : Outcome ε α} {f : α → Outcome ε β} :
    (x >>= f) = panic ↔ x = panic ∨ ∃ a, x = ok a ∧ f a = panic := by
  cases x <;> simp

/-- A sequence fails when its first part does, or returns and the second fails. -/
theorem bind_eq_err {x : Outcome ε α} {f : α → Outcome ε β} {e : ε} :
    (x >>= f) = err e ↔ x = err e ∨ ∃ a, x = ok a ∧ f a = err e := by
  cases x <;> simp

theorem check_eq_ok {x : Outcome ε PUnit} {f : PUnit → Outcome ε β} {b : β} :
    (x >>= f) = ok b ↔ x = ok ⟨⟩ ∧ f ⟨⟩ = ok b := by
  cases x <;> simp

theorem forM_eq_ok {l : List α} {f : α → Outcome ε PUnit} {u : PUnit} :
    l.forM f = ok u ↔ ∀ a ∈ l, f a = ok ⟨⟩ := by
  induction l with
  | nil => simp
  | cons a l ih =>
    show (f a >>= fun _ => l.forM f) = ok u ↔ _
    rw [check_eq_ok, ih, List.forall_mem_cons]

theorem option_forM_eq_ok {x : Option α} {f : α → Outcome ε PUnit} {u : PUnit} :
    x.forM f = ok u ↔ ∀ a ∈ x, f a = ok ⟨⟩ := by
  cases x <;> simp [Option.forM]

section Guards

variable {c : Prop} [Decidable c] {e : ε} {x : Option α} {a : α} {u : Unit}

@[simp] theorem reject_eq_ok : reject c e = ok u ↔ ¬ c := by
  unfold reject
  split <;> simp_all

@[simp] theorem reject_eq_err {e' : ε} : reject c e = err e' ↔ c ∧ e = e' := by
  unfold reject
  split <;> simp_all

@[simp] theorem reject_ne_panic : reject c e ≠ panic := by
  unfold reject
  split <;> simp

@[simp] theorem okOr_eq_ok : okOr x e = ok a ↔ x = some a := by
  cases x <;> simp [okOr]

@[simp] theorem okOr_eq_err {e' : ε} : okOr x e = err e' ↔ x = none ∧ e = e' := by
  cases x <;> simp [okOr]

@[simp] theorem okOr_ne_panic : okOr x e ≠ panic := by
  cases x <;> simp [okOr]

@[simp] theorem unwrap_eq_ok : (unwrap x : Outcome ε α) = ok a ↔ x = some a := by
  cases x <;> simp [unwrap]

@[simp] theorem unwrap_ne_err : (unwrap x : Outcome ε α) ≠ err e := by
  cases x <;> simp [unwrap]

@[simp] theorem unwrap_eq_panic : (unwrap x : Outcome ε α) = panic ↔ x = none := by
  cases x <;> simp [unwrap]

end Guards

/-! ### Postconditions -/

/-- The call does not panic, and what it returns is `Q`. -/
def Meets (Q : α → Prop) : Outcome ε α → Prop
  | ok a => Q a
  | err _ => True
  | panic => False

section Meets

variable {Q : β → Prop} {P : α → Prop} {x : Option α} {c : Prop} [Decidable c] {e : ε}

theorem meets_iff {y : Outcome ε α} : y.Meets P ↔ y ≠ panic ∧ ∀ a, y = ok a → P a := by
  cases y <;> simp [Meets]

@[simp] theorem meets_ok {a : α} : (ok a : Outcome ε α).Meets P ↔ P a := Iff.rfl

/-- Of a sequence, the first part meets what the second one needs. -/
theorem meets_bind {y : Outcome ε α} {f : α → Outcome ε β} :
    (y >>= f).Meets Q ↔ y.Meets fun a => (f a).Meets Q := by
  cases y <;> exact Iff.rfl

@[simp] theorem meets_reject {R : Unit → Prop} : (reject c e).Meets R ↔ (¬ c → R ()) := by
  unfold reject
  split <;> simp_all [Meets]

@[simp] theorem meets_unwrap : (unwrap x : Outcome ε α).Meets P ↔ ∃ a, x = some a ∧ P a := by
  cases x <;> simp [unwrap, Meets]

end Meets

end Outcome

/-! ### Calls without panics -/

namespace Except

variable {ε α β : Type}

/-- A sequence returns when both its parts do. -/
theorem bind_eq_ok {x : Except ε α} {f : α → Except ε β} {b : β} :
    (x >>= f) = ok b ↔ ∃ a, x = ok a ∧ f a = ok b := by
  cases x <;> simp [bind, Except.bind]

theorem mapError_eq_ok {δ : Type} {f : ε → δ} {x : Except ε α} {a : α} : x.mapError f = ok a ↔ x = ok a := by
  cases x <;> simp [Except.mapError]

end Except
