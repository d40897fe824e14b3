import CoreC.Log
import CoreC.TypeError

/-!
# Checks

A check either succeeds with a value or fails with the first fault it meets, and in both cases leaves a log of what it did
up to that point. Checks are run one after the other: the second only if the first succeeds, its log behind the first
one's.
-/

namespace CoreC

/-- The result of a check, with the log it leaves. -/
structure Check (α : Type) where
  log : Log
  result : Except TypeError α

namespace Check

variable {α β γ : Type}

/-- Succeed. -/
@[inline] def pure (a : α) : Check α := ⟨[], .ok a⟩

/-- Run one check and, if it succeeds, a second one that may use its value. -/
@[inline] def bind (x : Check α) (f : α → Check β) : Check β :=
  match x.result with
  | .ok a =>
    let y := f a
    ⟨x.log ++ y.log, y.result⟩
  | .error e => ⟨x.log, .error e⟩

/-- Report an event. -/
def emit (event : Event) : Check Unit := ⟨[event], .ok ()⟩

/-- A result that was found without anything to report. -/
def ofExcept (result : Except TypeError α) : Check α := ⟨[], result⟩

instance : Monad Check where
  pure := pure
  bind := bind

instance : MonadExceptOf TypeError Check where
  throw e := ofExcept (.error e)
  tryCatch x handle :=
    match x.result with
    | .ok _ => x
    | .error e =>
      let y := handle e
      ⟨x.log ++ y.log, y.result⟩

instance : MonadLift (Except TypeError) Check := ⟨ofExcept⟩

/-! ## The two views of a check -/

/-- A result is a check that reports nothing. -/
@[simp] theorem liftM_eq (r : Except TypeError α) : (liftM r : Check α) = ofExcept r := rfl

/-- Checks with the same log and the same result are the same. -/
@[ext] theorem ext {x y : Check α} (hl : x.log = y.log) (hr : x.result = y.result) : x = y := by
  cases x
  cases y
  simp_all

/-- A check that only succeeds leaves no log, and neither does one that only fails. -/
@[simp] theorem log_pure (a : α) : (Pure.pure a : Check α).log = [] := rfl

@[simp] theorem result_pure (a : α) : (Pure.pure a : Check α).result = .ok a := rfl

@[simp] theorem log_throw (e : TypeError) : (throw e : Check α).log = [] := rfl

@[simp] theorem result_throw (e : TypeError) : (throw e : Check α).result = .error e := rfl

/-- An event is left in the log. -/
@[simp] theorem log_emit (event : Event) : (emit event).log = [event] := rfl

@[simp] theorem result_emit (event : Event) : (emit event).result = .ok () := rfl

/-- A result leaves no log. -/
@[simp] theorem log_ofExcept (r : Except TypeError α) : (ofExcept r).log = [] := rfl

@[simp] theorem result_ofExcept (r : Except TypeError α) : (ofExcept r).result = r := rfl

/-- The result of two checks is that of the chain of their results. -/
theorem result_bind (x : Check α) (f : α → Check β) : (x >>= f).result = x.result >>= fun a => (f a).result := by
  simp only [Bind.bind, bind, Except.bind]
  split <;> simp_all

/-- The log of two checks is that of the first one, with that of the second one behind it if there is one. -/
theorem log_bind (x : Check α) (f : α → Check β) :
    (x >>= f).log = x.log ++ (match x.result with | .ok a => (f a).log | .error _ => []) := by
  simp only [Bind.bind, bind]
  split <;> simp_all

instance : LawfulMonad Check := LawfulMonad.mk' Check
  (by
    intro α x
    apply ext <;> simp only [Functor.map, bind] <;> split <;> simp_all [pure])
  (by
    intro α β a f
    apply ext <;> simp [Bind.bind, Pure.pure, bind, pure])
  (by
    intro α β γ x f g
    apply ext <;> simp only [Bind.bind, bind] <;> cases x.result <;> simp <;> split <;> simp)

end Check

end CoreC
