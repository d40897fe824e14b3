import Mathlib.Data.List.Induction
import CoreC.Proofs.Typing.Results

/-!
# Runs of statements

A sequence puts two statements one behind the other, and either of them may be a sequence again, so one run of statements can
be bracketed in many ways. The check does not tell them apart. It goes through the statements that are no sequences from left
to right (`Stmt.flatten`), checks each in the scope that those before it leave, and stops at the first fault or in front of
the first statement that is behind one that returns (`Stmt.checkRun`). The log it leaves is the same for every bracketing,
too: a sequence reports nothing of its own.
-/

namespace CoreC

/-- The statements of a run, one behind the other: those that the sequences of a statement hold together. -/
def Stmt.flatten : Stmt → List Stmt
  | .seq first second => first.flatten ++ second.flatten
  | s => [s]

/-- Check a statement behind others, of which the outcome is known. -/
def Stmt.checkNext (g : Globals) (returnType : Ty) (inLoop : Bool) (o : Outcome) (s : Stmt) : Check Outcome :=
  if o.returns then
    throw .unreachableCode
  else
    s.check g returnType inLoop o.scope

/-- Check some statements one after the other, each in the scope that those before it leave. -/
def Stmt.checkRun (g : Globals) (returnType : Ty) (inLoop : Bool) (Γ : Scope) (statements : List Stmt) : Check Outcome :=
  statements.foldlM (Stmt.checkNext g returnType inLoop) ⟨Γ, false⟩

namespace SequencesAux

variable {g : Globals} {returnType : Ty} {inLoop : Bool}

/-- Nothing is reached behind statements that return. -/
theorem checkNext_of_returns {o : Outcome} (ho : o.returns = true) (s : Stmt) :
    Stmt.checkNext g returnType inLoop o s = throw .unreachableCode := by
  rw [Stmt.checkNext, if_pos ho]

theorem checkNext_of_not_returns {o : Outcome} (ho : o.returns = false) (s : Stmt) :
    Stmt.checkNext g returnType inLoop o s = s.check g returnType inLoop o.scope := by
  rw [Stmt.checkNext, if_neg (Bool.eq_false_iff.1 ho)]

/-- A statement behind others fails if they return, or with a fault of its own. -/
theorem result_checkNext_eq_error_iff {o : Outcome} {s : Stmt} {e : TypeError} :
    (s.checkNext g returnType inLoop o).result = .error e ↔
      o.returns = true ∧ e = .unreachableCode ∨
        o.returns = false ∧ (s.check g returnType inLoop o.scope).result = .error e := by
  cases ho : o.returns with
  | true => simp [checkNext_of_returns ho, eq_comm]
  | false => simp [checkNext_of_not_returns ho]

/-- A sequence is checked as its second statement behind its first one. -/
theorem check_seq (Γ : Scope) (first second : Stmt) :
    (Stmt.seq first second).check g returnType inLoop Γ =
      first.check g returnType inLoop Γ >>= fun o => second.checkNext g returnType inLoop o := by
  rw [Stmt.check]
  rfl

/-- A sequence behind other statements is its two statements behind them, one after the other. -/
theorem checkNext_seq (o : Outcome) (first second : Stmt) :
    (Stmt.seq first second).checkNext g returnType inLoop o =
      first.checkNext g returnType inLoop o >>= fun o' => second.checkNext g returnType inLoop o' := by
  cases ho : o.returns with
  | true =>
    -- the first statement is not reached, so the second one is not either
    rw [checkNext_of_returns ho, checkNext_of_returns ho]
    rfl
  | false => rw [checkNext_of_not_returns ho, checkNext_of_not_returns ho, check_seq]

/-- A statement behind others is checked as the run of its statements. -/
theorem foldlM_flatten (s : Stmt) (o : Outcome) :
    s.flatten.foldlM (Stmt.checkNext g returnType inLoop) o = s.checkNext g returnType inLoop o := by
  induction s generalizing o with
  | seq first second ihFirst ihSecond =>
    rw [Stmt.flatten, List.foldlM_append, ihFirst, checkNext_seq]
    congr 1
    funext o'
    exact ihSecond o'
  | _ => exact bind_pure _

/-- Statements are checked as the run of all their statements. -/
theorem foldlM_flatMap_flatten (statements : List Stmt) (o : Outcome) :
    (statements.flatMap Stmt.flatten).foldlM (Stmt.checkNext g returnType inLoop) o =
      statements.foldlM (Stmt.checkNext g returnType inLoop) o := by
  induction statements generalizing o with
  | nil => rfl
  | cons s statements ih =>
    rw [List.flatMap_cons, List.foldlM_append, foldlM_flatten, List.foldlM_cons]
    congr 1
    funext o'
    exact ih o'

/-- A statement is checked as the run of its statements. -/
theorem check_eq_checkRun (Γ : Scope) (s : Stmt) :
    s.check g returnType inLoop Γ = Stmt.checkRun g returnType inLoop Γ s.flatten := by
  rw [Stmt.checkRun, foldlM_flatten, checkNext_of_not_returns rfl]

/-- Statements that are taken off the end of a list stand in front of what there is in the order of the list. -/
theorem nest_toArray (statements : List Stmt) (result : Stmt) :
    Stmt.nest statements.toArray result = statements.foldr Stmt.seq result := by
  -- the loop goes from the end of the list, so the induction does
  induction statements using List.reverseRecOn generalizing result with
  | nil =>
    rw [Stmt.nest]
    rfl
  | append_singleton statements last ih =>
    rw [Stmt.nest]
    simp [ih]

/-- A run is put together from its last statement. -/
theorem sequence_append_singleton (first : Stmt) (statements : List Stmt) (last : Stmt) :
    Stmt.sequence first (statements ++ [last]) = .seq first (statements.foldr Stmt.seq last) := by
  simp [Stmt.sequence, nest_toArray]

/-- A run of two statements or more is its first one in front of the run of the others. -/
theorem sequence_cons (first next : Stmt) (rest : List Stmt) :
    Stmt.sequence first (next :: rest) = .seq first (Stmt.sequence next rest) := by
  rcases List.eq_nil_or_concat rest with rfl | ⟨statements, last, rfl⟩
  · exact sequence_append_singleton first [] next
  · rw [List.concat_eq_append, ← List.cons_append, sequence_append_singleton, sequence_append_singleton, List.foldr_cons]

/-- A run of statements has the statements of each of them, in order. -/
theorem flatten_sequence (first : Stmt) (rest : List Stmt) :
    (Stmt.sequence first rest).flatten = (first :: rest).flatMap Stmt.flatten := by
  induction rest generalizing first with
  | nil =>
    rw [List.flatMap_cons, List.flatMap_nil, List.append_nil]
    rfl
  | cons next rest ih => rw [sequence_cons, Stmt.flatten, ih, ← List.flatMap_cons]

/-- A run fails at one of its statements behind those that pass: they return, or it has a fault of its own. -/
theorem checkRun_eq_error_iff (Γ : Scope) (statements : List Stmt) (e : TypeError) :
    (Stmt.checkRun g returnType inLoop Γ statements).result = .error e ↔
      ∃ before s behind o, statements = before ++ s :: behind ∧
        (Stmt.checkRun g returnType inLoop Γ before).result = .ok o ∧
        (o.returns = true ∧ e = .unreachableCode ∨
          o.returns = false ∧ (s.check g returnType inLoop o.scope).result = .error e) := by
  simp only [Stmt.checkRun, Check.foldlM_eq_error_iff, result_checkNext_eq_error_iff]

end SequencesAux

open SequencesAux

/-- How a run of statements is bracketed does not matter. Two statements whose sequences hold the same statements together in
the same order have the same check, result and log. A sequence made of a list is checked as the statements of the list one
after the other, each in the scope that those before it leave; and such a run fails with the first fault of one of its
statements, or with unreachable code as soon as one that is not the last returns. -/
theorem Stmt.check_bracketing (g : Globals) (returnType : Ty) (inLoop : Bool) (Γ : Scope) :
    (∀ s t : Stmt, s.flatten = t.flatten → s.check g returnType inLoop Γ = t.check g returnType inLoop Γ) ∧
    (∀ (first : Stmt) (rest : List Stmt), (Stmt.sequence first rest).check g returnType inLoop Γ =
      Stmt.checkRun g returnType inLoop Γ (first :: rest)) ∧
    ∀ (statements : List Stmt) (e : TypeError), (Stmt.checkRun g returnType inLoop Γ statements).result = .error e ↔
      ∃ before s behind o, statements = before ++ s :: behind ∧
        (Stmt.checkRun g returnType inLoop Γ before).result = .ok o ∧
        (o.returns = true ∧ e = .unreachableCode ∨
          o.returns = false ∧ (s.check g returnType inLoop o.scope).result = .error e) := by
  refine ⟨?_, ?_, ?_⟩
  · intro s t h
    rw [check_eq_checkRun, check_eq_checkRun, h]
  · intro first rest
    rw [check_eq_checkRun, flatten_sequence, Stmt.checkRun, foldlM_flatMap_flatten, ← Stmt.checkRun]
  · intro statements e
    exact checkRun_eq_error_iff Γ statements e

namespace SequencesAux

/-- Three statements, with the first two in a sequence of their own. -/
def bracketedLeft (first second third : Stmt) : Stmt :=
  .seq (.seq first second) third

/-- Three statements, with the last two in a sequence of their own. -/
def bracketedRight (first second third : Stmt) : Stmt :=
  .seq first (.seq second third)

/-- The declaration of a variable `x`. -/
def declareX : Stmt := .declare ⟨.int, ⟨"x"⟩⟩ (.int 1)

/-- The declaration of a variable `y`, for which there has to be an `x`. -/
def declareY : Stmt := .declare ⟨.int, ⟨"y"⟩⟩ (.var ⟨"x"⟩)

/-- The scope of `x` and `y`. -/
def scopeXY : Scope := ((∅ : Scope).extend ⟨.int, ⟨"x"⟩⟩).extend ⟨.int, ⟨"y"⟩⟩

end SequencesAux

/-- Three runs with either bracketing, and as the sequence of a list. One passes: what is declared first can be used behind it
and is handed on to the end. One has a stray `break`, which is found in front of the `return` behind it. In the last one the
`return` comes first, so that the `break` is not reached. -/
theorem Stmt.check_bracketing_right :
    (bracketedLeft declareX declareY (.expr (.var ⟨"y"⟩))).flatten =
      (bracketedRight declareX declareY (.expr (.var ⟨"y"⟩))).flatten ∧
    ((bracketedLeft declareX declareY (.expr (.var ⟨"y"⟩))).check {} .void false ∅).result = .ok ⟨scopeXY, false⟩ ∧
    ((bracketedRight declareX declareY (.expr (.var ⟨"y"⟩))).check {} .void false ∅).result = .ok ⟨scopeXY, false⟩ ∧
    ((Stmt.sequence declareX [declareY, .expr (.var ⟨"y"⟩)]).check {} .void false ∅).result = .ok ⟨scopeXY, false⟩ ∧
    ((bracketedLeft declareX .breakLoop .returnVoid).check {} .void false ∅).result = .error .breakOutsideLoop ∧
    ((bracketedRight declareX .breakLoop .returnVoid).check {} .void false ∅).result = .error .breakOutsideLoop ∧
    ((Stmt.sequence declareX [.breakLoop, .returnVoid]).check {} .void false ∅).result = .error .breakOutsideLoop ∧
    ((bracketedLeft declareX .returnVoid .breakLoop).check {} .void false ∅).result = .error .unreachableCode ∧
    ((bracketedRight declareX .returnVoid .breakLoop).check {} .void false ∅).result = .error .unreachableCode ∧
    ((Stmt.sequence declareX [.returnVoid, .breakLoop]).check {} .void false ∅).result = .error .unreachableCode := by
  obtain ⟨hbracketing, hsequence, -⟩ := Stmt.check_bracketing {} .void false ∅
  have hflatten : ∀ first second third : Stmt,
      (bracketedLeft first second third).flatten = (bracketedRight first second third).flatten :=
    fun first second third => List.append_assoc first.flatten second.flatten third.flatten
  have hpasses : ((bracketedLeft declareX declareY (.expr (.var ⟨"y"⟩))).check {} .void false ∅).result =
      .ok ⟨scopeXY, false⟩ := rfl
  have hstray : ((bracketedLeft declareX .breakLoop .returnVoid).check {} .void false ∅).result =
      .error .breakOutsideLoop := rfl
  have hdead : ((bracketedLeft declareX .returnVoid .breakLoop).check {} .void false ∅).result =
      .error .unreachableCode := rfl
  refine ⟨hflatten _ _ _, hpasses, ?_, ?_, hstray, ?_, ?_, hdead, ?_, ?_⟩
  · rw [← hbracketing _ _ (hflatten _ _ _)]
    exact hpasses
  · rw [hsequence]
    rfl
  · rw [← hbracketing _ _ (hflatten _ _ _)]
    exact hstray
  · rw [hsequence]
    rfl
  · rw [← hbracketing _ _ (hflatten _ _ _)]
    exact hdead
  · rw [hsequence]
    rfl

end CoreC
