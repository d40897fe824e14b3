import Mathlib.Logic.Relation
import CoreC.Proofs.Syntax.Nodes
import CoreC.Proofs.Typing.Results

/-!
# The way through a statement

The check of a statement goes from the statement to its parts and on to theirs, as far as all passes. Each statement on the
way is checked inside a loop or not and in a scope of its own (`Stmt.Site`). A statement that passes is gone through to the
last statement in it, and each of them passes where it is checked; those outside its loops are checked inside a loop only if
it is.
-/

namespace CoreC

/-- A statement where it is checked: inside a loop or not, and in which scope. -/
structure Stmt.Site where
  inLoop : Bool
  scope : Scope
  stmt : Stmt

namespace Stmt.Site

/-- The check of a site. -/
def check (g : Globals) (returnType : Ty) (site : Site) : Check Outcome :=
  site.stmt.check g returnType site.inLoop site.scope

/-- The check of one site turns to another one: to a branch, to the body of a loop or to a statement of a sequence, as soon
as all in front of it has passed. -/
inductive TurnsTo (g : Globals) (returnType : Ty) : Site → Site → Prop where
  | thenBranch {inLoop : Bool} {Γ : Scope} {condition : Expr} {thenBranch elseBranch : Stmt} :
      (condition.checkCondition g Γ).result = .ok () →
      TurnsTo g returnType ⟨inLoop, Γ, .ifElse condition thenBranch elseBranch⟩ ⟨inLoop, Γ, thenBranch⟩
  | elseBranch {inLoop : Bool} {Γ : Scope} {condition : Expr} {thenBranch elseBranch : Stmt} {o : Outcome} :
      (condition.checkCondition g Γ).result = .ok () → (thenBranch.check g returnType inLoop Γ).result = .ok o →
      TurnsTo g returnType ⟨inLoop, Γ, .ifElse condition thenBranch elseBranch⟩ ⟨inLoop, Γ, elseBranch⟩
  | body {inLoop : Bool} {Γ : Scope} {condition : Expr} {body : Stmt} :
      (condition.checkCondition g Γ).result = .ok () →
      TurnsTo g returnType ⟨inLoop, Γ, .whileDo condition body⟩ ⟨true, Γ, body⟩
  | first {inLoop : Bool} {Γ : Scope} {first second : Stmt} :
      TurnsTo g returnType ⟨inLoop, Γ, .seq first second⟩ ⟨inLoop, Γ, first⟩
  | second {inLoop : Bool} {Γ : Scope} {first second : Stmt} {o : Outcome} :
      (first.check g returnType inLoop Γ).result = .ok o → o.returns = false →
      TurnsTo g returnType ⟨inLoop, Γ, .seq first second⟩ ⟨inLoop, o.scope, second⟩

/-- The check of one site gets to another one. -/
def Reaches (g : Globals) (returnType : Ty) : Site → Site → Prop :=
  Relation.ReflTransGen (TurnsTo g returnType)

variable {g : Globals} {returnType : Ty}

/-- The check of a statement that passes turns to each of its parts, and the part passes there. A part of a loop is inside a
loop, any other part only if the statement is. -/
theorem exists_turnsTo_of_mem_parts {s part : Stmt} {inLoop : Bool} {Γ : Scope} {o : Outcome}
    (h : (s.check g returnType inLoop Γ).result = .ok o) (hpart : part ∈ s.parts) :
    ∃ Γ' o', TurnsTo g returnType ⟨inLoop, Γ, s⟩ ⟨s.isLoop || inLoop, Γ', part⟩ ∧
      (part.check g returnType (s.isLoop || inLoop) Γ').result = .ok o' := by
  cases s with
  | ifElse condition thenBranch elseBranch =>
    simp only [result_check_ifElse, Check.bind_eq_ok_iff] at h
    obtain ⟨_, hc, o₁, h₁, o₂, h₂, -⟩ := h
    rcases List.mem_cons.1 hpart with rfl | hpart
    · exact ⟨Γ, o₁, .thenBranch hc, h₁⟩
    · rw [List.mem_singleton.1 hpart]
      exact ⟨Γ, o₂, .elseBranch hc h₁, h₂⟩
  | whileDo condition body =>
    simp only [result_check_whileDo, Check.bind_eq_ok_iff] at h
    obtain ⟨_, hc, o₁, h₁, -⟩ := h
    rw [List.mem_singleton.1 hpart]
    exact ⟨Γ, o₁, .body hc, h₁⟩
  | seq first second =>
    obtain ⟨o₁, h₁, hreturns, h₂⟩ := result_check_seq_eq_ok_iff.1 h
    rcases List.mem_cons.1 hpart with rfl | hpart
    · exact ⟨Γ, o₁, .first, h₁⟩
    · rw [List.mem_singleton.1 hpart]
      exact ⟨o₁.scope, o, .second h₁ hreturns, h₂⟩
  | _ => cases hpart

/-- The check of a statement that passes gets to every statement in it, and that statement passes there. -/
theorem exists_passes_of_mem_nodes {s s' : Stmt} {inLoop : Bool} {Γ : Scope} {o : Outcome}
    (h : (s.check g returnType inLoop Γ).result = .ok o) (hs : .stmt s' ∈ s.nodes) :
    ∃ inLoop' Γ' o', Reaches g returnType ⟨inLoop, Γ, s⟩ ⟨inLoop', Γ', s'⟩ ∧
      (s'.check g returnType inLoop' Γ').result = .ok o' := by
  induction s using Stmt.induction_on_parts generalizing inLoop Γ o with
  | step s ih =>
    rcases Stmt.stmt_mem_nodes_iff.1 hs with rfl | ⟨part, hpart, hs⟩
    · exact ⟨inLoop, Γ, o, .refl, h⟩
    · obtain ⟨Γ₁, o₁, hturn, h₁⟩ := exists_turnsTo_of_mem_parts h hpart
      obtain ⟨inLoop', Γ', o', hreaches, h'⟩ := ih part hpart h₁ hs
      exact ⟨inLoop', Γ', o', hreaches.head hturn, h'⟩

/-- The check of a statement that passes gets to every statement in it. -/
theorem exists_reaches_of_mem_nodes {g : Globals} {returnType : Ty} (s : Stmt) {inLoop : Bool} {Γ : Scope} {o : Outcome}
    (h : (s.check g returnType inLoop Γ).result = .ok o) {s' : Stmt} (hs : .stmt s' ∈ s.nodes) :
    ∃ inLoop' Γ', Reaches g returnType ⟨inLoop, Γ, s⟩ ⟨inLoop', Γ', s'⟩ := by
  obtain ⟨inLoop', Γ', _, hreaches, -⟩ := exists_passes_of_mem_nodes h hs
  exact ⟨inLoop', Γ', hreaches⟩

/-- The statements outside the loops of a statement that passes pass as well, inside a loop only if it is. -/
theorem exists_passes_of_mem_unlooped {s s' : Stmt} {inLoop : Bool} {Γ : Scope} {o : Outcome}
    (h : (s.check g returnType inLoop Γ).result = .ok o) (hs : s' ∈ s.unlooped) :
    ∃ Γ' o', (s'.check g returnType inLoop Γ').result = .ok o' := by
  induction s using Stmt.induction_on_parts generalizing Γ o with
  | step s ih =>
    rcases Stmt.mem_unlooped_iff.1 hs with rfl | ⟨hloop, part, hpart, hs⟩
    · exact ⟨Γ, o, h⟩
    · obtain ⟨Γ₁, o₁, -, h₁⟩ := exists_turnsTo_of_mem_parts h hpart
      rw [hloop, Bool.false_or] at h₁
      exact ih part hpart h₁ hs

end Stmt.Site

end CoreC
