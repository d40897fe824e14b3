import CoreC.Proofs.Flow.Returns
import CoreC.Proofs.Typing.Sites

/-!
# Dead code

The second statement of a sequence is reported as unreachable if the checker says of the first one that it returns. Here
these reports are compared with the paths through the first statement: what is reported can never run, and what is not
reported is not behind a statement that always returns. It can still be behind one that is always left by a `break` or a
`continue`; where there are none, what is not reported can be reached.
-/

namespace CoreC

/-! ## Paths that break or continue -/

/-- A path can leave in this way by one of these statements; at the end or by a `return` it can in any case. -/
def Exit.OpenIn (statements : List Stmt) : Exit → Prop
  | .normal | .returns => True
  | .breaks => .breakLoop ∈ statements
  | .continues => .continueLoop ∈ statements

theorem Exit.OpenIn.mono {statements statements' : List Stmt} (h : statements ⊆ statements') {x : Exit}
    (hx : x.OpenIn statements) : x.OpenIn statements' := by
  cases x with
  | normal | returns => trivial
  | breaks => exact h hx
  | continues => exact h hx

/-- A path leaves a statement by a `break` or a `continue` only if there is one outside its loops. -/
theorem Stmt.Ends.openIn_unlooped {s : Stmt} {x : Exit} (h : s.Ends x) : x.OpenIn s.unlooped := by
  induction h with
  | expr | declare | assign | free | loopDone | loopBreak | loopReturn | returnVoid | returnValue => trivial
  | ifThen _ _ _ ih => exact ih.mono (Stmt.unlooped_subset_of_mem_parts rfl (by simp [Stmt.parts]))
  | ifElse _ _ _ ih => exact ih.mono (Stmt.unlooped_subset_of_mem_parts rfl (by simp [Stmt.parts]))
  | loopNormal _ _ _ ih => exact ih
  | loopContinue _ _ _ ih => exact ih
  | breakLoop => exact List.mem_singleton_self _
  | continueLoop => exact List.mem_singleton_self _
  | seqNormal _ _ _ ih => exact ih.mono (Stmt.unlooped_subset_of_mem_parts rfl (by simp [Stmt.parts]))
  | seqExit _ _ _ ih => exact ih.mono (Stmt.unlooped_subset_of_mem_parts rfl (by simp [Stmt.parts]))

/-- Where no `break` and no `continue` is stray, a path reaches the end or returns. -/
theorem Stmt.Ends.normal_or_returns {s : Stmt} {x : Exit} (h : s.Ends x) (hs : s.NoStray) :
    x = .normal ∨ x = .returns := by
  have hopen := h.openIn_unlooped
  cases x with
  | normal => exact Or.inl rfl
  | returns => exact Or.inr rfl
  | breaks => exact absurd hopen hs.1
  | continues => exact absurd hopen hs.2

namespace Flow

variable {g : Globals} {returnType : Ty} {inLoop : Bool} {Γ : Scope} {s first second : Stmt}

/-! ## The sequences of a statement -/

/-- The first statement of a sequence in a statement that passes can be left without a `return`. -/
theorem exists_ends_of_passes {o : Outcome} (h : (s.check g returnType inLoop Γ).result = .ok o)
    (hseq : .stmt (.seq first second) ∈ s.nodes) : ∃ x, first.Ends x ∧ x ≠ .returns := by
  obtain ⟨_, _, _, -, hpasses⟩ := Stmt.Site.exists_passes_of_mem_nodes h hseq
  obtain ⟨o₁, hfirst, hreturns, -⟩ := Stmt.result_check_seq_eq_ok_iff.1 hpasses
  obtain ⟨x, hx, hends⟩ := (answers_of_check hfirst).noReturn hreturns
  exact ⟨x, hends, hx⟩

/-- The first statement of a sequence in a statement without a `break` or a `continue` has none that is stray. -/
theorem noStray_first (hseq : .stmt (.seq first second) ∈ s.nodes) (hbreak : .stmt .breakLoop ∉ s.nodes)
    (hcontinue : .stmt .continueLoop ∉ s.nodes) : first.NoStray := by
  have hpart : .stmt first ∈ (Stmt.seq first second).nodes :=
    Stmt.stmt_mem_nodes_iff.2 (Or.inr ⟨first, List.mem_cons_self, first.mem_nodes_self⟩)
  exact Stmt.noStray_of_mem_nodes (Stmt.mem_nodes_trans hseq hpart) hbreak hcontinue

/-- Where code is reported to be unreachable, there is a sequence whose first statement never reaches its end. -/
theorem exists_seq_of_unreachable (h : (s.check g returnType inLoop Γ).result = .error .unreachableCode) :
    ∃ first second, .stmt (.seq first second) ∈ s.nodes ∧ ¬first.Ends .normal := by
  obtain ⟨first, second, _, _, o, hseq, hfirst, hreturns⟩ := Faults.ofStmt_of_check h
  exact ⟨first, second, hseq, (answers_of_check hfirst).noNormal hreturns⟩

end Flow

/-- A sequence whose first statement never reaches its end has the paths of that statement and no others. -/
theorem Stmt.ends_seq_of_not_normal {first second : Stmt} (h : ¬first.Ends .normal) (x : Exit) :
    (Stmt.seq first second).Ends x ↔ first.Ends x := by
  rw [Stmt.ends_seq_iff]
  constructor
  · rintro (⟨hnormal, -⟩ | ⟨hx, -⟩)
    · exact absurd hnormal h
    · exact hx
  · intro hx
    refine Or.inr ⟨hx, ?_⟩
    rintro rfl
    exact h hx

/-- Reports of dead code are exact. In a statement that passes, the first statement of every sequence has a path that does not
end in a `return`; if the whole has no `break` and no `continue`, one that reaches its end, so that every path through the
second statement is the rest of a path through the sequence. Where code is reported to be unreachable, the first statement of
some sequence has no path that reaches its end, so that the second one is on no path through the sequence. -/
theorem Stmt.check_unreachable_exact (g : Globals) (returnType : Ty) (inLoop : Bool) (Γ : Scope) (s : Stmt) :
    (∀ o, (s.check g returnType inLoop Γ).result = .ok o → ∀ first second, .stmt (.seq first second) ∈ s.nodes →
      (∃ x, first.Ends x ∧ x ≠ .returns) ∧
      (.stmt .breakLoop ∉ s.nodes → .stmt .continueLoop ∉ s.nodes →
        first.Ends .normal ∧ ∀ x, second.Ends x → (Stmt.seq first second).Ends x)) ∧
    ((s.check g returnType inLoop Γ).result = .error .unreachableCode →
      ∃ first second, .stmt (.seq first second) ∈ s.nodes ∧ ¬first.Ends .normal ∧
        ∀ x, (Stmt.seq first second).Ends x ↔ first.Ends x) := by
  constructor
  · intro o h first second hseq
    obtain ⟨x, hends, hx⟩ := Flow.exists_ends_of_passes h hseq
    refine ⟨⟨x, hends, hx⟩, ?_⟩
    intro hbreak hcontinue
    have hnormal : first.Ends .normal := by
      rcases hends.normal_or_returns (Flow.noStray_first hseq hbreak hcontinue) with rfl | hreturns
      · exact hends
      · exact absurd hreturns hx
    refine ⟨hnormal, ?_⟩
    intro y hy
    exact .seqNormal hnormal hy
  · intro h
    obtain ⟨first, second, hseq, hnormal⟩ := Flow.exists_seq_of_unreachable h
    exact ⟨first, second, hseq, hnormal, Stmt.ends_seq_of_not_normal hnormal⟩

namespace Flow

/-- A choice that returns in one branch. -/
def returnsOnce : Stmt :=
  .ifElse (.bool true) .returnVoid (.expr (.int 1))

/-- A choice that returns in both branches. -/
def returnsTwice : Stmt :=
  .ifElse (.bool true) .returnVoid .returnVoid

/-- A loop with a choice in its body and a statement behind it. -/
def loopOver (choice : Stmt) : Stmt :=
  .whileDo (.bool true) (.seq choice (.expr (.int 2)))

end Flow

/-- Behind a choice that returns in one branch a statement can be reached, also in a loop; behind one that returns in both it is
reported, and no path gets there. -/
theorem Stmt.check_unreachable_exact_choice :
    (∃ o, ((Flow.loopOver Flow.returnsOnce).check {} .void false ∅).result = .ok o) ∧
      Flow.returnsOnce.Ends .normal ∧
      ((Flow.loopOver Flow.returnsTwice).check {} .void false ∅).result = .error .unreachableCode ∧
      ∃ first second, .stmt (.seq first second) ∈ (Flow.loopOver Flow.returnsTwice).nodes ∧ ¬first.Ends .normal := by
  obtain ⟨hpasses, -⟩ := Stmt.check_unreachable_exact {} .void false ∅ (Flow.loopOver Flow.returnsOnce)
  obtain ⟨-, hreported⟩ := Stmt.check_unreachable_exact {} .void false ∅ (Flow.loopOver Flow.returnsTwice)
  obtain ⟨first, second, hseq, hnormal, -⟩ := hreported rfl
  refine ⟨⟨_, rfl⟩, ?_, rfl, first, second, hseq, hnormal⟩
  obtain ⟨-, hreached⟩ := hpasses _ rfl Flow.returnsOnce (.expr (.int 2)) (by simp [Flow.loopOver, Stmt.nodes])
  refine (hreached ?_ ?_).1
  · simp [Flow.loopOver, Flow.returnsOnce, Stmt.nodes, Expr.nodes]
  · simp [Flow.loopOver, Flow.returnsOnce, Stmt.nodes, Expr.nodes]

end CoreC
