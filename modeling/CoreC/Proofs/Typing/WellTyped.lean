import CoreC.Proofs.Typing.Adequacy

/-!
# Well-typed programs are those that pass

The whole check: both tables are built exactly when the declarations are in order, the tables then answer for the program,
and every body passes against them exactly when the rules derive it. `Program.check_ok_iff_wellTyped` puts these together.
-/

namespace CoreC

namespace WellTypedAux

/-! ## The tables of a program -/

/-- A program has tables exactly when both of them can be built. -/
theorem globals_eq_ok_iff (p : Program) (g : Globals) :
    p.globals.result = .ok g ↔
      (StructTable.build p.structs).result = .ok g.structs ∧ (FunTable.build p.funs).result = .ok g.funs := by
  simp only [Program.globals, Check.result_bind, Check.bind_eq_ok_iff, Check.result_emit, Check.result_pure]
  refine ⟨fun h => ?_, fun h => ?_⟩
  · obtain ⟨structs, hs, funs, hf, _, -, hg⟩ := h
    cases hg
    exact ⟨hs, hf⟩
  · obtain ⟨hs, hf⟩ := h
    exact ⟨_, hs, _, hf, (), trivial, rfl⟩

/-- The declarations of a program are in order. -/
def DeclsValid (p : Program) : Prop :=
  (p.structs.map StructDecl.name).Nodup ∧ (∀ s ∈ p.structs, Decl.Valid s.fields) ∧
    (p.funs.map FunDef.name).Nodup ∧ ∀ f ∈ p.funs, Decl.Valid f.params

/-- The tables of a program can be built exactly when its declarations are in order. -/
theorem exists_globals_iff (p : Program) : (∃ g, p.globals.result = .ok g) ↔ DeclsValid p := by
  simp only [globals_eq_ok_iff, StructTable.build_eq_ok_iff, FunTable.build_eq_ok_iff]
  refine ⟨fun h => ?_, fun h => ?_⟩
  · obtain ⟨g, ⟨hs, hf, -⟩, hn, hp, -⟩ := h
    exact ⟨hs, hf, hn, hp⟩
  · obtain ⟨hs, hf, hn, hp⟩ := h
    exact ⟨⟨_, _⟩, ⟨hs, hf, rfl⟩, hn, hp, rfl⟩

/-- The tables of a program answer for it. -/
theorem describes_of_globals {p : Program} {g : Globals} (h : p.globals.result = .ok g) : g.Describes p := by
  rw [globals_eq_ok_iff, StructTable.build_eq_ok_iff, FunTable.build_eq_ok_iff] at h
  obtain ⟨⟨hs, hf, hgs⟩, hn, -, hgf⟩ := h
  refine ⟨fun name fields => ?_, fun name signature => ?_, fun s hmem => (hf s hmem).1⟩
  · rw [hgs, Tables.getElem?_fill_empty_iff hs]
    refine ⟨fun h => ?_, fun hmem => ?_⟩
    · obtain ⟨s, hmem, rfl, rfl⟩ := h
      exact hmem
    · exact ⟨_, hmem, rfl, rfl⟩
  · rw [hgf, Tables.getElem?_fill_empty_iff hn]

/-! ## The bodies -/

/-- The scope of the parameters is the only one that binds exactly them. -/
theorem binds_iff_eq_ofParams {params : List (Decl .var)} (h : (params.map Decl.name).Nodup) (Γ : Scope) :
    Scope.Binds Γ params ↔ Γ = Scope.ofParams params := by
  have hof : ∀ x T, (Scope.ofParams params)[x]? = some T ↔ ⟨T, x⟩ ∈ params := by
    intro x T
    have hfill : (Tables.fill Decl.name Decl.ty ∅ params)[x]? = some T ↔ _ := Tables.getElem?_fill_empty_iff h x T
    refine hfill.trans ⟨fun hd => ?_, fun hmem => ⟨_, hmem, rfl, rfl⟩⟩
    obtain ⟨d, hmem, rfl, rfl⟩ := hd
    exact hmem
  constructor
  · intro hΓ
    refine Std.ExtTreeMap.ext_getElem? fun {x} => Option.ext fun T => ?_
    rw [hΓ x T, hof x T]
  · rintro rfl
    exact hof

/-- A body passes against tables that answer for the program exactly when the rules derive it. -/
theorem check_eq_ok_iff {g : Globals} {p : Program} (hg : g.Describes p) {f : FunDef}
    (hf : (f.params.map Decl.name).Nodup) : (f.check g).result = .ok () ↔ f.WellTyped p := by
  rw [FunDef.result_check, Check.bind_eq_ok_iff]
  refine ⟨fun h => ?_, fun h => ?_⟩
  · obtain ⟨⟨Γ', returns⟩, hb, hr⟩ := h
    refine ⟨_, Γ', returns, (binds_iff_eq_ofParams hf _).2 rfl, (Adequacy.stmt_check_eq_ok_iff hg f.body).1 hb, ?_⟩
    intro hT
    cases returns with
    | true => rfl
    | false => simp [Ty.isVoid_eq_false_iff.2 hT] at hr
  · obtain ⟨Γ, Γ', returns, hΓ, hb, hr⟩ := h
    rw [binds_iff_eq_ofParams hf] at hΓ
    subst hΓ
    refine ⟨⟨Γ', returns⟩, (Adequacy.stmt_check_eq_ok_iff hg f.body).2 hb, ?_⟩
    by_cases hT : f.returnType = .void
    · simp [Ty.isVoid_eq_true_iff.2 hT]
    · simp [hr hT]

/-- Checks that are run one after the other all pass, or the run does not. -/
theorem forM_eq_ok_iff {α : Type} (check : α → Check Unit) (l : List α) {u : Unit} :
    (l.forM check : Check Unit).result = .ok u ↔ ∀ a ∈ l, (check a).result = .ok () := by
  induction l with
  | nil => simp
  | cons a l ih =>
    rw [List.forM, Check.result_bind, Check.bind_eq_ok_iff, List.forall_mem_cons, ← ih]
    refine ⟨fun h => ?_, fun h => ?_⟩
    · obtain ⟨_, ha, hl⟩ := h
      exact ⟨ha, hl⟩
    · obtain ⟨ha, hl⟩ := h
      exact ⟨(), ha, hl⟩

end WellTypedAux

open WellTypedAux

/-- A program passes the check exactly when it is well-typed by the rules. -/
theorem Program.check_ok_iff_wellTyped (p : Program) : (∃ g, p.check.result = .ok g) ↔ p.WellTyped := by
  simp only [Program.check, Program.checkBodies, Check.result_bind, Check.bind_eq_ok_iff, Check.result_pure,
    forM_eq_ok_iff]
  refine ⟨fun h => ?_, fun h => ?_⟩
  · obtain ⟨_, g, hg, _, hb, -⟩ := h
    obtain ⟨hs, hf, hn, hp⟩ := (exists_globals_iff p).1 ⟨g, hg⟩
    exact ⟨hs, hf, hn, hp, fun f hmem => (check_eq_ok_iff (describes_of_globals hg) (hp f hmem).1).1 (hb f hmem)⟩
  · obtain ⟨hs, hf, hn, hp, hb⟩ := h
    obtain ⟨g, hg⟩ := (exists_globals_iff p).2 ⟨hs, hf, hn, hp⟩
    have hchecked : ∀ f ∈ p.funs, (f.check g).result = .ok () := fun f hmem =>
      (check_eq_ok_iff (describes_of_globals hg) (hp f hmem).1).2 (hb f hmem)
    exact ⟨g, g, hg, (), hchecked, rfl⟩

end CoreC
