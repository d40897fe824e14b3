import CoreC.CommandLine.Report
import CoreC.Proofs.Typing.WellTyped

/-!
# The order of declarations

A program may declare its structures and its functions in any order. The tables are built entry by entry and the bodies are
checked one after the other, but which programs have tables depends only on the declarations there are
(`StructTable.build_eq_ok_iff`, `FunTable.build_eq_ok_iff`), and so do the entries of the tables; two tables with the same
entries are the same table, with the same listing. Against the same tables the same bodies pass.

What does depend on the order is which of several faults is reported.
-/

namespace CoreC

namespace Tables

variable {kind : NameKind} {δ ν : Type} {name : δ → Name kind} {entry : δ → ν}

/-- Declarations of distinct names fill a table alike in any order. -/
theorem fill_eq_of_perm {decls decls' : List δ} (h : decls.Perm decls') (hn : (decls.map name).Nodup) :
    fill name entry ∅ decls = fill name entry ∅ decls' := by
  have hn' : (decls'.map name).Nodup := (h.map name).nodup_iff.1 hn
  refine Std.ExtTreeMap.ext_getElem? fun {n} => Option.ext fun v => ?_
  rw [getElem?_fill_empty_iff hn, getElem?_fill_empty_iff hn']
  simp only [h.mem_iff]

end Tables

theorem StructTable.build_eq_ok_iff_of_perm {decls decls' : List StructDecl} (h : decls.Perm decls') (table : StructTable) :
    (build decls).result = .ok table ↔ (build decls').result = .ok table := by
  rw [build_eq_ok_iff, build_eq_ok_iff, (h.map StructDecl.name).nodup_iff]
  simp only [h.mem_iff]
  refine and_congr_right fun hn => and_congr_right fun _ => ?_
  rw [Tables.fill_eq_of_perm h.symm hn]

theorem FunTable.build_eq_ok_iff_of_perm {funs funs' : List FunDef} (h : funs.Perm funs') (table : FunTable) :
    (build funs).result = .ok table ↔ (build funs').result = .ok table := by
  rw [build_eq_ok_iff, build_eq_ok_iff, (h.map FunDef.name).nodup_iff]
  simp only [h.mem_iff]
  refine and_congr_right fun hn => and_congr_right fun _ => ?_
  rw [Tables.fill_eq_of_perm h.symm hn]

namespace DeclarationOrderAux

variable {p p' : Program}

/-- A program with its declarations in another order has the same tables, or none just the same. -/
theorem globals_eq_ok_iff_of_perm (hs : p.structs.Perm p'.structs) (hf : p.funs.Perm p'.funs) (g : Globals) :
    p.globals.result = .ok g ↔ p'.globals.result = .ok g := by
  rw [WellTypedAux.globals_eq_ok_iff, WellTypedAux.globals_eq_ok_iff, StructTable.build_eq_ok_iff_of_perm hs,
    FunTable.build_eq_ok_iff_of_perm hf]

/-- A program with its declarations in another order passes just the same. -/
theorem check_eq_ok_iff_of_perm (hs : p.structs.Perm p'.structs) (hf : p.funs.Perm p'.funs) (g : Globals) :
    p.check.result = .ok g ↔ p'.check.result = .ok g := by
  simp only [Program.check, Program.checkBodies, Check.result_bind, Check.bind_eq_ok_iff, Check.result_pure,
    WellTypedAux.forM_eq_ok_iff, globals_eq_ok_iff_of_perm hs hf, hf.mem_iff]

end DeclarationOrderAux

open DeclarationOrderAux

/-- The order of declarations does not matter: with its structures and its functions in another order a program has tables
if it had them, passes if it passed, and its tables have the same listings and are written alike. -/
theorem Program.check_of_perm (p p' : Program) (hs : p.structs.Perm p'.structs) (hf : p.funs.Perm p'.funs) :
    ((∃ g, p.globals.result = .ok g) ↔ ∃ g, p'.globals.result = .ok g) ∧
    ((∃ g, p.check.result = .ok g) ↔ ∃ g, p'.check.result = .ok g) ∧
    ∀ g g', p.globals.result = .ok g → p'.globals.result = .ok g' →
      g.structs.toList = g'.structs.toList ∧ g.funs.toList = g'.funs.toList ∧ g.listing = g'.listing := by
  refine ⟨exists_congr (globals_eq_ok_iff_of_perm hs hf), exists_congr (check_eq_ok_iff_of_perm hs hf), ?_⟩
  intro g g' hg hg'
  have hsame : p'.globals.result = .ok g := (globals_eq_ok_iff_of_perm hs hf g).1 hg
  have heq : g = g' := Except.ok.inj (hsame.symm.trans hg')
  subst heq
  exact ⟨rfl, rfl, rfl⟩

namespace DeclarationOrderAux

/-- A structure with a pointer to one that is declared behind it, and a function that calls one that is defined behind it. -/
def forward : Program where
  structs := [
    ⟨⟨"B"⟩, [⟨.pointer (.struct ⟨"A"⟩), ⟨"a"⟩⟩, ⟨.bool, ⟨"c"⟩⟩]⟩,
    ⟨⟨"A"⟩, [⟨.int, ⟨"x"⟩⟩]⟩]
  funs := [
    ⟨.int, ⟨"h"⟩, [⟨.struct ⟨"B"⟩, ⟨"b"⟩⟩],
      .returnValue (.call ⟨"f"⟩ [.deref (.field (.var ⟨"b"⟩) ⟨"a"⟩), .field (.var ⟨"b"⟩) ⟨"c"⟩])⟩,
    ⟨.int, ⟨"f"⟩, [⟨.struct ⟨"A"⟩, ⟨"a"⟩⟩, ⟨.bool, ⟨"c"⟩⟩], .returnValue (.field (.var ⟨"a"⟩) ⟨"x"⟩)⟩]

/-- The same declarations the other way round. -/
def backward : Program where
  structs := forward.structs.reverse
  funs := forward.funs.reverse

end DeclarationOrderAux

/-- A program that uses everything before it is declared, and the same program the other way round: both pass, and both are
listed by names. -/
theorem Program.check_of_perm_reverse :
    (∃ g, backward.check.result = .ok g) ∧
      ∃ g g', forward.globals.result = .ok g ∧ backward.globals.result = .ok g' ∧ g.listing = g'.listing ∧
        g.listing =
          "struct A \x7b int x; \x7d\n" ++
          "struct B \x7b struct A* a; bool c; \x7d\n" ++
          "int f(struct A, bool)\n" ++
          "int h(struct B)\n" := by
  have hs : forward.structs.Perm backward.structs := (List.reverse_perm forward.structs).symm
  have hf : forward.funs.Perm backward.funs := (List.reverse_perm forward.funs).symm
  obtain ⟨-, hcheck, hlistings⟩ := Program.check_of_perm forward backward hs hf
  refine ⟨hcheck.1 ⟨_, rfl⟩, _, _, rfl, rfl, ?_, rfl⟩
  exact (hlistings _ _ rfl rfl).2.2

end CoreC
