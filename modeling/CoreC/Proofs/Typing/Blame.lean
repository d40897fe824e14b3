import Mathlib.Data.List.Duplicate
import CoreC.Proofs.Flow.Returns
import CoreC.Proofs.Typing.WellTyped

/-!
# No false blame

A fault names things: a variable, a structure, two types, numbers of arguments. `TypeError.TrueOf` says, kind by kind, what
is so in a program if a fault of it is a true one, in terms of the text of the program alone. A program that does not pass is
given a fault that is true of it (`Program.check_error_trueOf`).

The tables blame a declaration for what stands in it and before it. The bodies are a matter of `Faults`, which speaks about
tables and scopes; the tables answer for the program, and the scope of a body begins with the parameters.
-/

namespace CoreC

/-- The program declares a callee that takes this many arguments. -/
def Program.Takes (p : Program) : Callee → Nat → Prop
  | .struct s, n => ∃ decl ∈ p.structs, decl.name = s ∧ decl.fields.length = n
  | .func f, n => ∃ decl ∈ p.funs, decl.name = f ∧ decl.params.length = n

/-- What a fault says is so in the program. -/
def TypeError.TrueOf (p : Program) : TypeError → Prop
  | .unboundVariable x => ∃ f ∈ p.funs, Node.Mentions f.body.nodes x ∧ ∀ d ∈ f.params, d.name ≠ x
  | .typeMismatch expected found => expected ≠ found
  | .arityMismatch callee expected found =>
    expected ≠ found ∧ p.Takes callee expected ∧ ∃ f ∈ p.funs, Node.Applies f.body.nodes callee found
  | .unknownFunction name =>
    (∃ f ∈ p.funs, ∃ n, Node.Applies f.body.nodes (.func name) n) ∧ ∀ f ∈ p.funs, f.name ≠ name
  | .unknownStruct name => ∀ s ∈ p.structs, s.name ≠ name
  | .unknownField name field =>
    (∃ s ∈ p.structs, s.name = name ∧ ∀ d ∈ s.fields, d.name ≠ field) ∧ ∃ f ∈ p.funs, Node.Accesses f.body.nodes field
  | .notAPointer found => ∀ target, found ≠ .pointer target
  | .notAStruct found => ∀ s, found ≠ .struct s
  | .invalidOperand op operand => op = .add ∧ operand ≠ .int ∧ ∀ target, operand ≠ .pointer target
  | .duplicateStruct name => List.Duplicate name (p.structs.map StructDecl.name)
  | .duplicateField name field => ∃ s ∈ p.structs, s.name = name ∧ List.Duplicate field (s.fields.map Decl.name)
  | .duplicateFunction name => List.Duplicate name (p.funs.map FunDef.name)
  | .duplicateParam name x => ∃ f ∈ p.funs, f.name = name ∧ List.Duplicate x (f.params.map Decl.name)
  | .voidField name field => ∃ s ∈ p.structs, s.name = name ∧ ⟨.void, field⟩ ∈ s.fields
  | .voidParam name x => ∃ f ∈ p.funs, f.name = name ∧ ⟨.void, x⟩ ∈ f.params
  | .voidVariable x => ∃ f ∈ p.funs, ∃ init, .stmt (.declare ⟨.void, x⟩ init) ∈ f.body.nodes
  | .breakOutsideLoop => ∃ f ∈ p.funs, .breakLoop ∈ f.body.unlooped
  | .continueOutsideLoop => ∃ f ∈ p.funs, .continueLoop ∈ f.body.unlooped
  | .unreachableCode => ∃ f ∈ p.funs, ∃ first second, .stmt (.seq first second) ∈ f.body.nodes ∧ ¬first.Ends .normal
  | .missingReturn name returnType =>
    ∃ f ∈ p.funs, f.name = name ∧ f.returnType = returnType ∧ returnType ≠ .void ∧ f.body.Ends .normal

namespace BlameAux

variable {p : Program} {g : Globals} {e : TypeError}

/-! ## Declarations -/

/-- What is named again behind a first time is named twice. -/
theorem duplicate_of_split {δ ν : Type} {name : δ → ν} {pre post : List δ} {d : δ} (h : name d ∈ pre.map name) :
    List.Duplicate (name d) ((pre ++ d :: post).map name) := by
  rw [List.duplicate_iff_sublist, List.map_append, List.map_cons]
  have hpre : [name d].Sublist (pre.map name) := List.singleton_sublist.2 h
  have hpost : [name d].Sublist (name d :: post.map name) := List.singleton_sublist.2 List.mem_cons_self
  exact hpre.append hpost

/-- A group that does not pass has a `void` declaration of the name reported, or two declarations of it. -/
theorem void_or_duplicate_of_validate {kind : NameKind} {onVoid onDuplicate : Name kind → TypeError}
    {decls : List (Decl kind)} (h : Decl.validate onVoid onDuplicate [] decls = .error e) :
    ∃ name, (e = onVoid name ∧ ⟨.void, name⟩ ∈ decls) ∨
      (e = onDuplicate name ∧ List.Duplicate name (decls.map Decl.name)) := by
  obtain ⟨before, ⟨T, name⟩, behind, rfl, -, hbad⟩ := Decl.validate_nil_eq_error_iff.1 h
  refine ⟨name, ?_⟩
  rcases hbad with ⟨rfl, he⟩ | ⟨-, hmem, he⟩
  · exact Or.inl ⟨he, List.mem_append_right _ List.mem_cons_self⟩
  · exact Or.inr ⟨he, duplicate_of_split hmem⟩

/-- A table that is not built has a declaration whose name is declared twice, or one with a fault of its own. -/
theorem duplicate_or_invalid_of_build {kind : NameKind} {δ ν : Type} {name : δ → Name kind} {entry : δ → ν}
    {taken : δ → TypeError} {validate : δ → Except TypeError Unit}
    {register : Std.ExtTreeMap (Name kind) ν → δ → Check (Std.ExtTreeMap (Name kind) ν)}
    (henters : Tables.Enters name entry taken validate register) {decls : List δ}
    (h : (decls.foldlM register ∅ : Check _).result = .error e) :
    ∃ d ∈ decls, (e = taken d ∧ List.Duplicate (name d) (decls.map name)) ∨ validate d = .error e := by
  obtain ⟨before, d, behind, rfl, -, hd⟩ := henters.foldlM_eq_error_iff.1 h
  refine ⟨d, List.mem_append_right _ List.mem_cons_self, ?_⟩
  rcases hd with ⟨hmem, he⟩ | ⟨-, hown⟩
  · exact Or.inl ⟨he, duplicate_of_split hmem⟩
  · exact Or.inr hown

/-- A fault in the table of structures is true of the program. -/
theorem trueOf_of_structs (h : (StructTable.build p.structs).result = .error e) : e.TrueOf p := by
  obtain ⟨s, hs, ⟨rfl, hname⟩ | hfields⟩ := duplicate_or_invalid_of_build StructTable.enters h
  · exact hname
  · obtain ⟨field, ⟨rfl, hf⟩ | ⟨rfl, hf⟩⟩ := void_or_duplicate_of_validate hfields
    · exact ⟨s, hs, rfl, hf⟩
    · exact ⟨s, hs, rfl, hf⟩

/-- A fault in the table of functions is true of the program. -/
theorem trueOf_of_funs (h : (FunTable.build p.funs).result = .error e) : e.TrueOf p := by
  obtain ⟨f, hf, ⟨rfl, hname⟩ | hparams⟩ := duplicate_or_invalid_of_build FunTable.enters h
  · exact hname
  · obtain ⟨x, ⟨rfl, hx⟩ | ⟨rfl, hx⟩⟩ := void_or_duplicate_of_validate hparams
    · exact ⟨f, hf, rfl, hx⟩
    · exact ⟨f, hf, rfl, hx⟩

/-- A program without tables has a fault that is true of it. -/
theorem trueOf_of_globals (h : p.globals.result = .error e) : e.TrueOf p := by
  simp only [Program.globals, Check.result_bind, Check.bind_eq_error_iff, Check.result_emit, Check.result_pure] at h
  rcases h with hs | ⟨_, -, hf | ⟨_, -, hc | ⟨_, -, hc⟩⟩⟩
  · exact trueOf_of_structs hs
  · exact trueOf_of_funs hf
  · cases hc
  · cases hc

/-! ## Bodies -/

/-- A structure that is not in the tables is not declared. -/
theorem struct_ne_of_not_mem (hg : g.Describes p) {name : StructName} (h : name ∉ g.structs) :
    ∀ s ∈ p.structs, s.name ≠ name := by
  rintro s hs rfl
  have hsome : g.structs[s.name]? = some s.fields := (hg.structs _ _).2 hs
  rw [Tables.getElem?_eq_none_iff.2 h] at hsome
  cases hsome

/-- A function that is not in the tables is not defined. -/
theorem fun_ne_of_not_mem (hg : g.Describes p) {name : FunName} (h : name ∉ g.funs) : ∀ f ∈ p.funs, f.name ≠ name := by
  rintro f hf rfl
  have hsome : g.funs[f.name]? = some f.signature := (hg.funs _ _).2 ⟨f, hf, rfl, rfl⟩
  rw [Tables.getElem?_eq_none_iff.2 h] at hsome
  cases hsome

/-- What the tables give a callee, the program gives it. -/
theorem takes_of_describes (hg : g.Describes p) {callee : Callee} {n : Nat} (h : g.Takes callee n) : p.Takes callee n := by
  cases callee with
  | struct s =>
    obtain ⟨fields, hs, hn⟩ := h
    exact ⟨⟨s, fields⟩, (hg.structs s fields).1 hs, rfl, hn⟩
  | func name =>
    obtain ⟨signature, hs, hn⟩ := h
    obtain ⟨f, hf, rfl, rfl⟩ := (hg.funs name signature).1 hs
    exact ⟨f, hf, rfl, by simpa [FunDef.signature] using hn⟩

/-- A variable that is not in the scope of some parameters is none of them. -/
theorem param_ne_of_not_mem {params : List (Decl .var)} {x : VarName} (h : x ∉ Scope.ofParams params) :
    ∀ d ∈ params, d.name ≠ x := by
  rintro d hd rfl
  rw [Scope.ofParams_eq_extendAll, Scope.mem_extendAll_iff] at h
  exact h (Or.inr (List.mem_map_of_mem hd))

/-- A fault of the statement that is the body of a function is true of the program. -/
theorem trueOf_of_ofStmt (hg : g.Describes p) {f : FunDef} (hf : f ∈ p.funs)
    (h : e.OfStmt g f.returnType (Scope.ofParams f.params) f.body.nodes f.body.unlooped) : e.TrueOf p := by
  cases e with
  | unboundVariable x => exact ⟨f, hf, h.2, param_ne_of_not_mem h.1⟩
  | typeMismatch | notAPointer | notAStruct | invalidOperand => exact h
  | arityMismatch callee expected found => exact ⟨h.1, takes_of_describes hg h.2.1, f, hf, h.2.2⟩
  | unknownFunction name => exact ⟨⟨f, hf, h.2⟩, fun_ne_of_not_mem hg h.1⟩
  | unknownStruct name => exact struct_ne_of_not_mem hg h
  | unknownField name field =>
    obtain ⟨⟨fields, hs, hne⟩, haccess⟩ := h
    exact ⟨⟨⟨name, fields⟩, (hg.structs name fields).1 hs, rfl, hne⟩, f, hf, haccess⟩
  | voidVariable x => exact ⟨f, hf, h⟩
  | breakOutsideLoop | continueOutsideLoop => exact ⟨f, hf, h⟩
  | unreachableCode =>
    obtain ⟨first, second, inLoop, Γ, o, hmem, ho, hr⟩ := h
    exact ⟨f, hf, first, second, hmem, (Flow.answers_of_check ho).noNormal hr⟩
  | duplicateStruct | duplicateField | duplicateFunction | duplicateParam | voidField | voidParam | missingReturn =>
    exact h.elim

/-- A fault of a function is true of the program it belongs to. -/
theorem trueOf_of_check (hg : g.Describes p) {f : FunDef} (hf : f ∈ p.funs) (h : (f.check g).result = .error e) :
    e.TrueOf p := by
  rw [FunDef.result_check] at h
  rcases Check.bind_eq_error_iff.1 h with hbody | ⟨o, ho, hend⟩
  · have hfault := Faults.ofStmt_of_check hbody
    exact trueOf_of_ofStmt hg hf hfault
  · by_cases hc : (!f.returnType.isVoid && !o.returns) = true
    · rw [if_pos hc] at hend
      cases hend
      simp only [Bool.and_eq_true, Bool.not_eq_true'] at hc
      exact ⟨f, hf, rfl, rfl, Ty.isVoid_eq_false_iff.1 hc.1, (Flow.returns_eq_false_iff ho).1 hc.2⟩
    · rw [if_neg hc] at hend
      cases hend

end BlameAux

open BlameAux

/-- The fault a program is given is true of it. -/
theorem Program.check_error_trueOf (p : Program) (e : TypeError) (h : p.check.result = .error e) : e.TrueOf p := by
  simp only [Program.check, Program.checkBodies, Check.result_bind, Check.bind_eq_error_iff, Check.result_pure] at h
  rcases h with hg | ⟨g, hg, hb | ⟨_, -, hc⟩⟩
  · exact trueOf_of_globals hg
  · obtain ⟨pre, f, post, hsplit, -, hf⟩ := Check.exists_of_forM_eq_error hb
    have hmem : f ∈ p.funs := by rw [hsplit]; exact List.mem_append_right _ List.mem_cons_self
    exact trueOf_of_check (WellTypedAux.describes_of_globals hg) hmem hf
  · cases hc

namespace BlameAux

/-- A program with one function, which declares a variable in a branch and reads it behind the branch. -/
def readBehindBranch : Program where
  funs := [{
    returnType := .int
    name := ⟨"f"⟩
    params := [⟨.int, ⟨"n"⟩⟩]
    body := .seq (.ifElse (.bool true) (.declare ⟨.int, ⟨"x"⟩⟩ (.var ⟨"n"⟩)) (.free (.malloc (.int 8))))
      (.returnValue (.var ⟨"x"⟩)) }]

end BlameAux

/-- A variable of a branch is unbound behind it: the body mentions it, and it is no parameter. -/
theorem Program.check_error_trueOf_branch :
    readBehindBranch.check.result = .error (.unboundVariable ⟨"x"⟩) ∧
      ∃ f ∈ readBehindBranch.funs, Node.Mentions f.body.nodes ⟨"x"⟩ ∧ ∀ d ∈ f.params, d.name ≠ ⟨"x"⟩ := by
  have h : readBehindBranch.check.result = .error (.unboundVariable ⟨"x"⟩) := rfl
  exact ⟨h, Program.check_error_trueOf readBehindBranch _ h⟩

end CoreC
