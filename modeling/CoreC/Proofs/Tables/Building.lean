import CoreC.Proofs.Typing.Adequacy

/-!
# Building the tables

A table is built from a list of declarations or fails at one of them. Both are exact (`Tables.BuildsExactly`): the table is
built exactly if the declarations are in order and then holds them and nothing else; it fails exactly at the first declaration
that is at fault behind those before it, with the first fault of that declaration, and what is behind it is not looked at.

This is proved once for everything that enters declarations in the same way (`Tables.Enters`). The tables of structures and of
functions differ in what they hold for a declaration (`StructTable.Holds`, `FunTable.Holds`).
-/

namespace CoreC

namespace Tables

variable {kind : NameKind} {δ ν τ : Type} {name : δ → Name kind} {entry : δ → ν}

/-- A table is built exactly from the declarations that are in order, and fails exactly at the first one that is not. -/
structure BuildsExactly (name : δ → Name kind) (Valid : δ → Prop) (Holds : τ → List δ → Prop) (taken : δ → TypeError)
    (Own : δ → TypeError → Prop) (build : List δ → Check τ) : Prop where
  /-- There is a table exactly if no two declarations have one name and each is valid. -/
  ok_iff : ∀ decls, (∃ table, (build decls).result = .ok table) ↔ (decls.map name).Nodup ∧ ∀ d ∈ decls, Valid d
  /-- The table holds the declarations. -/
  holds : ∀ decls table, (build decls).result = .ok table → Holds table decls
  /-- There is a fault exactly if a declaration has it behind others from which a table can be built. -/
  error_iff : ∀ decls e, (build decls).result = .error e ↔
    ∃ before d behind, decls = before ++ d :: behind ∧ (∃ table, (build before).result = .ok table) ∧
      FaultBehind name taken Own before d e
  /-- What is behind such a declaration does not matter, for the log neither. -/
  behind_eq : ∀ before d e, (∃ table, (build before).result = .ok table) → FaultBehind name taken Own before d e →
    ∀ behind, build (before ++ d :: behind) = build (before ++ [d])

/-- A fold of checks that fails at an element is not changed by what is behind it. -/
theorem foldlM_behind_eq {α β : Type} {f : β → α → Check β} {b : β} {before : List α} {a : α} {e : TypeError}
    (h : ((before ++ [a]).foldlM f b).result = .error e) (behind : List α) :
    (before ++ a :: behind).foldlM f b = (before ++ [a]).foldlM f b := by
  rw [List.append_cons, List.foldlM_append, Check.bind_of_error h, ← h]

/-- Declarations that are entered one after the other are entered exactly. -/
theorem Enters.buildsExactly {taken : δ → TypeError} {validate : δ → Except TypeError Unit}
    {register : Std.ExtTreeMap (Name kind) ν → δ → Check (Std.ExtTreeMap (Name kind) ν)}
    (h : Enters name entry taken validate register) {Valid : δ → Prop} {Own : δ → TypeError → Prop}
    {Holds : Std.ExtTreeMap (Name kind) ν → List δ → Prop} (hvalid : ∀ d, validate d = .ok () ↔ Valid d)
    (hown : ∀ d e, validate d = .error e ↔ Own d e)
    (hholds : ∀ decls, (decls.map name).Nodup → (∀ d ∈ decls, Valid d) → Holds (fill name entry ∅ decls) decls) :
    BuildsExactly name Valid Holds taken Own (fun decls => decls.foldlM register ∅) := by
  have hok : ∀ decls table, (decls.foldlM register ∅ : Check _).result = .ok table ↔
      (decls.map name).Nodup ∧ (∀ d ∈ decls, Valid d) ∧ table = fill name entry ∅ decls := by
    intro decls table
    simp [h.foldlM_eq_ok_iff, hvalid]
  have herror : ∀ decls e, (decls.foldlM register ∅ : Check _).result = .error e ↔
      ∃ before d behind, decls = before ++ d :: behind ∧ (∃ table, (before.foldlM register ∅ : Check _).result = .ok table) ∧
        FaultBehind name taken Own before d e := by
    intro decls e
    simp only [h.foldlM_eq_error_iff, hown]
  refine ⟨?_, ?_, herror, ?_⟩
  · intro decls
    constructor
    · rintro ⟨table, htable⟩
      obtain ⟨hn, hv, -⟩ := (hok decls table).1 htable
      exact ⟨hn, hv⟩
    · rintro ⟨hn, hv⟩
      exact ⟨_, (hok decls _).2 ⟨hn, hv, rfl⟩⟩
  · intro decls table htable
    obtain ⟨hn, hv, rfl⟩ := (hok decls table).1 htable
    exact hholds decls hn hv
  · intro before d e hbefore hd behind
    exact foldlM_behind_eq ((herror _ e).2 ⟨before, d, [], rfl, hbefore, hd⟩) behind

/-- A table that was filled from nothing with declarations of distinct names has an entry for each of them. -/
theorem size_fill_empty {decls : List δ} (hn : (decls.map name).Nodup) : (fill name entry ∅ decls).size = decls.length := by
  rw [size_fill hn (fun d _ => Std.ExtTreeMap.not_mem_empty), Std.ExtTreeMap.size_empty, Nat.zero_add]

/-- A table that was filled from nothing has no entry for a name that is not declared. -/
theorem getElem?_fill_empty_of_not_mem {decls : List δ} {n : Name kind} (hn : n ∉ decls.map name) :
    (fill name entry ∅ decls)[n]? = none := by
  rw [getElem?_fill_of_forall_ne decls ∅ (fun d hd he => hn (List.mem_map.2 ⟨d, hd, he⟩))]
  exact Std.ExtTreeMap.getElem?_empty

end Tables

open Tables

/-! ## Structures -/

/-- What a table of structures answers, built from some declarations: the fields of each, in the order of declaration, and
each field with its type; for any other name, that it is not known. -/
structure StructTable.Holds (table : StructTable) (decls : List StructDecl) : Prop where
  size : table.size = decls.length
  fields : ∀ d ∈ decls, table.fields d.name = .ok d.fields
  fieldType : ∀ d ∈ decls, ∀ f T, table.fieldType d.name f = .ok T ↔ ⟨T, f⟩ ∈ d.fields
  unknownField : ∀ d ∈ decls, ∀ f, f ∉ d.fields.map Decl.name →
    table.fieldType d.name f = .error (.unknownField d.name f)
  unknownStruct : ∀ n, n ∉ decls.map StructDecl.name →
    table.fields n = .error (.unknownStruct n) ∧ ∀ f, table.fieldType n f = .error (.unknownStruct n)

/-- What a structure can be at fault with by itself: the first bad one of its fields. -/
def StructDecl.OwnFault (d : StructDecl) (e : TypeError) : Prop :=
  Decl.FirstFault (.voidField d.name) (.duplicateField d.name) d.fields e

namespace BuildingAux

theorem structTable_holds_fill {decls : List StructDecl} (hn : (decls.map StructDecl.name).Nodup)
    (hvalid : ∀ d ∈ decls, Decl.Valid d.fields) :
    StructTable.Holds (fill StructDecl.name StructDecl.fields ∅ decls) decls := by
  have hfields : ∀ d ∈ decls,
      StructTable.fields (fill StructDecl.name StructDecl.fields ∅ decls) d.name = .ok d.fields := by
    intro d hd
    exact StructTable.fields_eq_ok_iff.2 (getElem?_fill_of_mem ∅ hn hd)
  refine ⟨size_fill_empty hn, hfields, ?_, ?_, ?_⟩
  · intro d hd f T
    exact Adequacy.fieldType_eq_ok_iff_of_fields (hfields d hd) (hvalid d hd).1
  · intro d hd f hf
    have hnone : d.fields.find? (·.name = f) = none := by
      rw [List.find?_eq_none]
      intro field hmem hname
      exact hf (List.mem_map.2 ⟨field, hmem, of_decide_eq_true hname⟩)
    rw [StructTable.fieldType, hfields d hd, Check.ok_bind, hnone]
    rfl
  · intro n hundeclared
    have hunknown : StructTable.fields (fill StructDecl.name StructDecl.fields ∅ decls) n = .error (.unknownStruct n) := by
      rw [StructTable.fields, getElem?_fill_empty_of_not_mem hundeclared]
    refine ⟨hunknown, ?_⟩
    intro f
    rw [StructTable.fieldType, hunknown, Check.error_bind]

end BuildingAux

/-! ## Functions -/

/-- What a table of functions answers, built from some definitions: the types of the parameters of each, in their order, with
the return type; for any other name, that it is not known. -/
structure FunTable.Holds (table : FunTable) (funs : List FunDef) : Prop where
  size : table.size = funs.length
  signature : ∀ f ∈ funs, table.signature f.name = .ok ⟨f.params.map Decl.ty, f.returnType⟩
  unknownFunction : ∀ n, n ∉ funs.map FunDef.name → table.signature n = .error (.unknownFunction n)

/-- What a function can be at fault with by itself, before its body is looked at: the first bad one of its parameters. -/
def FunDef.OwnFault (f : FunDef) (e : TypeError) : Prop :=
  Decl.FirstFault (.voidParam f.name) (.duplicateParam f.name) f.params e

namespace BuildingAux

theorem funTable_holds_fill {funs : List FunDef} (hn : (funs.map FunDef.name).Nodup) :
    FunTable.Holds (fill FunDef.name FunDef.signature ∅ funs) funs := by
  refine ⟨size_fill_empty hn, ?_, ?_⟩
  · intro f hf
    exact FunTable.signature_eq_ok_iff.2 (getElem?_fill_of_mem ∅ hn hf)
  · intro n hundefined
    rw [FunTable.signature, getElem?_fill_empty_of_not_mem hundefined]

end BuildingAux

open BuildingAux

/-- Building the tables is exact, and reports the first violation. The table of structures is built exactly if names are
distinct and every structure has distinct fields, none of them `void`; otherwise the fault is that of the first structure that
is at fault behind those before it: its name is taken, or else its first bad field is `void`, or else has the name of an
earlier one. The table of functions is built in the same way from names and parameters. -/
theorem Tables.build_exact :
    BuildsExactly StructDecl.name (fun d => Decl.Valid d.fields) StructTable.Holds (fun d => .duplicateStruct d.name)
      StructDecl.OwnFault StructTable.build ∧
    BuildsExactly FunDef.name (fun f => Decl.Valid f.params) FunTable.Holds (fun f => .duplicateFunction f.name)
      FunDef.OwnFault FunTable.build := by
  constructor
  · refine StructTable.enters.buildsExactly ?_ ?_ ?_
    · intro d
      exact Decl.validate_nil_eq_ok_iff _ _ d.fields
    · intro d e
      exact Decl.validate_nil_eq_error_iff
    · intro decls hn hvalid
      exact structTable_holds_fill hn hvalid
  · refine FunTable.enters.buildsExactly ?_ ?_ ?_
    · intro f
      exact Decl.validate_nil_eq_ok_iff _ _ f.params
    · intro f e
      exact Decl.validate_nil_eq_error_iff
    · intro funs hn _
      exact funTable_holds_fill hn

namespace BuildingAux

/-- A structure in order. -/
def pair : StructDecl where
  name := ⟨"Pair"⟩
  fields := [⟨.int, ⟨"first"⟩⟩, ⟨.voidPointer, ⟨"second"⟩⟩]

/-- A structure whose third field is `void` and has the name of the first. -/
def badField : StructDecl where
  name := ⟨"Bad"⟩
  fields := [⟨.int, ⟨"x"⟩⟩, ⟨.char, ⟨"y"⟩⟩, ⟨.void, ⟨"x"⟩⟩]

/-- A function with two parameters of one name. -/
def badParam : FunDef where
  returnType := .void
  name := ⟨"f"⟩
  params := [⟨.int, ⟨"n"⟩⟩, ⟨.char, ⟨"n"⟩⟩]
  body := .returnVoid

end BuildingAux

/-- A structure in order is held with its fields. Behind it, a field that is `void` and has a name that is taken is reported for
its type, and a structure declared again behind that is not reached; a parameter with a name that is taken is reported for
it. -/
theorem Tables.build_exact_first :
    (∃ table, (StructTable.build [pair]).result = .ok table ∧ StructTable.Holds table [pair]) ∧
      (StructTable.build [pair, badField, pair]).result = .error (.voidField ⟨"Bad"⟩ ⟨"x"⟩) ∧
      StructTable.build [pair, badField, pair] = StructTable.build [pair, badField] ∧
      (FunTable.build [badParam, badParam]).result = .error (.duplicateParam ⟨"f"⟩ ⟨"n"⟩) := by
  obtain ⟨hstructs, hfuns⟩ := Tables.build_exact
  have hpair : ∃ table, (StructTable.build [pair]).result = .ok table := by
    rw [hstructs.ok_iff]
    simp [pair, Decl.Valid, Ty.voidPointer]
  have hfield : FaultBehind StructDecl.name (fun d => .duplicateStruct d.name) StructDecl.OwnFault [pair] badField
      (.voidField ⟨"Bad"⟩ ⟨"x"⟩) := by
    refine Or.inr ⟨by simp [pair, badField], [⟨.int, ⟨"x"⟩⟩, ⟨.char, ⟨"y"⟩⟩], ⟨.void, ⟨"x"⟩⟩, [], rfl, ?_, Or.inl ⟨rfl, rfl⟩⟩
    simp [Decl.Valid]
  have hparam : FaultBehind FunDef.name (fun f => .duplicateFunction f.name) FunDef.OwnFault [] badParam
      (.duplicateParam ⟨"f"⟩ ⟨"n"⟩) := by
    refine Or.inr ⟨by simp, [⟨.int, ⟨"n"⟩⟩], ⟨.char, ⟨"n"⟩⟩, [], rfl, ?_, Or.inr ⟨by simp, by simp, rfl⟩⟩
    simp [Decl.Valid]
  refine ⟨?_, ?_, ?_, ?_⟩
  · obtain ⟨table, htable⟩ := hpair
    exact ⟨table, htable, hstructs.holds [pair] table htable⟩
  · exact (hstructs.error_iff _ _).2 ⟨[pair], badField, [pair], rfl, hpair, hfield⟩
  · exact hstructs.behind_eq [pair] badField _ hpair hfield [pair]
  · exact (hfuns.error_iff _ _).2 ⟨[], badParam, [badParam], rfl, ⟨∅, rfl⟩, hparam⟩

end CoreC
