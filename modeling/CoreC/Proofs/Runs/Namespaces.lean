import CoreC.Proofs.Runs.Follows

/-!
# Names are opaque, and each kind of name is a world of its own

The checker compares names with names of the same kind and does nothing else with them. So a renaming, which may tear apart
names of different kinds that had one text and bring together others that had different ones, changes nothing but the names
in the answer: a renamed program passes if the program passed, and has the renamed fault if it had one.

The check of the renamed program follows that of the program (`Follows`) with nothing excused. For the bodies that is known;
what is left is the building of the tables, which is proved once for both, and the run over the functions.
-/

namespace CoreC

namespace NamespacesAux

variable {ρ : Renaming}

/-! ## Tables -/

/-- The second table has the entries of the first one under their new names, each of them mapped. -/
def Carried {kind : NameKind} {ν : Type} (ρ : Renaming) (onEntry : ν → ν) (table table' : Std.ExtTreeMap (Name kind) ν) :
    Prop :=
  ∀ n : Name kind, table'[n.rename ρ]? = table[n]?.map onEntry

section Build

variable {kind : NameKind} {δ ν : Type} {name : δ → Name kind} {entry : δ → ν} {onEntry : ν → ν}
  {table table' : Std.ExtTreeMap (Name kind) ν}

/-- A name is taken in the second table if it was in the first one. -/
theorem Carried.mem_iff (h : Carried ρ onEntry table table') {n : Name kind} : n.rename ρ ∈ table' ↔ n ∈ table := by
  rw [← Std.ExtTreeMap.isSome_getElem?_iff_mem, ← Std.ExtTreeMap.isSome_getElem?_iff_mem, h n, Option.isSome_map]

theorem Carried.insert (h : Carried ρ onEntry table table') (n : Name kind) (v : ν) :
    Carried ρ onEntry (table.insert n v) (table'.insert (n.rename ρ) (onEntry v)) := by
  intro m
  simp only [Std.ExtTreeMap.getElem?_insert, Std.LawfulEqOrd.compare_eq_iff_eq, Name.rename_inj]
  by_cases hm : n = m
  · rw [if_pos hm, if_pos hm]
    rfl
  · rw [if_neg hm, if_neg hm]
    exact h m

/-- Renamed declarations are entered like the declarations, if a renamed declaration has the renamed name, the mapped entry
and the renamed faults. -/
theorem Enters.follows {taken : δ → TypeError} {validate : δ → Except TypeError Unit}
    {register : Std.ExtTreeMap (Name kind) ν → δ → Check (Std.ExtTreeMap (Name kind) ν)}
    (h : Tables.Enters name entry taken validate register) {rename : δ → δ}
    (hname : ∀ d, name (rename d) = (name d).rename ρ) (hentry : ∀ d, entry (rename d) = onEntry (entry d))
    (htaken : ∀ d, taken (rename d) = (taken d).rename ρ)
    (hvalidate : ∀ d, Follows ρ NoFault Runs.Passes (validate d) (validate (rename d))) (decls : List δ)
    (ht : Carried ρ onEntry table table') :
    Follows ρ NoFault (Carried ρ onEntry) (decls.foldlM register table : Check _).result
      ((decls.map rename).foldlM register table' : Check _).result := by
  induction decls generalizing table table' with
  | nil => exact .ok ht
  | cons d decls ih =>
    rw [List.map_cons, List.foldlM_cons, List.foldlM_cons, Check.result_bind, Check.result_bind]
    refine Follows.bind (R := Carried ρ onEntry) ?_ fun t t' => ih
    rw [h, h, hname, htaken, hentry]
    by_cases hd : name d ∈ table
    · rw [if_pos hd, if_pos (ht.mem_iff.2 hd)]
      exact .error (taken d)
    · rw [if_neg hd, if_neg fun hd' => hd (ht.mem_iff.1 hd')]
      exact (hvalidate d).bind fun _ _ _ => .ok (ht.insert (name d) (entry d))

end Build

/-- A renamed group of declarations passes like the group. -/
theorem validate_follows {kind : NameKind} {onVoid onDuplicate onVoid' onDuplicate' : Name kind → TypeError}
    (hv : ∀ n, onVoid' (n.rename ρ) = (onVoid n).rename ρ)
    (hd : ∀ n, onDuplicate' (n.rename ρ) = (onDuplicate n).rename ρ) (seen : List (Name kind)) (decls : List (Decl kind)) :
    Follows ρ NoFault Runs.Passes (Decl.validate onVoid onDuplicate seen decls)
      (Decl.validate onVoid' onDuplicate' (seen.map (Name.rename ρ)) (decls.map (Decl.rename ρ))) := by
  induction decls generalizing seen with
  | nil => exact .ok trivial
  | cons d decls ih =>
    have hvoid : (d.rename ρ).ty.isVoid = d.ty.isVoid := Ty.isVoid_rename ρ d.ty
    have hseen : (d.rename ρ).name ∈ seen.map (Name.rename ρ) ↔ d.name ∈ seen := by
      simp [Decl.rename, Name.rename_inj]
    rw [List.map_cons, Decl.validate, Decl.validate, hvoid]
    by_cases hty : d.ty.isVoid = true
    · rw [if_pos hty, if_pos hty]
      exact hv d.name ▸ .error (onVoid d.name)
    rw [if_neg hty, if_neg hty]
    by_cases hmem : d.name ∈ seen
    · rw [if_pos hmem, if_pos (hseen.2 hmem)]
      exact hd d.name ▸ .error (onDuplicate d.name)
    rw [if_neg hmem, if_neg fun hmem' => hmem (hseen.1 hmem')]
    exact ih (d.name :: seen)

/-- The table of renamed structures has the renamed entries. -/
theorem structs_follows (ρ : Renaming) (decls : List StructDecl) :
    Follows ρ NoFault (Carried ρ (List.map (Decl.rename ρ))) (StructTable.build decls).result
      (StructTable.build (decls.map (StructDecl.rename ρ))).result := by
  refine Enters.follows StructTable.enters (fun _ => rfl) (fun _ => rfl) (fun _ => rfl) (fun s => ?_) decls fun n => ?_
  · exact validate_follows (fun _ => rfl) (fun _ => rfl) [] s.fields
  · simp

theorem funs_follows (ρ : Renaming) (funs : List FunDef) :
    Follows ρ NoFault (Carried ρ (Signature.rename ρ)) (FunTable.build funs).result
      (FunTable.build (funs.map (FunDef.rename ρ))).result := by
  refine Enters.follows FunTable.enters (fun _ => rfl) (fun f => ?_) (fun _ => rfl) (fun f => ?_) funs fun n => ?_
  · simp [FunDef.signature, Signature.rename, FunDef.rename, Decl.rename]
  · exact validate_follows (fun _ => rfl) (fun _ => rfl) [] f.params
  · simp

/-! ## Programs -/

/-- The tables of a renamed program answer like those of the program. -/
theorem globals_follows (ρ : Renaming) (p : Program) :
    Follows ρ NoFault (Globals.Follows ρ NoFault) p.globals.result (p.rename ρ).globals.result := by
  simp only [Program.globals, Check.result_bind, Check.result_emit, Check.result_pure, Check.ok_bind]
  refine (structs_follows ρ p.structs).bind fun structs structs' hs => ?_
  refine (funs_follows ρ p.funs).bind fun funs funs' hf => ?_
  refine .ok ⟨fun s => ?_, fun f => ?_⟩
  · simp only [StructTable.fields, hs s]
    cases structs[s]? with
    | some fields => exact .ok rfl
    | none => exact .error (.unknownStruct s)
  · simp only [FunTable.signature, hf f]
    cases funs[f]? with
    | some signature => exact .ok rfl
    | none => exact .error (.unknownFunction f)

/-- Renamed functions pass like the functions, one after the other. -/
theorem bodies_follows {g g' : Globals} (hg : g.Follows ρ NoFault g') (funs : List FunDef) :
    Follows ρ NoFault Runs.Passes (funs.forM (FunDef.check g) : Check Unit).result
      ((funs.map (FunDef.rename ρ)).forM (FunDef.check g') : Check Unit).result := by
  induction funs with
  | nil => exact .ok trivial
  | cons f funs ih =>
    rw [List.map_cons, List.forM, List.forM, Check.result_bind, Check.result_bind]
    exact (Runs.funDef_check_follows hg f).bind fun _ _ _ => ih

/-- The check of a renamed program follows that of the program. -/
theorem check_follows (ρ : Renaming) (p : Program) :
    Follows ρ NoFault (Globals.Follows ρ NoFault) p.check.result (p.rename ρ).check.result := by
  simp only [Program.check, Program.checkBodies, Check.result_bind, Check.result_pure]
  refine (globals_follows ρ p).bind fun g g' hg => ?_
  exact (bodies_follows hg p.funs).bind fun _ _ _ => .ok hg

end NamespacesAux

open NamespacesAux

/-- The four kinds of names are separate and otherwise opaque: a renamed program passes exactly if the program does, and if
it does not, its fault is the renamed fault of the program, which is of the same kind. -/
theorem Program.check_rename (ρ : Renaming) (p : Program) :
    ((∃ g, (p.rename ρ).check.result = .ok g) ↔ ∃ g, p.check.result = .ok g) ∧
    ∀ e, p.check.result = .error e → (p.rename ρ).check.result = .error (e.rename ρ) ∧ (e.rename ρ).kind = e.kind := by
  have hfollows := check_follows ρ p
  cases hp : p.check.result with
  | ok g =>
    rw [hp] at hfollows
    obtain ⟨g', hp', -⟩ := hfollows
    refine ⟨⟨fun _ => ⟨g, rfl⟩, fun _ => ⟨g', hp'⟩⟩, fun e he => ?_⟩
    cases he
  | error e =>
    rw [hp] at hfollows
    have hp' : (p.rename ρ).check.result = .error (e.rename ρ) := hfollows.resolve_left id
    refine ⟨⟨fun ⟨g', hg'⟩ => ?_, fun ⟨g, hg⟩ => ?_⟩, fun e' he => ?_⟩
    · rw [hp'] at hg'
      cases hg'
    · cases hg
    · cases he
      exact ⟨hp', e.kind_rename ρ⟩

namespace NamespacesAux

/-- A letter for each kind of name. -/
def letter : NameKind → String
  | .var => "v"
  | .struct => "s"
  | .func => "g"
  | .field => "m"

/-- The renaming that puts the letter of its kind in front of each name. -/
def lettered : Renaming where
  text kind text := letter kind ++ text
  injective kind _ _ h := (String.append_right_inj (letter kind)).1 h

/-- A structure, its field, a function and its parameter that are all called alike; the function calls itself with one
argument too many. -/
def oneName : Program where
  structs := [⟨⟨"f"⟩, [⟨.int, ⟨"f"⟩⟩]⟩]
  funs := [⟨.int, ⟨"f"⟩, [⟨.struct ⟨"f"⟩, ⟨"f"⟩⟩],
    .returnValue (.binary .add (.field (.var ⟨"f"⟩) ⟨"f"⟩) (.call ⟨"f"⟩ [.var ⟨"f"⟩, .construct ⟨"f"⟩ [.int 1]]))⟩]

end NamespacesAux

/-- With everything called alike torn apart, it is the function that has the wrong number of arguments. -/
theorem Program.check_rename_apart :
    oneName.check.result = .error (.arityMismatch (.func ⟨"f"⟩) 1 2) ∧
      (oneName.rename lettered).check.result = .error (.arityMismatch (.func ⟨"gf"⟩) 1 2) := by
  have h : oneName.check.result = .error (.arityMismatch (.func ⟨"f"⟩) 1 2) := rfl
  have hname : (TypeError.arityMismatch (.func ⟨"f"⟩) 1 2).rename lettered = .arityMismatch (.func ⟨"gf"⟩) 1 2 := by
    decide
  exact ⟨h, hname ▸ ((Program.check_rename lettered oneName).2 _ h).1⟩

end CoreC
