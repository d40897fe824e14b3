import CoreC.Proofs.Typing.Results
import CoreC.Proofs.Typing.Rules

/-!
# Tables and what they were built from

The tables of structures and of functions are built alike: a declaration is entered if its name is new and its parts are in
order (`Tables.Enters`). What follows from that is proved once for both: the build succeeds exactly when all names are
distinct and all parts are in order, and then a name is looked up to its declaration.

The scope of the parameters of a function is filled the same way, without a check.
-/

namespace CoreC

namespace Tables

variable {kind : NameKind} {δ ν : Type} {name : δ → Name kind} {entry : δ → ν}

/-- Enter declarations one after the other, each under its name. -/
def fill (name : δ → Name kind) (entry : δ → ν) (table : Std.ExtTreeMap (Name kind) ν) (decls : List δ) :
    Std.ExtTreeMap (Name kind) ν :=
  decls.foldl (fun table d => table.insert (name d) (entry d)) table

/-- A way to enter one declaration: it fails if the name is taken or if the declaration has a fault of its own. -/
def Enters (name : δ → Name kind) (entry : δ → ν) (taken : δ → TypeError) (validate : δ → Except TypeError Unit)
    (register : Std.ExtTreeMap (Name kind) ν → δ → Check (Std.ExtTreeMap (Name kind) ν)) : Prop :=
  ∀ table d, (register table d).result =
    if name d ∈ table then .error (taken d) else (do validate d; .ok (table.insert (name d) (entry d)))

/-- One declaration is entered exactly when its name is new and it has no fault of its own. -/
theorem Enters.eq_ok_iff {taken : δ → TypeError} {validate : δ → Except TypeError Unit}
    {register : Std.ExtTreeMap (Name kind) ν → δ → Check (Std.ExtTreeMap (Name kind) ν)}
    (h : Enters name entry taken validate register) (table table' : Std.ExtTreeMap (Name kind) ν) (d : δ) :
    (register table d).result = .ok table' ↔
      name d ∉ table ∧ validate d = .ok () ∧ table' = table.insert (name d) (entry d) := by
  rw [h]
  by_cases hd : name d ∈ table
  · simp [hd]
  · rw [if_neg hd, Check.bind_eq_ok_iff]
    refine ⟨fun h => ?_, fun h => ?_⟩
    · obtain ⟨u, hv, he⟩ := h
      exact ⟨hd, hv, (Except.ok.inj he).symm⟩
    · obtain ⟨-, hv, rfl⟩ := h
      exact ⟨(), hv, rfl⟩

/-- A name is in the table behind an entry if it is the name entered or was there before. -/
theorem not_mem_insert_iff {table : Std.ExtTreeMap (Name kind) ν} {n m : Name kind} {v : ν} :
    m ∉ table.insert n v ↔ n ≠ m ∧ m ∉ table := by
  rw [Std.ExtTreeMap.mem_insert, Std.LawfulEqOrd.compare_eq_iff_eq, not_or]

/-- What a table has no entry for is not in it. -/
theorem getElem?_eq_none_iff {table : Std.ExtTreeMap (Name kind) ν} {n : Name kind} : table[n]? = none ↔ n ∉ table := by
  rw [← Std.ExtTreeMap.isSome_getElem?_iff_mem, Option.not_isSome_iff_eq_none]

/-- Declarations are entered exactly when their names are distinct and new, and none has a fault of its own. -/
theorem Enters.foldlM_eq_ok_iff {taken : δ → TypeError} {validate : δ → Except TypeError Unit}
    {register : Std.ExtTreeMap (Name kind) ν → δ → Check (Std.ExtTreeMap (Name kind) ν)}
    (h : Enters name entry taken validate register) (decls : List δ) (table table' : Std.ExtTreeMap (Name kind) ν) :
    (decls.foldlM register table : Check _).result = .ok table' ↔
      (decls.map name).Nodup ∧ (∀ d ∈ decls, name d ∉ table) ∧ (∀ d ∈ decls, validate d = .ok ()) ∧
        table' = fill name entry table decls := by
  induction decls generalizing table with
  | nil => simp [fill, eq_comm (a := table)]
  | cons d decls ih =>
    simp only [List.foldlM_cons, Check.result_bind, Check.bind_eq_ok_iff, h.eq_ok_iff, ih, List.map_cons, List.nodup_cons,
      List.mem_map, List.forall_mem_cons]
    refine ⟨fun h => ?_, fun h => ?_⟩
    · obtain ⟨_, ⟨hd, hv, rfl⟩, hn, hm, hvs, rfl⟩ := h
      have hm' : ∀ d' ∈ decls, name d ≠ name d' ∧ name d' ∉ table := fun d' hd' => not_mem_insert_iff.1 (hm d' hd')
      exact ⟨⟨fun ⟨d', hd', he⟩ => (hm' d' hd').1 he.symm, hn⟩, ⟨hd, fun d' hd' => (hm' d' hd').2⟩, ⟨hv, hvs⟩, rfl⟩
    · obtain ⟨⟨hnew, hn⟩, ⟨hd, hm⟩, ⟨hv, hvs⟩, rfl⟩ := h
      have hm' : ∀ d' ∈ decls, name d' ∉ table.insert (name d) (entry d) := fun d' hd' =>
        not_mem_insert_iff.2 ⟨fun he => hnew ⟨d', hd', he.symm⟩, hm d' hd'⟩
      exact ⟨_, ⟨hd, hv, rfl⟩, hn, hm', hvs, rfl⟩

/-- A name that is not among those entered is looked up as before. -/
theorem getElem?_fill_of_forall_ne (decls : List δ) (table : Std.ExtTreeMap (Name kind) ν) {n : Name kind}
    (hn : ∀ d ∈ decls, name d ≠ n) : (fill name entry table decls)[n]? = table[n]? := by
  induction decls generalizing table with
  | nil => rfl
  | cons d decls ih =>
    rw [List.forall_mem_cons] at hn
    have h := ih (table.insert (name d) (entry d)) hn.2
    rw [Std.ExtTreeMap.getElem?_insert, if_neg (by rw [Std.LawfulEqOrd.compare_eq_iff_eq]; exact hn.1)] at h
    exact h

/-- Each of some declarations of distinct names is looked up by its name. -/
theorem getElem?_fill_of_mem {decls : List δ} (table : Std.ExtTreeMap (Name kind) ν) (hn : (decls.map name).Nodup)
    {d : δ} (hd : d ∈ decls) : (fill name entry table decls)[name d]? = some (entry d) := by
  induction decls generalizing table with
  | nil => cases hd
  | cons d' decls ih =>
    rw [List.map_cons, List.nodup_cons, List.mem_map] at hn
    rcases List.mem_cons.1 hd with rfl | hd
    · have h : (fill name entry (table.insert (name d) (entry d)) decls)[name d]? = _ :=
        getElem?_fill_of_forall_ne decls _ (fun d' hd' he => hn.1 ⟨d', hd', he⟩)
      rw [Std.ExtTreeMap.getElem?_insert_self] at h
      exact h
    · exact ih _ hn.2 hd

/-- What a table that was filled from nothing with declarations of distinct names holds: them and nothing else. -/
theorem getElem?_fill_empty_iff {decls : List δ} (hn : (decls.map name).Nodup) (n : Name kind) (v : ν) :
    (fill name entry ∅ decls)[n]? = some v ↔ ∃ d ∈ decls, name d = n ∧ entry d = v := by
  refine ⟨fun h => ?_, fun h => ?_⟩
  · by_cases hd : ∃ d ∈ decls, name d = n
    · obtain ⟨d, hd, rfl⟩ := hd
      rw [getElem?_fill_of_mem _ hn hd] at h
      exact ⟨d, hd, rfl, Option.some.inj h⟩
    · rw [getElem?_fill_of_forall_ne _ _ (fun d hd' he => hd ⟨d, hd', he⟩)] at h
      simp at h
  · obtain ⟨d, hd, rfl, rfl⟩ := h
    exact getElem?_fill_of_mem _ hn hd

/-- A name is in a table that was filled if it was there before or is the name of an entry. -/
theorem mem_fill_iff (decls : List δ) (table : Std.ExtTreeMap (Name kind) ν) {n : Name kind} :
    n ∈ fill name entry table decls ↔ n ∈ table ∨ n ∈ decls.map name := by
  induction decls generalizing table with
  | nil => simp [fill]
  | cons d decls ih =>
    have h : n ∈ fill name entry (table.insert (name d) (entry d)) decls ↔ _ := ih (table.insert (name d) (entry d))
    rw [Std.ExtTreeMap.mem_insert, Std.LawfulEqOrd.compare_eq_iff_eq] at h
    refine h.trans ?_
    rw [List.map_cons, List.mem_cons, eq_comm (a := name d), or_comm (a := n = name d), or_assoc]

/-- A table that is filled with declarations of distinct and new names grows by one entry for each. -/
theorem size_fill {decls : List δ} {table : Std.ExtTreeMap (Name kind) ν} (hn : (decls.map name).Nodup)
    (hnew : ∀ d ∈ decls, name d ∉ table) : (fill name entry table decls).size = table.size + decls.length := by
  induction decls generalizing table with
  | nil => rfl
  | cons d decls ih =>
    rw [List.map_cons, List.nodup_cons, List.mem_map] at hn
    rw [List.forall_mem_cons] at hnew
    have hnext : ∀ d' ∈ decls, name d' ∉ table.insert (name d) (entry d) := by
      intro d' hd'
      exact not_mem_insert_iff.2 ⟨fun he => hn.1 ⟨d', hd', he.symm⟩, hnew.2 d' hd'⟩
    have h : (fill name entry (table.insert (name d) (entry d)) decls).size = _ := ih hn.2 hnext
    simp only [Std.ExtTreeMap.size_insert, Std.ExtTreeMap.contains_iff_mem, if_neg hnew.1] at h
    rw [List.length_cons, Nat.add_comm decls.length, ← Nat.add_assoc]
    exact h

/-- What is wrong with a declaration behind others: its name is taken by one of them, or else it has a fault of its own. -/
def FaultBehind (name : δ → Name kind) (taken : δ → TypeError) (own : δ → TypeError → Prop) (before : List δ) (d : δ)
    (e : TypeError) : Prop :=
  name d ∈ before.map name ∧ e = taken d ∨ name d ∉ before.map name ∧ own d e

/-- Entering declarations fails exactly where one is at fault behind others that were entered. -/
theorem Enters.foldlM_eq_error_iff {taken : δ → TypeError} {validate : δ → Except TypeError Unit}
    {register : Std.ExtTreeMap (Name kind) ν → δ → Check (Std.ExtTreeMap (Name kind) ν)}
    (h : Enters name entry taken validate register) {decls : List δ} {e : TypeError} :
    (decls.foldlM register ∅ : Check _).result = .error e ↔
      ∃ before d behind, decls = before ++ d :: behind ∧ (∃ table, (before.foldlM register ∅ : Check _).result = .ok table) ∧
        FaultBehind name taken (fun d e => validate d = .error e) before d e := by
  have hregister : ∀ before table d, (before.foldlM register ∅ : Check _).result = .ok table →
      ((register table d).result = .error e ↔ FaultBehind name taken (fun d e => validate d = .error e) before d e) := by
    intro before table d hbefore
    obtain ⟨-, -, -, rfl⟩ := (h.foldlM_eq_ok_iff before ∅ table).1 hbefore
    have hmem : name d ∈ fill name entry ∅ before ↔ name d ∈ before.map name := by
      rw [mem_fill_iff]
      simp
    rw [h, FaultBehind, ← hmem]
    by_cases hd : name d ∈ fill name entry ∅ before
    · simp [hd, eq_comm]
    · simp [hd, Check.bind_eq_error_iff]
  rw [Check.foldlM_eq_error_iff]
  constructor
  · rintro ⟨before, d, behind, table, hsplit, hbefore, hd⟩
    exact ⟨before, d, behind, hsplit, ⟨table, hbefore⟩, (hregister before table d hbefore).1 hd⟩
  · rintro ⟨before, d, behind, hsplit, ⟨table, hbefore⟩, hd⟩
    exact ⟨before, d, behind, table, hsplit, hbefore, (hregister before table d hbefore).2 hd⟩

end Tables

open Tables

/-! ## Groups of declarations -/

theorem Ty.isVoid_eq_true_iff {T : Ty} : T.isVoid = true ↔ T = .void := by
  cases T <;> simp [isVoid]

theorem Ty.isVoid_eq_false_iff {T : Ty} : T.isVoid = false ↔ T ≠ .void := by
  rw [← Bool.not_eq_true, isVoid_eq_true_iff]

/-- A group passes behind the names already seen exactly when no declaration is `void` or repeats a name. -/
theorem Decl.validate_eq_ok_iff {kind : NameKind} (onVoid onDuplicate : Name kind → TypeError) (seen : List (Name kind))
    (decls : List (Decl kind)) {u : Unit} :
    Decl.validate onVoid onDuplicate seen decls = .ok u ↔
      (decls.map Decl.name).Nodup ∧ (∀ d ∈ decls, d.ty ≠ .void) ∧ ∀ d ∈ decls, d.name ∉ seen := by
  induction decls generalizing seen with
  | nil => simp [validate]
  | cons d decls ih =>
    simp only [validate, Ty.isVoid_eq_true_iff, List.map_cons, List.nodup_cons, List.mem_map, List.forall_mem_cons]
    by_cases hv : d.ty = .void
    · simp [hv]
    by_cases hs : d.name ∈ seen
    · simp [hv, hs]
    rw [if_neg hv, if_neg hs, ih]
    simp only [List.mem_cons, not_or]
    refine ⟨fun h => ?_, fun h => ?_⟩
    · obtain ⟨hn, hvs, hm⟩ := h
      exact ⟨⟨fun ⟨d', hd', he⟩ => (hm d' hd').1 he, hn⟩, ⟨hv, hvs⟩, hs, fun d' hd' => (hm d' hd').2⟩
    · obtain ⟨⟨hnew, hn⟩, ⟨-, hvs⟩, -, hm⟩ := h
      exact ⟨hn, hvs, fun d' hd' => ⟨fun he => hnew ⟨d', hd', he⟩, hm d' hd'⟩⟩

/-- A group passes from the start exactly when it is valid. -/
theorem Decl.validate_nil_eq_ok_iff {kind : NameKind} (onVoid onDuplicate : Name kind → TypeError)
    (decls : List (Decl kind)) {u : Unit} :
    Decl.validate onVoid onDuplicate [] decls = .ok u ↔ Decl.Valid decls := by
  rw [validate_eq_ok_iff, Decl.Valid]
  simp

/-- A group in two pieces passes if the first one does, and the second one behind the names of the first. -/
theorem Decl.validate_append {kind : NameKind} (onVoid onDuplicate : Name kind → TypeError) (seen : List (Name kind))
    (before behind : List (Decl kind)) :
    Decl.validate onVoid onDuplicate seen (before ++ behind) = (do
      Decl.validate onVoid onDuplicate seen before
      Decl.validate onVoid onDuplicate ((before.map Decl.name).reverse ++ seen) behind) := by
  induction before generalizing seen with
  | nil => rfl
  | cons d before ih =>
    rw [List.cons_append, validate, validate]
    by_cases hv : d.ty.isVoid = true
    · rw [if_pos hv, if_pos hv, Check.error_bind]
    by_cases hs : d.name ∈ seen
    · rw [if_neg hv, if_neg hv, if_pos hs, if_pos hs, Check.error_bind]
    · rw [if_neg hv, if_neg hv, if_neg hs, if_neg hs, ih, List.map_cons, List.reverse_cons, List.append_assoc]
      rfl

/-- What is wrong with a group of declarations: those before the first bad one are valid, and it is `void`, or else it has the
name of one of them. -/
def Decl.FirstFault {kind : NameKind} (onVoid onDuplicate : Name kind → TypeError) (decls : List (Decl kind))
    (e : TypeError) : Prop :=
  ∃ before bad behind, decls = before ++ bad :: behind ∧ Decl.Valid before ∧
    (bad.ty = .void ∧ e = onVoid bad.name ∨
      bad.ty ≠ .void ∧ bad.name ∈ before.map Decl.name ∧ e = onDuplicate bad.name)

/-- Where a group does not pass, it is for the first of its declarations that is bad behind the names already seen. -/
theorem Decl.exists_of_validate_eq_error {kind : NameKind} {onVoid onDuplicate : Name kind → TypeError}
    {seen : List (Name kind)} {decls : List (Decl kind)} {e : TypeError}
    (h : Decl.validate onVoid onDuplicate seen decls = .error e) :
    ∃ before bad behind, decls = before ++ bad :: behind ∧ Decl.validate onVoid onDuplicate seen before = .ok () ∧
      (bad.ty = .void ∧ e = onVoid bad.name ∨
        bad.ty ≠ .void ∧ bad.name ∈ (before.map Decl.name).reverse ++ seen ∧ e = onDuplicate bad.name) := by
  induction decls generalizing seen with
  | nil => cases h
  | cons d decls ih =>
    simp only [validate, Ty.isVoid_eq_true_iff] at h
    by_cases hv : d.ty = .void
    · rw [if_pos hv] at h
      exact ⟨[], d, decls, rfl, rfl, Or.inl ⟨hv, (Except.error.inj h).symm⟩⟩
    rw [if_neg hv] at h
    by_cases hs : d.name ∈ seen
    · rw [if_pos hs] at h
      exact ⟨[], d, decls, rfl, rfl, Or.inr ⟨hv, hs, (Except.error.inj h).symm⟩⟩
    rw [if_neg hs] at h
    obtain ⟨before, bad, behind, rfl, hbefore, hbad⟩ := ih h
    refine ⟨d :: before, bad, behind, rfl, ?_, ?_⟩
    · rw [validate, Ty.isVoid_eq_false_iff.2 hv, if_neg Bool.false_ne_true, if_neg hs, hbefore]
    · rw [List.map_cons, List.reverse_cons, List.append_assoc]
      exact hbad

/-- A group does not pass from the start exactly for its first bad declaration. -/
theorem Decl.validate_nil_eq_error_iff {kind : NameKind} {onVoid onDuplicate : Name kind → TypeError}
    {decls : List (Decl kind)} {e : TypeError} :
    Decl.validate onVoid onDuplicate [] decls = .error e ↔ Decl.FirstFault onVoid onDuplicate decls e := by
  constructor
  · intro h
    obtain ⟨before, bad, behind, hsplit, hbefore, hbad⟩ := Decl.exists_of_validate_eq_error h
    rw [List.append_nil, List.mem_reverse] at hbad
    exact ⟨before, bad, behind, hsplit, (Decl.validate_nil_eq_ok_iff onVoid onDuplicate before).1 hbefore, hbad⟩
  · rintro ⟨before, bad, behind, rfl, hbefore, hbad⟩
    have hok : Decl.validate onVoid onDuplicate [] before = .ok () := (Decl.validate_nil_eq_ok_iff _ _ before).2 hbefore
    rw [Decl.validate_append, hok, Check.ok_bind, validate]
    rcases hbad with ⟨hv, rfl⟩ | ⟨hv, hmem, rfl⟩
    · rw [if_pos (Ty.isVoid_eq_true_iff.2 hv)]
    · rw [if_neg (Bool.eq_false_iff.1 (Ty.isVoid_eq_false_iff.2 hv)), if_pos]
      rw [List.append_nil, List.mem_reverse]
      exact hmem

/-! ## The two tables -/

/-- Fields that are added behind others are checked against the names of those, and are then what was declared. -/
theorem StructTable.foldlM_addField (struct : StructName) (fields decls : List (Decl .field)) (seen : List FieldName)
    (hseen : ∀ name, name ∈ seen ↔ name ∈ fields.map Decl.name) :
    decls.foldlM (addField struct) fields = (do
      Decl.validate (.voidField struct) (.duplicateField struct) seen decls
      .ok (fields ++ decls)) := by
  induction decls generalizing fields seen with
  | nil =>
    rw [List.append_nil]
    rfl
  | cons d decls ih =>
    have hseen' : ∀ name, name ∈ d.name :: seen ↔ name ∈ (fields ++ [d]).map Decl.name := by
      intro name
      simp [hseen, or_comm]
    simp only [List.foldlM_cons, addField, Decl.validate, ← hseen]
    split
    · rfl
    split
    · rfl
    rw [Check.ok_bind, ih (fields ++ [d]) (d.name :: seen) hseen', List.append_cons fields d decls]

/-- The fields that are collected one by one are those that were declared, if they pass. -/
theorem StructTable.collectFields_eq (decl : StructDecl) :
    collectFields decl = (do
      Decl.validate (.voidField decl.name) (.duplicateField decl.name) [] decl.fields
      .ok decl.fields) :=
  foldlM_addField decl.name [] decl.fields [] fun _ => Iff.rfl

/-- A structure is entered with the fields that were declared. -/
theorem StructTable.register_eq (table : StructTable) (decl : StructDecl) :
    register table decl = (do
      if decl.name ∈ table then
        throw (.duplicateStruct decl.name)
      Decl.validate (.voidField decl.name) (.duplicateField decl.name) [] decl.fields
      Check.emit (.structRegistered decl.name decl.fields.length)
      return table.insert decl.name decl.fields) := by
  rw [register, collectFields_eq]
  cases Decl.validate (.voidField decl.name) (.duplicateField decl.name) [] decl.fields with
  | ok _ => rfl
  | error _ => rfl

/-- A structure is entered if its name is free and its fields are in order. -/
theorem StructTable.enters :
    Enters StructDecl.name StructDecl.fields (fun d => .duplicateStruct d.name)
      (fun d => Decl.validate (.voidField d.name) (.duplicateField d.name) [] d.fields) StructTable.register := by
  intro table d
  rw [register_eq]
  split <;> simp [Check.result_bind, -bind_pure_comp]

/-- A function is entered if its name is free and its parameters are in order. -/
theorem FunTable.enters :
    Enters FunDef.name FunDef.signature (fun f => .duplicateFunction f.name)
      (fun f => Decl.validate (.voidParam f.name) (.duplicateParam f.name) [] f.params) FunTable.register := by
  intro table f
  unfold register
  split <;> simp [Check.result_bind, -bind_pure_comp]

/-- The table of structures is built exactly when names are distinct and all fields in order; it is then filled with them. -/
theorem StructTable.build_eq_ok_iff (decls : List StructDecl) (table : StructTable) :
    (build decls).result = .ok table ↔
      (decls.map StructDecl.name).Nodup ∧ (∀ d ∈ decls, Decl.Valid d.fields) ∧
        table = fill StructDecl.name StructDecl.fields ∅ decls := by
  rw [build, StructTable.enters.foldlM_eq_ok_iff]
  simp [Decl.validate_nil_eq_ok_iff]

/-- The table of functions is built exactly when names are distinct and all parameters in order; it is then filled with
them. -/
theorem FunTable.build_eq_ok_iff (funs : List FunDef) (table : FunTable) :
    (build funs).result = .ok table ↔
      (funs.map FunDef.name).Nodup ∧ (∀ f ∈ funs, Decl.Valid f.params) ∧
        table = fill FunDef.name FunDef.signature ∅ funs := by
  rw [build, FunTable.enters.foldlM_eq_ok_iff]
  simp [Decl.validate_nil_eq_ok_iff]

end CoreC
