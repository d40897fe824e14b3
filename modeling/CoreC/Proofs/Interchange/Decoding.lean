import CoreC.Proofs.Interchange.Records
import CoreC.Proofs.Json.Document
import CoreC.Source

/-!
# Reading programs

A value is read as a part of a program exactly if it represents that part. For the kinds of syntax that nest, one direction
follows the reader and the other the syntax; all parts come together in `Source.read_eq_ok_iff`, where a text is read as a
program or as an expression exactly if it is a document of a value that represents it.
-/

namespace CoreC

/-- A payload that is read stands under its tag, if `null` is not read. -/
theorem Json.tagged_of_read {α : Type} {read : Json → Option α} (hnull : read .null = none) {j v : Json} {tag : String}
    (hv : j.variant? = some (tag, v)) {a : α} (h : read v = some a) : j.Tagged tag v := by
  refine Json.tagged_of_variant? hv fun he => ?_
  rw [he, hnull] at h
  cases h

/-- A record that is read as the payload of a variant stands under its tag. -/
theorem Json.record_of_read {names : List String} (hnodup : names.Nodup) {j v : Json} {tag : String}
    (hv : j.variant? = some (tag, v)) {vs : List Json} (h : v.record? names = some vs) :
    j.Tagged tag v ∧ v.Record (names.zip vs) :=
  ⟨Json.tagged_of_read rfl hv h, ((Json.record?_eq_some_iff hnodup).1 h).2⟩

/-! ## Names, operators, types and places -/

/-- A name is read from a string, as its text. -/
theorem Name.ofJson?_eq_some_iff {kind : NameKind} {j : Json} {name : Name kind} :
    Name.ofJson? j = some name ↔ name.RepresentedBy j := by
  rw [Name.ofJson?, Option.map_eq_some_iff, Name.RepresentedBy, ← Json.text?_eq_some_iff]
  refine ⟨fun h => ?_, fun h => ⟨name.text, h, rfl⟩⟩
  obtain ⟨text, ht, rfl⟩ := h
  exact ht

/-- An operator is read from its tag. -/
theorem BinaryOp.ofJson?_eq_some_iff {j : Json} {op : BinaryOp} :
    BinaryOp.ofJson? j = some op ↔ op.RepresentedBy j := by
  rw [BinaryOp.RepresentedBy, ← Json.variant?_null_iff]
  unfold BinaryOp.ofJson?
  split
  case h_7 hadd hsub hmul hdiv hequal hless =>
    refine ⟨nofun, fun h => ?_⟩
    cases op with
    | add => exact absurd h hadd
    | sub => exact absurd h hsub
    | mul => exact absurd h hmul
    | div => exact absurd h hdiv
    | equal => exact absurd h hequal
    | less => exact absurd h hless
  all_goals
    rename_i h
    rw [h]
    cases op <;> simp [BinaryOp.tag]

namespace Ty

/-- No type is read from `null`, which is what a tag alone would have for a payload. -/
theorem ofJson?_null : Ty.ofJson? .null = none := by
  rw [Ty.ofJson?]
  rfl

/-- What is read as a type represents the type. -/
theorem representedBy_of_ofJson? {j : Json} {ty : Ty} (h : Ty.ofJson? j = some ty) : ty.RepresentedBy j := by
  fun_induction Ty.ofJson? j generalizing ty with
  | case1 j hv => cases h; exact .void (Json.variant?_null_iff.1 hv)
  | case2 j hv => cases h; exact .int (Json.variant?_null_iff.1 hv)
  | case3 j hv => cases h; exact .char (Json.variant?_null_iff.1 hv)
  | case4 j hv => cases h; exact .bool (Json.variant?_null_iff.1 hv)
  | case5 j v hv ih =>
    obtain ⟨target, ht, rfl⟩ := Option.map_eq_some_iff.1 h
    exact .pointer (Json.tagged_of_read ofJson?_null hv ht) (ih ht)
  | case6 j v hv =>
    obtain ⟨name, hn, rfl⟩ := Option.map_eq_some_iff.1 h
    exact .struct (Json.tagged_of_read rfl hv hn) (Name.ofJson?_eq_some_iff.1 hn)
  | case7 => cases h

/-- What represents a type is read as the type. -/
theorem ofJson?_of_representedBy {j : Json} {ty : Ty} (h : ty.RepresentedBy j) : Ty.ofJson? j = some ty := by
  induction h with
  | void h | int h | char h | bool h =>
    rw [Ty.ofJson?, Json.variant?_null_iff.2 h]
    rfl
  | pointer ht _ ih =>
    rw [Ty.ofJson?, Json.variant?_of_tagged ht]
    exact Option.map_eq_some_iff.2 ⟨_, ih, rfl⟩
  | struct ht hn =>
    rw [Ty.ofJson?, Json.variant?_of_tagged ht]
    exact Option.map_eq_some_iff.2 ⟨_, Name.ofJson?_eq_some_iff.2 hn, rfl⟩

/-- A type is read from a value exactly if the value represents it. -/
theorem ofJson?_eq_some_iff {j : Json} {ty : Ty} : Ty.ofJson? j = some ty ↔ ty.RepresentedBy j :=
  ⟨representedBy_of_ofJson?, ofJson?_of_representedBy⟩

end Ty

/-- A declaration is read from a value exactly if the value represents it. -/
theorem Decl.ofJson?_eq_some_iff {kind : NameKind} {j : Json} {decl : Decl kind} :
    Decl.ofJson? j = some decl ↔ decl.RepresentedBy j := by
  refine ⟨fun h => ?_, fun h => ?_⟩
  · unfold Decl.ofJson? at h
    split at h
    · rename_i ty name hr
      simp only [Option.bind_eq_bind, Option.bind_eq_some_iff, Option.pure_def, Option.some.injEq] at h
      obtain ⟨ty, hty, name, hn, rfl⟩ := h
      exact .mk ((Json.record?_eq_some_iff (by decide)).1 hr).2 (Ty.ofJson?_eq_some_iff.1 hty)
        (Name.ofJson?_eq_some_iff.1 hn)
    · cases h
  · cases h with
    | @mk j ty name _ hr hty hn =>
      have hparts : j.record? ["var_type", "name"] = some [ty, name] :=
        (Json.record?_eq_some_iff (by decide)).2 ⟨rfl, hr⟩
      simp only [Decl.ofJson?, hparts, Ty.ofJson?_eq_some_iff.2 hty, Name.ofJson?_eq_some_iff.2 hn]
      rfl

/-- Declarations are read from an array of them, in order. -/
theorem Decl.listOfJson?_eq_some_iff {kind : NameKind} {j : Json} {decls : List (Decl kind)} :
    listOfJson? Decl.ofJson? j = some decls ↔ Json.Listed Decl.RepresentedBy decls j :=
  CoreC.listOfJson?_eq_some_iff fun _ _ => Decl.ofJson?_eq_some_iff

namespace Place

theorem ofJson?_null : Place.ofJson? .null = none := by
  rw [Place.ofJson?]
  rfl

/-- What is read as a place represents the place. -/
theorem representedBy_of_ofJson? {j : Json} {place : Place} (h : Place.ofJson? j = some place) :
    place.RepresentedBy j := by
  fun_induction Place.ofJson? j generalizing place with
  | case1 j v hv =>
    obtain ⟨name, hn, rfl⟩ := Option.map_eq_some_iff.1 h
    exact .var (Json.tagged_of_read rfl hv hn) (Name.ofJson?_eq_some_iff.1 hn)
  | case2 j v hv b n hr ih =>
    simp only [Option.bind_eq_bind, Option.bind_eq_some_iff, Option.pure_def, Option.some.injEq] at h
    obtain ⟨base, hb, name, hn, rfl⟩ := h
    obtain ⟨ht, hr⟩ := Json.record_of_read (by decide) hv hr
    exact .field ht hr (ih hb) (Name.ofJson?_eq_some_iff.1 hn)
  | case3 => cases h
  | case4 j v hv ih =>
    obtain ⟨pointer, hp, rfl⟩ := Option.map_eq_some_iff.1 h
    exact .deref (Json.tagged_of_read ofJson?_null hv hp) (ih hp)
  | case5 => cases h

/-- What represents a place is read as the place. -/
theorem ofJson?_of_representedBy {j : Json} {place : Place} (h : place.RepresentedBy j) :
    Place.ofJson? j = some place := by
  induction h with
  | var ht hn =>
    rw [Place.ofJson?, Json.variant?_of_tagged ht]
    exact Option.map_eq_some_iff.2 ⟨_, Name.ofJson?_eq_some_iff.2 hn, rfl⟩
  | @field j v b n base name ht hr _ hn ih =>
    have hparts : v.record? ["base", "field"] = some [b, n] := (Json.record?_eq_some_iff (by decide)).2 ⟨rfl, hr⟩
    rw [Place.ofJson?, Json.variant?_of_tagged ht]
    -- `simp only` picks the branch of the tag. The branch keeps the equation of its own match, for termination, so the
    -- parts have to be rewritten in it by `rw`.
    simp only
    rw [hparts]
    simp only [ih, Name.ofJson?_eq_some_iff.2 hn]
    rfl
  | deref ht _ ih =>
    rw [Place.ofJson?, Json.variant?_of_tagged ht]
    exact Option.map_eq_some_iff.2 ⟨_, ih, rfl⟩

/-- A place is read from a value exactly if the value represents it. -/
theorem ofJson?_eq_some_iff {j : Json} {place : Place} : Place.ofJson? j = some place ↔ place.RepresentedBy j :=
  ⟨representedBy_of_ofJson?, ofJson?_of_representedBy⟩

end Place

namespace Expr

theorem ofJson?_null : Expr.ofJson? .null = none := by
  rw [Expr.ofJson?]
  rfl

/-- Arguments are read one by one. -/
theorem mapM_attach_ofJson? (es : List Json) :
    (es.attach.mapM fun ⟨a, _⟩ => Expr.ofJson? a) = es.mapM Expr.ofJson? := by
  simp

/-- What is read as an expression represents the expression. The induction follows the reader, which goes down in the value.
-/
theorem representedBy_of_ofJson? {j : Json} {e : Expr} (h : Expr.ofJson? j = some e) : e.RepresentedBy j := by
  fun_induction Expr.ofJson? j generalizing e with
  | case1 j v hv =>
    obtain ⟨value, hi, rfl⟩ := Option.map_eq_some_iff.1 h
    exact .int (Json.tagged_of_read rfl hv hi) (Json.int64?_eq_some_iff.1 hi)
  | case2 j v hv =>
    obtain ⟨value, hc, rfl⟩ := Option.map_eq_some_iff.1 h
    exact .char (Json.tagged_of_read rfl hv hc) (Json.char?_eq_some_iff.1 hc)
  | case3 j b hv =>
    cases h
    exact .bool (Json.tagged_of_variant? hv nofun)
  | case4 j v hv =>
    obtain ⟨name, hn, rfl⟩ := Option.map_eq_some_iff.1 h
    exact .var (Json.tagged_of_read rfl hv hn) (Name.ofJson?_eq_some_iff.1 hn)
  | case5 j v hv ih =>
    obtain ⟨size, hs, rfl⟩ := Option.map_eq_some_iff.1 h
    exact .malloc (Json.tagged_of_read ofJson?_null hv hs) (ih hs)
  | case6 j v hv ih =>
    obtain ⟨pointer, hp, rfl⟩ := Option.map_eq_some_iff.1 h
    exact .free (Json.tagged_of_read ofJson?_null hv hp) (ih hp)
  | case7 j v hv =>
    obtain ⟨ty, ht, rfl⟩ := Option.map_eq_some_iff.1 h
    exact .sizeof (Json.tagged_of_read Ty.ofJson?_null hv ht) (Ty.ofJson?_eq_some_iff.1 ht)
  | case8 j v hv o l r hr ihl ihr =>
    simp only [Option.bind_eq_bind, Option.bind_eq_some_iff, Option.pure_def, Option.some.injEq] at h
    obtain ⟨op, hop, left, hleft, right, hright, rfl⟩ := h
    obtain ⟨ht, hr⟩ := Json.record_of_read (by decide) hv hr
    exact .binary ht hr (BinaryOp.ofJson?_eq_some_iff.1 hop) (ihl hleft) (ihr hright)
  | case10 j v hv n a hr es he ih =>
    simp only [Option.bind_eq_bind, Option.bind_eq_some_iff, Option.pure_def, Option.some.injEq] at h
    obtain ⟨name, hn, arguments, ha, rfl⟩ := h
    obtain ⟨ht, hr⟩ := Json.record_of_read (by decide) hv hr
    obtain rfl := Json.elements?_eq_some_iff.1 he
    rw [mapM_attach_ofJson?] at ha
    exact .construct ht hr (Name.ofJson?_eq_some_iff.1 hn) (listed_of_mapM (fun e he a => ih e he) ha)
  | case13 j v hv n a hr es he ih =>
    simp only [Option.bind_eq_bind, Option.bind_eq_some_iff, Option.pure_def, Option.some.injEq] at h
    obtain ⟨name, hn, arguments, ha, rfl⟩ := h
    obtain ⟨ht, hr⟩ := Json.record_of_read (by decide) hv hr
    obtain rfl := Json.elements?_eq_some_iff.1 he
    rw [mapM_attach_ofJson?] at ha
    exact .call ht hr (Name.ofJson?_eq_some_iff.1 hn) (listed_of_mapM (fun e he a => ih e he) ha)
  | case16 j v hv t o hr ih =>
    simp only [Option.bind_eq_bind, Option.bind_eq_some_iff, Option.pure_def, Option.some.injEq] at h
    obtain ⟨target, htarget, operand, hoperand, rfl⟩ := h
    obtain ⟨ht, hr⟩ := Json.record_of_read (by decide) hv hr
    exact .cast ht hr (Ty.ofJson?_eq_some_iff.1 htarget) (ih hoperand)
  | case18 j v hv =>
    obtain ⟨place, hp, rfl⟩ := Option.map_eq_some_iff.1 h
    exact .addressOf (Json.tagged_of_read Place.ofJson?_null hv hp) (Place.ofJson?_eq_some_iff.1 hp)
  | case19 j v hv ih =>
    obtain ⟨pointer, hp, rfl⟩ := Option.map_eq_some_iff.1 h
    exact .deref (Json.tagged_of_read ofJson?_null hv hp) (ih hp)
  | case20 j v hv o n hr ih =>
    simp only [Option.bind_eq_bind, Option.bind_eq_some_iff, Option.pure_def, Option.some.injEq] at h
    obtain ⟨object, ho, name, hn, rfl⟩ := h
    obtain ⟨ht, hr⟩ := Json.record_of_read (by decide) hv hr
    exact .field ht hr (ih ho) (Name.ofJson?_eq_some_iff.1 hn)
  -- parts that are no record of the tag, arguments that are no array, and tags of no expression
  | case9 | case11 | case12 | case14 | case15 | case17 | case21 | case22 => cases h

mutual

/-- What represents an expression is read as the expression. The recursion is on the expression and not on the derivation,
whose arguments are nested in `Json.Listed`. -/
theorem ofJson?_of_representedBy : ∀ (e : Expr) {j : Json} (_ : e.RepresentedBy j), Expr.ofJson? j = some e
  | .int value, j, h => by
    cases h with
    | int ht hi =>
      rw [Expr.ofJson?, Json.variant?_of_tagged ht]
      exact Option.map_eq_some_iff.2 ⟨value, Json.int64?_eq_some_iff.2 hi, rfl⟩
  | .char value, j, h => by
    cases h with
    | char ht hc =>
      rw [Expr.ofJson?, Json.variant?_of_tagged ht]
      exact Option.map_eq_some_iff.2 ⟨value, Json.char?_eq_some_iff.2 hc, rfl⟩
  | .bool value, j, h => by
    cases h with
    | bool ht =>
      rw [Expr.ofJson?, Json.variant?_of_tagged ht]
      rfl
  | .var name, j, h => by
    cases h with
    | var ht hn =>
      rw [Expr.ofJson?, Json.variant?_of_tagged ht]
      exact Option.map_eq_some_iff.2 ⟨name, Name.ofJson?_eq_some_iff.2 hn, rfl⟩
  | .malloc size, j, h => by
    cases h with
    | malloc ht hs =>
      rw [Expr.ofJson?, Json.variant?_of_tagged ht]
      exact Option.map_eq_some_iff.2 ⟨size, ofJson?_of_representedBy size hs, rfl⟩
  | .free pointer, j, h => by
    cases h with
    | free ht hp =>
      rw [Expr.ofJson?, Json.variant?_of_tagged ht]
      exact Option.map_eq_some_iff.2 ⟨pointer, ofJson?_of_representedBy pointer hp, rfl⟩
  | .sizeof ty, j, h => by
    cases h with
    | sizeof ht hty =>
      rw [Expr.ofJson?, Json.variant?_of_tagged ht]
      exact Option.map_eq_some_iff.2 ⟨ty, Ty.ofJson?_eq_some_iff.2 hty, rfl⟩
  | .binary op left right, j, h => by
    cases h with
    | @binary j v o l r _ _ _ ht hr hop hleft hright =>
      have hparts : v.record? ["op", "left", "right"] = some [o, l, r] :=
        (Json.record?_eq_some_iff (by decide)).2 ⟨rfl, hr⟩
      have hl := ofJson?_of_representedBy left hleft
      have hr := ofJson?_of_representedBy right hright
      rw [Expr.ofJson?, Json.variant?_of_tagged ht]
      simp only
      rw [hparts]
      simp only [BinaryOp.ofJson?_eq_some_iff.2 hop, hl, hr]
      rfl
  | .construct name arguments, j, h => by
    cases h with
    | @construct j v n a _ _ ht hr hn ha =>
      have hparts : v.record? ["name", "arguments"] = some [n, a] :=
        (Json.record?_eq_some_iff (by decide)).2 ⟨rfl, hr⟩
      obtain ⟨es, he, hes⟩ := Option.bind_eq_some_iff.1 (listOfJson?_of_listed arguments ha)
      rw [Expr.ofJson?, Json.variant?_of_tagged ht]
      simp only [mapM_attach_ofJson?]
      rw [hparts]
      simp only
      rw [he]
      simp only [Name.ofJson?_eq_some_iff.2 hn, hes]
      rfl
  | .call name arguments, j, h => by
    cases h with
    | @call j v n a _ _ ht hr hn ha =>
      have hparts : v.record? ["function", "arguments"] = some [n, a] :=
        (Json.record?_eq_some_iff (by decide)).2 ⟨rfl, hr⟩
      obtain ⟨es, he, hes⟩ := Option.bind_eq_some_iff.1 (listOfJson?_of_listed arguments ha)
      rw [Expr.ofJson?, Json.variant?_of_tagged ht]
      simp only [mapM_attach_ofJson?]
      rw [hparts]
      simp only
      rw [he]
      simp only [Name.ofJson?_eq_some_iff.2 hn, hes]
      rfl
  | .cast target operand, j, h => by
    cases h with
    | @cast j v t o _ _ ht hr htarget ho =>
      have hparts : v.record? ["target_type", "operand"] = some [t, o] :=
        (Json.record?_eq_some_iff (by decide)).2 ⟨rfl, hr⟩
      rw [Expr.ofJson?, Json.variant?_of_tagged ht]
      simp only
      rw [hparts]
      simp only [Ty.ofJson?_eq_some_iff.2 htarget, ofJson?_of_representedBy operand ho]
      rfl
  | .addressOf place, j, h => by
    cases h with
    | addressOf ht hp =>
      rw [Expr.ofJson?, Json.variant?_of_tagged ht]
      exact Option.map_eq_some_iff.2 ⟨place, Place.ofJson?_eq_some_iff.2 hp, rfl⟩
  | .deref pointer, j, h => by
    cases h with
    | deref ht hp =>
      rw [Expr.ofJson?, Json.variant?_of_tagged ht]
      exact Option.map_eq_some_iff.2 ⟨pointer, ofJson?_of_representedBy pointer hp, rfl⟩
  | .field object name, j, h => by
    cases h with
    | @field j v o n _ _ ht hr ho hn =>
      have hparts : v.record? ["object", "field"] = some [o, n] :=
        (Json.record?_eq_some_iff (by decide)).2 ⟨rfl, hr⟩
      rw [Expr.ofJson?, Json.variant?_of_tagged ht]
      simp only
      rw [hparts]
      simp only [ofJson?_of_representedBy object ho, Name.ofJson?_eq_some_iff.2 hn]
      rfl

theorem listOfJson?_of_listed : ∀ (es : List Expr) {j : Json} (_ : Json.Listed Expr.RepresentedBy es j),
    listOfJson? Expr.ofJson? j = some es
  | [], j, h => by
    cases h
    rfl
  | e :: es, j, h => by
    cases h with
    | cons he hes => exact listOfJson?_cons (ofJson?_of_representedBy e he) (listOfJson?_of_listed es hes)

end

/-- An expression is read from a value exactly if the value represents it. -/
theorem ofJson?_eq_some_iff {j : Json} {e : Expr} : Expr.ofJson? j = some e ↔ e.RepresentedBy j :=
  ⟨representedBy_of_ofJson?, ofJson?_of_representedBy e⟩

end Expr

/-! ## Statements and programs -/

namespace Stmt

/-- What is read as a statement represents the statement. -/
theorem representedBy_of_ofJson? {j : Json} {s : Stmt} (h : Stmt.ofJson? j = some s) : s.RepresentedBy j := by
  fun_induction Stmt.ofJson? j generalizing s with
  | case1 j v hv =>
    obtain ⟨value, he, rfl⟩ := Option.map_eq_some_iff.1 h
    exact .expr (Json.tagged_of_read Expr.ofJson?_null hv he) (Expr.ofJson?_eq_some_iff.1 he)
  | case2 j v hv d i hr =>
    simp only [Option.bind_eq_bind, Option.bind_eq_some_iff, Option.pure_def, Option.some.injEq] at h
    obtain ⟨decl, hd, init, hi, rfl⟩ := h
    obtain ⟨ht, hr⟩ := Json.record_of_read (by decide) hv hr
    exact .declare ht hr (Decl.ofJson?_eq_some_iff.1 hd) (Expr.ofJson?_eq_some_iff.1 hi)
  | case4 j v hv t e hr =>
    simp only [Option.bind_eq_bind, Option.bind_eq_some_iff, Option.pure_def, Option.some.injEq] at h
    obtain ⟨target, htarget, value, he, rfl⟩ := h
    obtain ⟨ht, hr⟩ := Json.record_of_read (by decide) hv hr
    exact .assign ht hr (Place.ofJson?_eq_some_iff.1 htarget) (Expr.ofJson?_eq_some_iff.1 he)
  | case6 j v hv c t e hr iht ihe =>
    simp only [Option.bind_eq_bind, Option.bind_eq_some_iff, Option.pure_def, Option.some.injEq] at h
    obtain ⟨condition, hc, thenBranch, hthen, elseBranch, helse, rfl⟩ := h
    obtain ⟨ht, hr⟩ := Json.record_of_read (by decide) hv hr
    exact .ifElse ht hr (Expr.ofJson?_eq_some_iff.1 hc) (iht hthen) (ihe helse)
  | case8 j v hv c b hr ih =>
    simp only [Option.bind_eq_bind, Option.bind_eq_some_iff, Option.pure_def, Option.some.injEq] at h
    obtain ⟨condition, hc, body, hb, rfl⟩ := h
    obtain ⟨ht, hr⟩ := Json.record_of_read (by decide) hv hr
    exact .whileDo ht hr (Expr.ofJson?_eq_some_iff.1 hc) (ih hb)
  | case10 j hv => cases h; exact .breakLoop (Json.variant?_null_iff.1 hv)
  | case11 j hv => cases h; exact .continueLoop (Json.variant?_null_iff.1 hv)
  | case12 j hv => cases h; exact .returnVoid (Json.variant?_null_iff.1 hv)
  | case13 j v hv =>
    obtain ⟨value, he, rfl⟩ := Option.map_eq_some_iff.1 h
    exact .returnValue (Json.tagged_of_read Expr.ofJson?_null hv he) (Expr.ofJson?_eq_some_iff.1 he)
  | case14 j v hv =>
    obtain ⟨pointer, he, rfl⟩ := Option.map_eq_some_iff.1 h
    exact .free (Json.tagged_of_read Expr.ofJson?_null hv he) (Expr.ofJson?_eq_some_iff.1 he)
  | case15 j v hv a b he iha ihb =>
    simp only [Option.bind_eq_bind, Option.bind_eq_some_iff, Option.pure_def, Option.some.injEq] at h
    obtain ⟨first, ha, second, hb, rfl⟩ := h
    obtain rfl := Json.elements?_eq_some_iff.1 he
    exact .seq (Json.tagged_of_variant? hv nofun) (iha ha) (ihb hb)
  -- parts that are no record of the tag, sequences of another length than two, and tags of no statement
  | case3 | case5 | case7 | case9 | case16 | case17 => cases h

/-- What represents a statement is read as the statement. -/
theorem ofJson?_of_representedBy {j : Json} {s : Stmt} (h : s.RepresentedBy j) : Stmt.ofJson? j = some s := by
  induction h with
  | expr ht he | returnValue ht he | free ht he =>
    rw [Stmt.ofJson?, Json.variant?_of_tagged ht]
    exact Option.map_eq_some_iff.2 ⟨_, Expr.ofJson?_eq_some_iff.2 he, rfl⟩
  | @declare j v d i _ _ ht hr hd hi =>
    have hparts : v.record? ["declaration", "initializer"] = some [d, i] :=
      (Json.record?_eq_some_iff (by decide)).2 ⟨rfl, hr⟩
    rw [Stmt.ofJson?, Json.variant?_of_tagged ht]
    simp only [hparts, Decl.ofJson?_eq_some_iff.2 hd, Expr.ofJson?_eq_some_iff.2 hi]
    rfl
  | @assign j v t e _ _ ht hr htarget he =>
    have hparts : v.record? ["target", "value"] = some [t, e] :=
      (Json.record?_eq_some_iff (by decide)).2 ⟨rfl, hr⟩
    rw [Stmt.ofJson?, Json.variant?_of_tagged ht]
    simp only [hparts, Place.ofJson?_eq_some_iff.2 htarget, Expr.ofJson?_eq_some_iff.2 he]
    rfl
  | @ifElse j v c t e _ _ _ ht hr hc _ _ iht ihe =>
    have hparts : v.record? ["condition", "then_stmt", "else_stmt"] = some [c, t, e] :=
      (Json.record?_eq_some_iff (by decide)).2 ⟨rfl, hr⟩
    rw [Stmt.ofJson?, Json.variant?_of_tagged ht]
    simp only
    rw [hparts]
    simp only [Expr.ofJson?_eq_some_iff.2 hc, iht, ihe]
    rfl
  | @whileDo j v c b _ _ ht hr hc _ ih =>
    have hparts : v.record? ["condition", "body"] = some [c, b] :=
      (Json.record?_eq_some_iff (by decide)).2 ⟨rfl, hr⟩
    rw [Stmt.ofJson?, Json.variant?_of_tagged ht]
    simp only
    rw [hparts]
    simp only [Expr.ofJson?_eq_some_iff.2 hc, ih]
    rfl
  | breakLoop h | continueLoop h | returnVoid h =>
    rw [Stmt.ofJson?, Json.variant?_null_iff.2 h]
    rfl
  | seq ht _ _ iha ihb =>
    rw [Stmt.ofJson?, Json.variant?_of_tagged ht]
    simp only [Json.elements?]
    simp only [iha, ihb]
    rfl

/-- A statement is read from a value exactly if the value represents it. -/
theorem ofJson?_eq_some_iff {j : Json} {s : Stmt} : Stmt.ofJson? j = some s ↔ s.RepresentedBy j :=
  ⟨representedBy_of_ofJson?, ofJson?_of_representedBy⟩

end Stmt

/-- The declaration of a structure is read from a value exactly if the value represents it. -/
theorem StructDecl.ofJson?_eq_some_iff {j : Json} {decl : StructDecl} :
    StructDecl.ofJson? j = some decl ↔ decl.RepresentedBy j := by
  refine ⟨fun h => ?_, fun h => ?_⟩
  · unfold StructDecl.ofJson? at h
    split at h
    · rename_i name fields hr
      simp only [Option.bind_eq_bind, Option.bind_eq_some_iff, Option.pure_def, Option.some.injEq] at h
      obtain ⟨name, hn, fields, hf, rfl⟩ := h
      exact .mk ((Json.record?_eq_some_iff (by decide)).1 hr).2 (Name.ofJson?_eq_some_iff.1 hn)
        (Decl.listOfJson?_eq_some_iff.1 hf)
    · cases h
  · cases h with
    | @mk j name fields _ hr hn hf =>
      have hparts : j.record? ["name", "fields"] = some [name, fields] :=
        (Json.record?_eq_some_iff (by decide)).2 ⟨rfl, hr⟩
      simp only [StructDecl.ofJson?, hparts, Name.ofJson?_eq_some_iff.2 hn, Decl.listOfJson?_eq_some_iff.2 hf]
      rfl

/-- The definition of a function is read from a value exactly if the value represents it. -/
theorem FunDef.ofJson?_eq_some_iff {j : Json} {f : FunDef} : FunDef.ofJson? j = some f ↔ f.RepresentedBy j := by
  refine ⟨fun h => ?_, fun h => ?_⟩
  · unfold FunDef.ofJson? at h
    split at h
    · rename_i returnType name params body hr
      simp only [Option.bind_eq_bind, Option.bind_eq_some_iff, Option.pure_def, Option.some.injEq] at h
      obtain ⟨returnType, ht, name, hn, params, hp, body, hb, rfl⟩ := h
      exact .mk ((Json.record?_eq_some_iff (by decide)).1 hr).2 (Ty.ofJson?_eq_some_iff.1 ht)
        (Name.ofJson?_eq_some_iff.1 hn) (Decl.listOfJson?_eq_some_iff.1 hp) (Stmt.ofJson?_eq_some_iff.1 hb)
    · cases h
  · cases h with
    | @mk j returnType name params body _ hr ht hn hp hb =>
      have hparts : j.record? ["return_type", "name", "parameters", "body"] = some [returnType, name, params, body] :=
        (Json.record?_eq_some_iff (by decide)).2 ⟨rfl, hr⟩
      simp only [FunDef.ofJson?, hparts, Ty.ofJson?_eq_some_iff.2 ht, Name.ofJson?_eq_some_iff.2 hn,
        Decl.listOfJson?_eq_some_iff.2 hp, Stmt.ofJson?_eq_some_iff.2 hb]
      rfl

/-- A program is read from a value exactly if the value represents it. -/
theorem Program.ofJson?_eq_some_iff {j : Json} {p : Program} : Program.ofJson? j = some p ↔ p.RepresentedBy j := by
  have hstructs : ∀ {j structs}, partOfJson? StructDecl.ofJson? j = some structs ↔
      Json.ListedOrAbsent StructDecl.RepresentedBy structs j :=
    partOfJson?_eq_some_iff fun _ _ => StructDecl.ofJson?_eq_some_iff
  have hfuns : ∀ {j funs}, partOfJson? FunDef.ofJson? j = some funs ↔ Json.ListedOrAbsent FunDef.RepresentedBy funs j :=
    partOfJson?_eq_some_iff fun _ _ => FunDef.ofJson?_eq_some_iff
  refine ⟨fun h => ?_, fun h => ?_⟩
  · unfold Program.ofJson? at h
    split at h
    · rename_i structs funs hr
      simp only [Option.bind_eq_bind, Option.bind_eq_some_iff, Option.pure_def, Option.some.injEq] at h
      obtain ⟨structs, hs, funs, hf, rfl⟩ := h
      exact .mk ((Json.fields?_eq_some_iff (by decide)).1 hr).2 (hstructs.1 hs) (hfuns.1 hf)
    · cases h
  · cases h with
    | @mk j structs funs _ hr hs hf =>
      have hparts : j.fields? ["structures", "functions"] = some [structs, funs] :=
        (Json.fields?_eq_some_iff (by decide)).2 ⟨rfl, hr⟩
      simp only [Program.ofJson?, hparts, hstructs.2 hs, hfuns.2 hf]
      rfl

/-! ## Texts -/

/-- A text is parsed as a program exactly if it is a document of a value that represents the program. -/
theorem Program.parse?_eq_some_iff {text : String} {p : Program} :
    Program.parse? text = some p ↔ ∃ j, Json.Document text.toList j ∧ p.RepresentedBy j := by
  simp only [Program.parse?, Option.bind_eq_some_iff, Json.parse?_eq_some_iff, Program.ofJson?_eq_some_iff]

/-- A text is parsed as an expression exactly if it is a document of a value that represents the expression. -/
theorem Expr.parse?_eq_some_iff {text : String} {e : Expr} :
    Expr.parse? text = some e ↔ ∃ j, Json.Document text.toList j ∧ e.RepresentedBy j := by
  simp only [Expr.parse?, Option.bind_eq_some_iff, Json.parse?_eq_some_iff, Expr.ofJson?_eq_some_iff]

namespace Source

variable {reason : String → String}

/-- Whether a text is read does not depend on the words for what is wrong with others. -/
theorem readProgram_eq_ok_iff {text : String} {p : Program} :
    readProgram reason text = .ok p ↔ Program.parse? text = some p := by
  unfold readProgram
  split
  · rename_i h
    rw [h, Except.ok.injEq, Option.some.injEq]
  · rename_i h
    rw [h]
    exact ⟨nofun, nofun⟩

theorem readExpr_eq_ok_iff {text : String} {e : Expr} : readExpr reason text = .ok e ↔ Expr.parse? text = some e := by
  unfold readExpr
  split
  · rename_i h
    rw [h, Except.ok.injEq, Option.some.injEq]
  · rename_i h
    rw [h]
    exact ⟨nofun, nofun⟩

/-- A text is read as a program, or as an expression, exactly if it is a document of a value that represents it. -/
theorem read_eq_ok_iff (reason : String → String) :
    (∀ (text : String) (p : Program),
      readProgram reason text = .ok p ↔ ∃ j, Json.Document text.toList j ∧ p.RepresentedBy j) ∧
    ∀ (text : String) (e : Expr),
      readExpr reason text = .ok e ↔ ∃ j, Json.Document text.toList j ∧ e.RepresentedBy j := by
  refine ⟨fun text p => ?_, fun text e => ?_⟩
  · rw [readProgram_eq_ok_iff, Program.parse?_eq_some_iff]
  · rw [readExpr_eq_ok_iff, Expr.parse?_eq_some_iff]

end Source

end CoreC
