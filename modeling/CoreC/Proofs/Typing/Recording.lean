import CoreC.Proofs.Tables.Building
import CoreC.Proofs.Typing.Trace
import CoreC.Proofs.Typing.WellTyped

/-!
# The log of a program

The log of a check shows how far the check came. Entering a declaration leaves an event if it succeeds; completing the tables
leaves one; each function leaves one before its body is looked at, and its body leaves traces only. So the traces at the
beginning are those of the declarations that were entered, and what is left at the level for debugging ends with the function
at fault (`Program.log_exact`).

A recorder of a level keeps the events that the level includes. It may do so on the spot or when all is over, which is the same
(`Check.atLevel_bind`, `Check.atLevel_emit`), and it does not touch the results.
-/

namespace CoreC

/-- A recorder that traces keeps everything. -/
theorem Log.atLevel_trace (log : Log) : log.atLevel .trace = log :=
  List.filter_eq_self.2 fun _ _ => rfl

/-- A recorder for debugging keeps what is not traced. -/
theorem Log.atLevel_debug (log : Log) : log.atLevel .debug = log.filter (·.level ≠ .trace) := by
  apply List.filter_congr
  intro event _
  cases event.level with
  | debug => rfl
  | trace => rfl

/-- A recorder keeps nothing where its level includes nothing. -/
theorem Log.atLevel_eq_nil {level : Level} {log : Log} (h : ∀ event ∈ log, level.includes event.level = false) :
    log.atLevel level = [] := by
  rw [Log.atLevel, List.filter_eq_nil_iff]
  intro event hevent
  rw [h event hevent]
  exact Bool.false_ne_true

namespace Check

variable {α β : Type}

/-- A check with what a recorder of a level keeps of its log. -/
def atLevel (level : Level) (x : Check α) : Check α :=
  ⟨x.log.atLevel level, x.result⟩

@[simp] theorem result_atLevel (level : Level) (x : Check α) : (x.atLevel level).result = x.result := rfl

@[simp] theorem log_atLevel (level : Level) (x : Check α) : (x.atLevel level).log = x.log.atLevel level := rfl

@[simp] theorem atLevel_pure (level : Level) (a : α) : (Pure.pure a : Check α).atLevel level = Pure.pure a := rfl

/-- A chain is recorded link by link. -/
theorem atLevel_bind (level : Level) (x : Check α) (f : α → Check β) :
    (x >>= f).atLevel level = x.atLevel level >>= fun a => (f a).atLevel level := by
  apply ext
  · simp only [log_atLevel, log_bind, result_atLevel, Log.atLevel, List.filter_append]
    cases x.result with
    | ok a => rfl
    | error e => rfl
  · simp only [result_atLevel, result_bind]

/-- An event is recorded where it happens, or not at all. -/
theorem atLevel_emit (level : Level) (event : Event) :
    (emit event).atLevel level = if level.includes event.level then emit event else Pure.pure () := by
  apply ext
  · rw [log_atLevel, log_emit, Log.atLevel, List.filter_singleton]
    cases level.includes event.level with
    | true => rfl
    | false => rfl
  · split <;> rfl

/-- A run over a list is recorded item by item. -/
theorem atLevel_forM (level : Level) (check : α → Check Unit) (l : List α) :
    (l.forM check : Check Unit).atLevel level = l.forM fun a => (check a).atLevel level := by
  induction l with
  | nil => rfl
  | cons a l ih =>
    rw [List.forM, atLevel_bind, List.forM]
    simp only [ih]

/-- A check that leaves nothing for a recorder is recorded as its result. -/
theorem atLevel_eq_ofExcept (level : Level) {x : Check α} (h : ∀ event ∈ x.log, level.includes event.level = false) :
    x.atLevel level = ofExcept x.result :=
  ext (Log.atLevel_eq_nil h) rfl

end Check

/-! ## What a body leaves -/

/-- An event of a body: a declaration, or an expression that was given its type. -/
def Event.OfBody : Event → Prop
  | .declared _ _ | .typed _ _ => True
  | _ => False

/-- An event of the tables: a declaration was entered. -/
def Event.OfTables : Event → Prop
  | .structRegistered _ _ | .funRegistered _ _ => True
  | _ => False

namespace RecordingAux

variable {α β : Type} {P : Event → Prop}

/-- All events that a check leaves have a property. -/
def Leaves (P : Event → Prop) (x : Check α) : Prop :=
  ∀ event ∈ x.log, P event

/-- Two checks leave what the first one and the second one leave. -/
theorem Leaves.bind {x : Check α} {f : α → Check β} (hx : Leaves P x) (hf : ∀ a, Leaves P (f a)) : Leaves P (x >>= f) := by
  intro event hevent
  rw [Check.log_bind] at hevent
  rcases List.mem_append.1 hevent with h | h
  · exact hx event h
  · cases hr : x.result with
    | ok a =>
      rw [hr] at h
      exact hf a event h
    | error e =>
      rw [hr] at h
      cases h

/-- A result leaves nothing, whether it is a value or a fault. -/
theorem leaves_ofExcept (r : Except TypeError α) : Leaves P (Check.ofExcept r) := by
  intro event hevent
  cases hevent

theorem leaves_pure (a : α) : Leaves P (pure a : Check α) := leaves_ofExcept (.ok a)

theorem leaves_throw (e : TypeError) : Leaves P (throw e : Check α) := leaves_ofExcept (.error e)

/-- An event is all that is left by reporting it. -/
theorem leaves_emit {event : Event} (h : P event) : Leaves P (Check.emit event) := by
  intro event' hevent'
  rw [List.mem_singleton.1 hevent']
  exact h

variable {g : Globals} {Γ : Scope}

/-- What an expression reads leaves what its parts leave. -/
theorem leaves_visit {e : Expr} {types : List Ty} {parts : List Expr}
    (h : ∀ part ∈ parts, Leaves Event.OfBody (part.typeOf g Γ)) :
    Leaves Event.OfBody (TraceAux.visit g Γ e types parts) := by
  induction parts generalizing types with
  | nil => exact leaves_ofExcept _
  | cons part parts ih =>
    rw [List.forall_mem_cons] at h
    exact (leaves_ofExcept _).bind fun _ => h.1.bind fun T => ih h.2

/-- An expression leaves expressions only. -/
theorem leaves_typeOf (e : Expr) : Leaves Event.OfBody (e.typeOf g Γ) := by
  induction e using Expr.induction_on_parts with
  | step e ih =>
    rw [TraceAux.typeOf_eq_visit]
    exact (leaves_visit ih).bind fun T => (leaves_emit trivial).bind fun _ => leaves_pure T

theorem leaves_checkCondition (condition : Expr) : Leaves Event.OfBody (condition.checkCondition g Γ) :=
  (leaves_typeOf condition).bind fun _ => leaves_ofExcept _

theorem leaves_checkFreed (pointer : Expr) : Leaves Event.OfBody (pointer.checkFreed g Γ) :=
  (leaves_typeOf pointer).bind fun _ => leaves_ofExcept _

/-- A statement leaves declarations and expressions only. -/
theorem leaves_check (returnType : Ty) (inLoop : Bool) (s : Stmt) : Leaves Event.OfBody (s.check g returnType inLoop Γ) := by
  induction s generalizing inLoop Γ with
  | expr value => exact (leaves_typeOf value).bind fun _ => leaves_pure _
  | declare decl init =>
    have hrest : Leaves Event.OfBody (do
        Ty.expect decl.ty (← init.typeOf g Γ)
        Check.emit (.declared decl.name decl.ty)
        return ⟨Γ.extend decl, false⟩ : Check Outcome) :=
      (leaves_typeOf init).bind fun _ => (leaves_ofExcept _).bind fun _ => (leaves_emit trivial).bind fun _ => leaves_pure _
    -- a fault of the declaration itself comes first, and is not reported as an event
    rw [Stmt.check]
    split
    · exact (leaves_throw _).bind fun _ => hrest
    · exact hrest
  | assign target value =>
    exact (leaves_ofExcept _).bind fun _ => (leaves_typeOf value).bind fun _ => (leaves_ofExcept _).bind fun _ => leaves_pure _
  | ifElse condition thenBranch elseBranch ihThen ihElse =>
    exact (leaves_checkCondition condition).bind fun _ => (ihThen _).bind fun _ => (ihElse _).bind fun _ => leaves_pure _
  | whileDo condition body ih =>
    exact (leaves_checkCondition condition).bind fun _ => (ih _).bind fun _ => leaves_pure _
  | breakLoop | continueLoop =>
    cases inLoop with
    | true => exact leaves_pure _
    | false => exact leaves_throw _
  | returnVoid => exact (leaves_ofExcept _).bind fun _ => leaves_pure _
  | returnValue value => exact (leaves_typeOf value).bind fun _ => (leaves_ofExcept _).bind fun _ => leaves_pure _
  | free pointer => exact (leaves_checkFreed pointer).bind fun _ => leaves_pure _
  | seq first second ihFirst ihSecond =>
    refine (ihFirst _).bind fun o => ?_
    split
    · exact (leaves_throw _).bind fun _ => ihSecond _
    · exact ihSecond _

/-- Only what is traced is left by a body. -/
theorem level_of_ofBody {event : Event} (h : event.OfBody) : event.level = .trace := by
  cases event with
  | declared | typed => rfl
  | structRegistered | funRegistered | collected | checking => exact h.elim

/-- A function leaves an event before its body is looked at, and behind it those of the body. -/
theorem exists_log_funDef (g : Globals) (f : FunDef) :
    ∃ rest, (f.check g).log = .checking f.name f.returnType :: rest ∧ ∀ event ∈ rest, event.OfBody := by
  have hbehind : Leaves Event.OfBody (do
      let outcome ← f.body.check g f.returnType false (Scope.ofParams f.params)
      if !f.returnType.isVoid && !outcome.returns then
        throw (.missingReturn f.name f.returnType) : Check Unit) := by
    refine (leaves_check _ _ _).bind fun outcome => ?_
    split
    · exact leaves_throw _
    · exact leaves_pure _
  exact ⟨_, rfl, hbehind⟩

/-- A function is recorded for debugging as its beginning and its result. -/
theorem funDef_atLevel_debug (g : Globals) (f : FunDef) :
    (f.check g).atLevel .debug = (do
      Check.emit (.checking f.name f.returnType)
      Check.ofExcept (f.check g).result) := by
  obtain ⟨rest, hlog, hrest⟩ := exists_log_funDef g f
  have hnone : Log.atLevel rest .debug = [] := by
    apply Log.atLevel_eq_nil
    intro event hevent
    rw [level_of_ofBody (hrest event hevent)]
    rfl
  apply Check.ext
  · rw [Check.log_atLevel, hlog, Log.atLevel, List.filter_cons_of_pos rfl, ← Log.atLevel, hnone]
    rfl
  · rfl

/-! ## What the tables leave -/

/-- A way to enter one declaration leaves an event if it succeeds, and nothing if it fails. -/
def Records {δ τ : Type} (event : δ → Event) (register : τ → δ → Check τ) : Prop :=
  ∀ table d, (register table d).log = match (register table d).result with
    | .ok _ => [event d]
    | .error _ => []

end RecordingAux

/-- A structure was entered. -/
def StructDecl.registered (s : StructDecl) : Event :=
  .structRegistered s.name s.fields.length

/-- A function was entered. -/
def FunDef.registered (f : FunDef) : Event :=
  .funRegistered f.name f.params.length

/-- The declarations that are entered by a build: those in front of the first one with which it fails, or all of them. -/
structure Tables.EntersUpTo {δ τ : Type} (build : List δ → Check τ) (decls entered : List δ) : Prop where
  built : ∃ table, (build entered).result = .ok table
  stops : entered = decls ∨ ∃ d behind e, decls = entered ++ d :: behind ∧ (build (entered ++ [d])).result = .error e

namespace RecordingAux

variable {δ τ : Type} {event : δ → Event} {register : τ → δ → Check τ}

/-- Both tables take a declaration if its name is free and its parts are in order, and report it behind that. -/
theorem records_of_eq {taken : τ → δ → Prop} [∀ table d, Decidable (taken table d)] {fault : δ → TypeError}
    {validate : δ → Except TypeError Unit} {enter : τ → δ → τ}
    (h : ∀ table d, register table d = (do
      if taken table d then
        throw (fault d)
      validate d
      Check.emit (event d)
      return enter table d)) : Records event register := by
  intro table d
  rw [h]
  split
  · rfl
  · cases validate d with
    | ok u => rfl
    | error e => rfl

/-- The table of structures reports a structure once it is entered. -/
theorem structTable_records : Records StructDecl.registered StructTable.register :=
  records_of_eq StructTable.register_eq

/-- The table of functions reports a function once it is entered. -/
theorem funTable_records : Records FunDef.registered FunTable.register :=
  records_of_eq fun _ _ => rfl

/-- A build leaves the events of the declarations that it enters. -/
theorem Records.exists_entersUpTo (h : Records event register) (decls : List δ) (table : τ) :
    ∃ entered, Tables.EntersUpTo (fun decls => decls.foldlM register table) decls entered ∧
      (decls.foldlM register table).log = entered.map event := by
  induction decls generalizing table with
  | nil => exact ⟨[], ⟨⟨table, rfl⟩, Or.inl rfl⟩, rfl⟩
  | cons d decls ih =>
    -- the first declaration is the one at fault, or the build goes on with the table that has it
    cases hr : (register table d).result with
    | error e =>
      have hlog : (register table d).log = [] := by rw [h table d, hr]
      refine ⟨[], ⟨⟨table, rfl⟩, Or.inr ⟨d, decls, e, rfl, ?_⟩⟩, ?_⟩
      · rw [List.nil_append, List.foldlM_cons, Check.bind_of_error hr]
      · rw [List.foldlM_cons, Check.bind_of_error hr, hlog, List.map_nil]
    | ok table' =>
      have hfirst : (register table d).log = [event d] := by rw [h table d, hr]
      have hbehind : ∀ l : List δ, ((d :: l).foldlM register table).result = (l.foldlM register table').result := by
        intro l
        rw [List.foldlM_cons, Check.bind_of_ok hr]
      obtain ⟨entered, ⟨⟨t, ht⟩, hstops⟩, hlog⟩ := ih table'
      refine ⟨d :: entered, ⟨⟨t, (hbehind entered).trans ht⟩, ?_⟩, ?_⟩
      · rcases hstops with rfl | ⟨d', behind, e, rfl, he⟩
        · exact Or.inl rfl
        · exact Or.inr ⟨d', behind, e, rfl, (hbehind (entered ++ [d'])).trans he⟩
      · rw [List.foldlM_cons, Check.bind_of_ok hr, hfirst, hlog, List.map_cons, List.singleton_append]

/-- A build that succeeds enters all declarations. -/
theorem eq_of_ok {table table' : τ} {decls entered : List δ}
    (h : Tables.EntersUpTo (fun decls => decls.foldlM register table) decls entered)
    (hok : (decls.foldlM register table).result = .ok table') : entered = decls := by
  rcases h.stops with heq | ⟨d, behind, e, rfl, he⟩
  · exact heq
  · rw [Tables.foldlM_behind_eq he] at hok
    rw [he] at hok
    cases hok

/-- A build that fails does not. -/
theorem ne_of_error {table : τ} {decls entered : List δ} {e : TypeError}
    (h : Tables.EntersUpTo (fun decls => decls.foldlM register table) decls entered)
    (herror : (decls.foldlM register table).result = .error e) : entered ≠ decls := by
  rintro rfl
  obtain ⟨t, ht⟩ := h.built
  rw [herror] at ht
  cases ht

/-- What a build leaves is only traced, so that for debugging its result is left. -/
theorem build_atLevel_debug (h : Records event register) (hevent : ∀ d, (event d).level = .trace) (decls : List δ)
    (table : τ) : (decls.foldlM register table).atLevel .debug = Check.ofExcept (decls.foldlM register table).result := by
  apply Check.atLevel_eq_ofExcept
  intro ev hev
  obtain ⟨entered, -, hlog⟩ := h.exists_entersUpTo decls table
  rw [hlog] at hev
  obtain ⟨d, -, rfl⟩ := List.mem_map.1 hev
  rw [hevent d]
  rfl

/-! ## The program -/

/-- A table has an entry for each declaration it was built from. -/
theorem size_of_build {kind : NameKind} {ν : Type} {name : δ → Name kind} {entry : δ → ν} {fault : δ → TypeError}
    {validate : δ → Except TypeError Unit}
    {register : Std.ExtTreeMap (Name kind) ν → δ → Check (Std.ExtTreeMap (Name kind) ν)}
    (henters : Tables.Enters name entry fault validate register) {decls : List δ} {table : Std.ExtTreeMap (Name kind) ν}
    (h : (decls.foldlM register ∅ : Check _).result = .ok table) : table.size = decls.length := by
  obtain ⟨hn, -, -, rfl⟩ := (henters.foldlM_eq_ok_iff _ _ _).1 h
  exact Tables.size_fill_empty hn

/-- The tables are recorded for debugging as their result and, if they are complete, the number of their entries. -/
theorem globals_atLevel_debug (p : Program) :
    p.globals.atLevel .debug = (do
      let g ← Check.ofExcept p.globals.result
      Check.emit (.collected p.structs.length p.funs.length)
      return g) := by
  have hstructs : (StructTable.build p.structs).atLevel .debug = Check.ofExcept (StructTable.build p.structs).result :=
    build_atLevel_debug structTable_records (fun _ => rfl) p.structs ∅
  have hfuns : (FunTable.build p.funs).atLevel .debug = Check.ofExcept (FunTable.build p.funs).result :=
    build_atLevel_debug funTable_records (fun _ => rfl) p.funs ∅
  simp only [Program.globals, Check.atLevel_bind, Check.atLevel_emit, Check.result_bind, hstructs, hfuns]
  cases hs : (StructTable.build p.structs).result with
  | error e => rfl
  | ok structs =>
    cases hf : (FunTable.build p.funs).result with
    | error e => rfl
    | ok funs =>
      rw [← size_of_build StructTable.enters hs, ← size_of_build FunTable.enters hf]
      rfl

/-- A program is recorded for debugging as its tables and, if they are complete, its functions, each as its beginning and its
result. -/
theorem check_atLevel_debug (p : Program) :
    p.check.atLevel .debug = (do
      let g ← Check.ofExcept p.globals.result
      Check.emit (.collected p.structs.length p.funs.length)
      p.funs.forM fun f => do
        Check.emit (.checking f.name f.returnType)
        Check.ofExcept (f.check g).result
      return g) := by
  rw [Program.check, Check.atLevel_bind, globals_atLevel_debug]
  simp only [Check.atLevel_bind, Program.checkBodies, Check.atLevel_forM, funDef_atLevel_debug, Check.atLevel_pure,
    bind_assoc, pure_bind]

/-- Functions that pass leave an event each. -/
theorem forM_of_forall_ok {α : Type} (event : α → Event) {result : α → Except TypeError Unit} {l : List α}
    (h : ∀ a ∈ l, result a = .ok ()) :
    (l.forM fun a => do Check.emit (event a); Check.ofExcept (result a) : Check Unit) = ⟨l.map event, .ok ()⟩ := by
  induction l with
  | nil => rfl
  | cons a l ih =>
    rw [List.forall_mem_cons] at h
    rw [List.forM, ih h.2, h.1]
    rfl

/-- The function that fails leaves the last event. -/
theorem forM_of_error {α : Type} (event : α → Event) {result : α → Except TypeError Unit} {before : List α} {a : α}
    {e : TypeError} (hbefore : ∀ b ∈ before, result b = .ok ()) (ha : result a = .error e) (behind : List α) :
    ((before ++ a :: behind).forM fun a => do Check.emit (event a); Check.ofExcept (result a) : Check Unit) =
      ⟨(before ++ [a]).map event, .error e⟩ := by
  induction before with
  | nil =>
    rw [List.nil_append, List.forM, ha]
    rfl
  | cons b before ih =>
    rw [List.forall_mem_cons] at hbefore
    rw [List.cons_append, List.forM, ih hbefore.2, hbefore.1]
    rfl

variable {p : Program} {g : Globals}

/-- Without tables nothing is left for debugging. -/
theorem debug_of_globals_error {e : TypeError} (h : p.globals.result = .error e) :
    p.check.atLevel .debug = ⟨[], .error e⟩ := by
  rw [check_atLevel_debug, h]
  rfl

/-- A function that fails behind others that pass is the last one left for debugging, and its fault is the result. -/
theorem debug_of_body_error (h : p.globals.result = .ok g) {before behind : List FunDef} {f : FunDef} {e : TypeError}
    (hsplit : p.funs = before ++ f :: behind) (hbefore : ∀ f' ∈ before, (f'.check g).result = .ok ())
    (hf : (f.check g).result = .error e) :
    p.check.atLevel .debug =
      ⟨.collected p.structs.length p.funs.length :: (before ++ [f]).map fun f => .checking f.name f.returnType,
        .error e⟩ := by
  have hrun := forM_of_error (fun f : FunDef => .checking f.name f.returnType) hbefore hf behind
  rw [← hsplit] at hrun
  rw [check_atLevel_debug, h, TraceAux.ofExcept_ok, pure_bind, hrun]
  rfl

/-- Where all functions pass, all of them are left for debugging. -/
theorem debug_of_ok (h : p.globals.result = .ok g) (hfuns : ∀ f ∈ p.funs, (f.check g).result = .ok ()) :
    p.check.atLevel .debug =
      ⟨.collected p.structs.length p.funs.length :: p.funs.map fun f => .checking f.name f.returnType, .ok g⟩ := by
  have hrun := forM_of_forall_ok (fun f : FunDef => .checking f.name f.returnType) hfuns
  rw [check_atLevel_debug, h, TraceAux.ofExcept_ok, pure_bind, hrun]
  apply Check.ext
  · exact congrArg (_ :: ·) (List.append_nil _)
  · rfl

/-- Only the messages that a declaration was entered begin with this letter. -/
theorem head?_message_ne (hidden : Char → Bool) {event : Event} (h : ¬event.OfTables) :
    (event.message hidden).toList.head? ≠ some 'R' := by
  unfold Event.message
  cases event with
  | structRegistered | funRegistered => exact absurd trivial h
  | collected | checking =>
    simp only [String.toList_append, List.append_assoc]
    exact Eq.trans_ne (b := some 'C') rfl (by decide)
  | declared =>
    simp only [String.toList_append, List.append_assoc]
    exact Eq.trans_ne (b := some 'D') rfl (by decide)
  | typed e ty =>
    -- what is shown begins with the word of the expression
    simp only [String.append_assoc, DumpsAux.head?_dump_append]
    cases e <;> (rw [DumpsAux.word]; decide)

/-- No other message says that something was registered. -/
theorem not_registered_of_not_ofTables (hidden : Char → Bool) {event : Event} (h : ¬event.OfTables) :
    ¬"Registered".toList <+: (event.message hidden).toList := by
  rintro ⟨rest, hrest⟩
  apply head?_message_ne hidden h
  rw [← hrest]
  rfl

/-- Nothing is entered into the tables by a body. -/
theorem not_ofTables_of_ofBody {event : Event} (h : event.OfBody) : ¬event.OfTables := by
  cases event with
  | declared | typed => exact id
  | structRegistered | funRegistered | collected | checking => exact h.elim

/-- What is done when both tables are complete registers nothing. -/
theorem leaves_behind_tables (p : Program) (g : Globals) :
    Leaves (¬Event.OfTables ·) (do
      Check.emit (.collected g.structs.size g.funs.size)
      p.checkBodies g
      return g) := by
  have hfun : ∀ f : FunDef, Leaves (¬Event.OfTables ·) (f.check g) := by
    intro f event hevent
    obtain ⟨rest, hlog, hrest⟩ := exists_log_funDef g f
    rw [hlog] at hevent
    rcases List.mem_cons.1 hevent with rfl | hevent
    · exact id
    · exact not_ofTables_of_ofBody (hrest event hevent)
  have hfuns : ∀ funs : List FunDef, Leaves (¬Event.OfTables ·) (funs.forM (FunDef.check g)) := by
    intro funs
    induction funs with
    | nil => exact leaves_pure _
    | cons f funs ih => exact (hfun f).bind fun _ => ih
  exact (leaves_emit id).bind fun _ => (hfuns p.funs).bind fun _ => leaves_pure g

/-- The log begins with the declarations that were entered, and there are no more of these events behind them. -/
theorem exists_registered (p : Program) :
    ∃ structs funs rest, Tables.EntersUpTo StructTable.build p.structs structs ∧
      (structs = p.structs ∧ Tables.EntersUpTo FunTable.build p.funs funs ∨ structs ≠ p.structs ∧ funs = []) ∧
      p.check.log = structs.map StructDecl.registered ++ funs.map FunDef.registered ++ rest ∧
      ∀ event ∈ rest, ¬event.OfTables := by
  have hcheck : p.check = (do
      let structs ← StructTable.build p.structs
      let funs ← FunTable.build p.funs
      Check.emit (.collected structs.size funs.size)
      p.checkBodies ⟨structs, funs⟩
      return ⟨structs, funs⟩) := by
    simp only [Program.check, Program.globals, bind_assoc, pure_bind]
  obtain ⟨structs, hstructs, hstructsLog⟩ := structTable_records.exists_entersUpTo p.structs ∅
  obtain ⟨funs, hfuns, hfunsLog⟩ := funTable_records.exists_entersUpTo p.funs ∅
  rw [← StructTable.build] at hstructsLog
  rw [← FunTable.build] at hfunsLog
  -- functions are entered only behind a complete table of structures, and bodies are checked only behind both
  cases hs : (StructTable.build p.structs).result with
  | error e =>
    refine ⟨structs, [], [], hstructs, Or.inr ⟨ne_of_error hstructs hs, rfl⟩, ?_, List.forall_mem_nil _⟩
    rw [hcheck, Check.bind_of_error hs, hstructsLog, List.map_nil, List.append_nil, List.append_nil]
  | ok structTable =>
    have hall := eq_of_ok hstructs hs
    cases hf : (FunTable.build p.funs).result with
    | error e =>
      refine ⟨structs, funs, [], hstructs, Or.inl ⟨hall, hfuns⟩, ?_, List.forall_mem_nil _⟩
      rw [hcheck, Check.bind_of_ok hs, Check.bind_of_error hf, hstructsLog, hfunsLog, List.append_nil]
    | ok funTable =>
      refine ⟨structs, funs, _, hstructs, Or.inl ⟨hall, hfuns⟩, ?_, leaves_behind_tables p ⟨structTable, funTable⟩⟩
      rw [hcheck, Check.bind_of_ok hs, Check.bind_of_ok hf, hstructsLog, hfunsLog, List.append_assoc]

end RecordingAux

/-! ## The lines of a log -/

/-- The line that a structure was entered. -/
def StructDecl.registeredLine (s : StructDecl) : Level × String :=
  (.trace, s!"Registered structure {s.name} with {s.fields.length} fields")

/-- The line that a function was entered. -/
def FunDef.registeredLine (f : FunDef) : Level × String :=
  (.trace, s!"Registered function {f.name} with {f.params.length} parameters")

/-- The line that both tables are complete. -/
def Program.collectedLine (p : Program) : Level × String :=
  (.debug, s!"Collected {p.structs.length} structures and {p.funs.length} functions")

/-- The line that a function is about to be checked. -/
def FunDef.checkingLine (f : FunDef) : Level × String :=
  (.debug, s!"Checking function {f.name} -> {f.returnType}")

open RecordingAux

/-- The log of a program shows how far its check came and where it failed, and has no part in it.

A recorder for debugging is left with nothing if there are no tables. Otherwise it is left with the numbers of declarations and
then with the functions in order up to the one that fails, whose fault is the result, or with all of them. A recorder that traces
is first left with the declarations that were entered, in front of the one at fault. The first recorder is left with what
the second one has without the traces, and both see the same result. -/
theorem Program.log_exact (hidden : Char → Bool) (p : Program) :
    (∀ e, p.globals.result = .error e → (p.check.atLevel .debug).log = [] ∧ p.check.result = .error e) ∧
    (∀ g, p.globals.result = .ok g →
      (∀ before f behind e, p.funs = before ++ f :: behind → (∀ f' ∈ before, (f'.check g).result = .ok ()) →
        (f.check g).result = .error e →
          (p.check.atLevel .debug).log.lines hidden = p.collectedLine :: (before ++ [f]).map FunDef.checkingLine ∧
            p.check.result = .error e) ∧
      ((∀ f ∈ p.funs, (f.check g).result = .ok ()) →
        (p.check.atLevel .debug).log.lines hidden = p.collectedLine :: p.funs.map FunDef.checkingLine ∧
          p.check.result = .ok g)) ∧
    (∃ structs funs rest, Tables.EntersUpTo StructTable.build p.structs structs ∧
      (structs = p.structs ∧ Tables.EntersUpTo FunTable.build p.funs funs ∨ structs ≠ p.structs ∧ funs = []) ∧
      (p.check.atLevel .trace).log.lines hidden =
        structs.map StructDecl.registeredLine ++ funs.map FunDef.registeredLine ++ rest ∧
      ∀ line ∈ rest, ¬"Registered".toList <+: line.2.toList) ∧
    (p.check.atLevel .debug).log = (p.check.atLevel .trace).log.filter (·.level ≠ .trace) ∧
    ∀ level, (p.check.atLevel level).result = p.check.result ∧
      p.check.atLevel level = (do
        let g ← p.globals.atLevel level
        p.funs.forM fun f => (f.check g).atLevel level
        return g) := by
  refine ⟨?_, ?_, ?_, ?_, ?_⟩
  · intro e he
    have hdebug := debug_of_globals_error he
    exact ⟨congrArg Check.log hdebug, congrArg Check.result hdebug⟩
  · intro g hg
    constructor
    · intro before f behind e hsplit hbefore hf
      have hdebug := debug_of_body_error hg hsplit hbefore hf
      refine ⟨?_, congrArg Check.result hdebug⟩
      rw [hdebug, Log.lines, List.map_cons, List.map_map]
      rfl
    · intro hfuns
      have hdebug := debug_of_ok hg hfuns
      refine ⟨?_, congrArg Check.result hdebug⟩
      rw [hdebug, Log.lines, List.map_cons, List.map_map]
      rfl
  · obtain ⟨structs, funs, rest, hstructs, hfuns, hlog, hrest⟩ := exists_registered p
    refine ⟨structs, funs, rest.lines hidden, hstructs, hfuns, ?_, ?_⟩
    · rw [Check.log_atLevel, Log.atLevel_trace, hlog, Log.lines, List.map_append, List.map_append, List.map_map, List.map_map]
      rfl
    · intro line hline
      obtain ⟨event, hevent, rfl⟩ := List.mem_map.1 hline
      exact not_registered_of_not_ofTables hidden (hrest event hevent)
  · rw [Check.log_atLevel, Check.log_atLevel, Log.atLevel_trace, Log.atLevel_debug]
  · intro level
    refine ⟨rfl, ?_⟩
    simp only [Program.check, Program.checkBodies, Check.atLevel_bind, Check.atLevel_forM, Check.atLevel_pure]

namespace RecordingAux

/-- A function that passes if it returns nothing and does not pass if it is to return a value. -/
def returnsNothing (name : String) (returnType : Ty) : FunDef where
  returnType := returnType
  name := ⟨name⟩
  params := [⟨.int, ⟨"x"⟩⟩]
  body := .returnVoid

/-- A program whose second and third function do not pass. -/
def secondFails : Program where
  structs := [⟨⟨"s"⟩, [⟨.int, ⟨"n"⟩⟩]⟩]
  funs := [returnsNothing "a" .void, returnsNothing "b" .int, returnsNothing "c" .bool]

end RecordingAux

/-- Of three functions the second one is the last that is left for debugging: its fault is the result, and the third one is not
looked at. -/
theorem Program.log_exact_second :
    (secondFails.check.atLevel .debug).log.lines (fun _ => false) =
        [(.debug, "Collected 1 structures and 3 functions"), (.debug, "Checking function a -> void"),
          (.debug, "Checking function b -> int")] ∧
      secondFails.check.result = .error (.typeMismatch .int .void) := by
  have hbodies := ((Program.log_exact (fun _ => false) secondFails).2.1 _ rfl).1
  exact hbodies [returnsNothing "a" .void] (returnsNothing "b" .int) [returnsNothing "c" .bool] _ rfl
    (List.forall_mem_singleton.2 rfl) rfl

end CoreC
