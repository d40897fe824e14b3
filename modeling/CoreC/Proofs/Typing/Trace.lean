import Mathlib.Data.List.Forall2
import CoreC.Proofs.Syntax.Dumps
import CoreC.Proofs.Typing.Results

/-!
# The trace of an expression

All forms of expression are checked alike. An expression reads its parts from left to right (`Expr.Reads`). Before it reads one
and behind the last one it says what follows from the types read so far (`Expr.conclude`): a fault, and then it reads no
further, or the type it has if these are all its parts. So each check leaves the traces of the parts it has read, one behind
the other, and behind all of them its own event, if it comes to that.

An expression that has a type is therefore traced in post-order. One that fails does so in a chain of expressions, from itself
to the one that is at fault (`Expr.Fails`); none of these is traced, and the trace is that of the parts which they had read
before.

A reader of the log sees lines instead of events. An expression is shown by a line that is traced, with the expression written
out in front of the text of its type (`Expr.IsShownBy`); all that is said of the events is said of the lines as well.
-/

namespace CoreC

/-- Types that are found against those expected in their places; the first one that differs is reported. -/
def Ty.expectAll : List Ty → List Ty → Except TypeError Unit
  | expected :: types, found :: others => do
    Ty.expect expected found
    expectAll types others
  | _, _ => .ok ()

namespace Expr

/-- What follows from the types of the first parts of an expression: a fault of its own, or the type it has if there are no
more parts. While parts are missing only a fault counts. -/
def conclude (g : Globals) (Γ : Scope) (e : Expr) (types : List Ty) : Except TypeError Ty :=
  match e, types with
  | .int _, _ => .ok .int
  | .char _, _ => .ok .char
  | .bool _, _ => .ok .bool
  | .var x, _ => Γ.lookup x
  | .malloc _, [size] => do
    Ty.expect .int size
    .ok .voidPointer
  | .free _, [pointer] => do
    Ty.expect .voidPointer pointer
    .ok .void
  | .sizeof _, _ => .ok .int
  | .binary op _ _, [left, right] => op.typeOf left right
  | .construct name arguments, types => do
    let fields ← g.structs.fields name
    Callee.checkArity (.struct name) fields.length arguments.length
    Ty.expectAll (fields.map Decl.ty) types
    .ok (.struct name)
  | .call name arguments, types => do
    let signature ← g.funs.signature name
    Callee.checkArity (.func name) signature.params.length arguments.length
    Ty.expectAll signature.params types
    .ok signature.returnType
  | .cast target _, [_] => .ok target
  | .addressOf place, _ => do .ok (.pointer (← place.typeOf g Γ))
  | .deref _, [pointer] => pointer.pointee
  | .field _ f, [object] => g.fieldOf object f
  | _, _ => .ok .void

/-- An expression has read its first parts, and they have these types: it reads one more if nothing is wrong so far. -/
inductive Reads (g : Globals) (Γ : Scope) (e : Expr) : List Expr → List Ty → Prop where
  | nil : Reads g Γ e [] []
  | next {read : List Expr} {types : List Ty} {part : Expr} {T U : Ty} :
      Reads g Γ e read types → e.conclude g Γ types = .ok U → (part.typeOf g Γ).result = .ok T →
      Reads g Γ e (read ++ [part]) (types ++ [T])

/-- An expression fails: it is at fault itself behind the parts it has read, or the next part fails. The first list has the
expressions that fail, from the whole to the one at fault; the second one has the parts that these have read before, from left
to right. -/
inductive Fails (g : Globals) (Γ : Scope) : Expr → List Expr → List Expr → TypeError → Prop where
  | own {e : Expr} {read unread : List Expr} {types : List Ty} {err : TypeError} :
      e.parts = read ++ unread → e.Reads g Γ read types → e.conclude g Γ types = .error err →
      Fails g Γ e [e] read err
  | part {e part : Expr} {read unread failing completed : List Expr} {types : List Ty} {T : Ty} {err : TypeError} :
      e.parts = read ++ part :: unread → e.Reads g Γ read types → e.conclude g Γ types = .ok T →
      Fails g Γ part failing completed err → Fails g Γ e (e :: failing) (read ++ completed) err

/-- An event says of an expression that it has its type. -/
def IsTracedBy (g : Globals) (Γ : Scope) (e : Expr) (event : Event) : Prop :=
  ∃ T, (e.typeOf g Γ).result = .ok T ∧ event = .typed e T

/-- A line says of an expression that it has its type: it is traced, and has the expression and the text of the type. -/
def IsShownBy (hidden : Char → Bool) (g : Globals) (Γ : Scope) (e : Expr) (line : Level × String) : Prop :=
  ∃ T, (e.typeOf g Γ).result = .ok T ∧ line = (.trace, e.dump hidden ++ " : " ++ T.display)

/-- The traces of some expressions, one behind the other. -/
def traces (g : Globals) (Γ : Scope) (es : List Expr) : Log :=
  es.flatMap fun e => (e.typeOf g Γ).log

end Expr

namespace TraceAux

variable {g : Globals} {Γ : Scope} {e : Expr}

/-! ## All forms are checked alike -/

/-- Read the remaining parts of an expression behind others of known types. -/
def visit (g : Globals) (Γ : Scope) (e : Expr) : List Ty → List Expr → Check Ty
  | types, [] => e.conclude g Γ types
  | types, part :: parts => do
    let _ ← e.conclude g Γ types
    let T ← part.typeOf g Γ
    visit g Γ e (types ++ [T]) parts

theorem ofExcept_ok {α : Type} (a : α) : Check.ofExcept (.ok a) = (pure a : Check α) := rfl

/-- Results that are chained are checked one after the other. -/
theorem ofExcept_bind {α β : Type} (x : Except TypeError α) (f : α → Except TypeError β) :
    Check.ofExcept (x >>= f) = Check.ofExcept x >>= fun a => Check.ofExcept (f a) := by
  cases x with
  | ok a => rw [Check.ok_bind, ofExcept_ok, pure_bind]
  | error err => rfl

/-- Nothing is read any more where something is wrong. -/
theorem visit_of_error {types : List Ty} {err : TypeError} (h : e.conclude g Γ types = .error err) (parts : List Expr) :
    visit g Γ e types parts = ⟨[], .error err⟩ := by
  cases parts with
  | nil =>
    rw [visit, h]
    rfl
  | cons part parts =>
    rw [visit, h]
    rfl

/-- An expression that finds nothing wrong reads its next part. -/
theorem visit_cons {types : List Ty} {T : Ty} (h : e.conclude g Γ types = .ok T) (part : Expr) (parts : List Expr) :
    visit g Γ e types (part :: parts) = part.typeOf g Γ >>= fun T => visit g Γ e (types ++ [T]) parts := by
  rw [visit, h]
  exact pure_bind _ _

theorem expect_self (T : Ty) : Ty.expect T T = .ok () :=
  Ty.expect_eq_ok_iff.2 rfl

theorem expectAll_append (types others : List Ty) : Ty.expectAll (types ++ others) types = .ok () := by
  induction types with
  | nil => cases others <;> rfl
  | cons T types ih => rw [List.cons_append, Ty.expectAll, expect_self, Check.ok_bind, ih]

/-- Behind types that are as expected the next one is compared. -/
theorem expectAll_append_cons (types others : List Ty) (expected found : Ty) :
    Ty.expectAll (types ++ expected :: others) (types ++ [found]) = Ty.expect expected found := by
  induction types with
  | nil =>
    cases others <;> exact Check.bind_ok _
  | cons T types ih => rw [List.cons_append, List.cons_append, Ty.expectAll, expect_self, Check.ok_bind, ih]

/-- Arguments are read like parts: each is compared with the type expected of it before the next one is read. -/
theorem visit_arguments {expected : List Ty} {R : Ty}
    (he : ∀ types, e.conclude g Γ types = (do Ty.expectAll expected types; .ok R)) (arguments : List Expr)
    {types others : List Ty} (hexpected : expected = types ++ others) (hlength : others.length = arguments.length) :
    visit g Γ e types arguments = (do Expr.checkArguments g Γ others arguments; pure R) := by
  have hread : e.conclude g Γ types = .ok R := by
    rw [he, hexpected, expectAll_append, Check.ok_bind]
  induction arguments generalizing types others with
  | nil =>
    rw [List.length_nil, List.length_eq_zero_iff] at hlength
    rw [visit, hread, hlength]
    rfl
  | cons argument arguments ih =>
    cases others with
    | nil => cases hlength
    | cons T others =>
      rw [visit_cons hread, Expr.checkArguments, bind_assoc]
      congr 1
      funext found
      by_cases hT : T = found
      · have hnext : expected = (types ++ [T]) ++ others := by
          rw [hexpected, List.append_assoc, List.singleton_append]
        have hread' : e.conclude g Γ (types ++ [T]) = .ok R := by
          rw [he, hnext, expectAll_append, Check.ok_bind]
        rw [← hT, expect_self, ih hnext (Nat.succ.inj hlength) hread']
        rfl
      · have hfault : e.conclude g Γ (types ++ [found]) = .error (.typeMismatch T found) := by
          rw [he, hexpected, expectAll_append_cons, Ty.expect, if_neg hT, Check.error_bind]
        rw [visit_of_error hfault, Ty.expect, if_neg hT]
        rfl

/-- Whatever takes arguments is looked up and compared in the number of its arguments before any of them is read. -/
theorem visit_callee (callee : Callee) (arguments : List Expr) (lookup : Except TypeError Signature)
    (he : ∀ types, e.conclude g Γ types = (do
      let signature ← lookup
      callee.checkArity signature.params.length arguments.length
      Ty.expectAll signature.params types
      .ok signature.returnType)) :
    visit g Γ e [] arguments = (do
      let signature ← Check.ofExcept lookup
      Check.ofExcept (callee.checkArity signature.params.length arguments.length)
      Expr.checkArguments g Γ signature.params arguments
      pure signature.returnType) := by
  cases lookup with
  | error err =>
    rw [visit_of_error (he [])]
    rfl
  | ok signature =>
    rw [ofExcept_ok, pure_bind]
    simp only [Check.ok_bind] at he
    by_cases harity : signature.params.length = arguments.length
    · rw [Callee.checkArity, if_pos harity, ofExcept_ok, pure_bind]
      simp only [Callee.checkArity, if_pos harity, Check.ok_bind] at he
      exact visit_arguments he arguments (List.nil_append _).symm harity
    · rw [Callee.checkArity, if_neg harity]
      simp only [Callee.checkArity, if_neg harity, Check.error_bind] at he
      rw [visit_of_error (he [])]
      rfl

/-- The check of an expression reads all its parts and then reports the type that follows. -/
theorem typeOf_eq_visit (e : Expr) :
    e.typeOf g Γ = (do
      let T ← visit g Γ e [] e.parts
      Check.emit (.typed e T)
      return T) := by
  cases e with
  | construct name arguments =>
    -- a structure is made like the call of a function that takes its fields
    have hvisit : visit g Γ (.construct name arguments) [] arguments = _ :=
      visit_callee (.struct name) arguments (do .ok ⟨(← g.structs.fields name).map Decl.ty, .struct name⟩)
        (by simp [Expr.conclude])
    rw [Expr.parts, hvisit]
    simp [Expr.typeOf, ofExcept_bind, ofExcept_ok, -bind_pure_comp]
  | call name arguments =>
    rw [Expr.parts, visit_callee (.func name) arguments (g.funs.signature name) (fun _ => rfl)]
    simp [Expr.typeOf, -bind_pure_comp]
  | _ => simp [Expr.typeOf, visit, Expr.parts, Expr.conclude, ofExcept_bind, ofExcept_ok, -bind_pure_comp]

/-! ## What an expression leaves -/

/-- Reading parts leaves their traces. -/
theorem visit_of_reads {read : List Expr} {types : List Ty} (h : e.Reads g Γ read types) (rest : List Expr) :
    visit g Γ e [] (read ++ rest) =
      ⟨Expr.traces g Γ read ++ (visit g Γ e types rest).log, (visit g Γ e types rest).result⟩ := by
  induction h generalizing rest with
  | nil => rfl
  | @next read types part T U hread hquiet hpart ih =>
    have hstep : visit g Γ e types (part :: rest) = ⟨(part.typeOf g Γ).log ++ (visit g Γ e (types ++ [T]) rest).log,
        (visit g Γ e (types ++ [T]) rest).result⟩ := by
      rw [visit_cons hquiet]
      apply Check.ext
      · rw [Check.log_bind, hpart]
      · rw [Check.result_bind, hpart, Check.ok_bind]
    rw [List.append_assoc, List.singleton_append, ih, hstep]
    simp only [Expr.traces, List.flatMap_append, List.flatMap_singleton, List.append_assoc]

/-- An expression that has read all its parts and finds nothing wrong is traced behind them. -/
theorem typeOf_of_reads {types : List Ty} {T : Ty} (h : e.Reads g Γ e.parts types) (hT : e.conclude g Γ types = .ok T) :
    e.typeOf g Γ = ⟨Expr.traces g Γ e.parts ++ [.typed e T], .ok T⟩ := by
  have hvisit := visit_of_reads h []
  rw [List.append_nil, visit, hT] at hvisit
  rw [typeOf_eq_visit, hvisit]
  apply Check.ext
  · simp [Check.log_bind, -bind_pure_comp]
  · simp [Check.result_bind, -bind_pure_comp]

/-- An expression whose parts cannot all be read is not traced. -/
theorem typeOf_of_visit_error {log : Log} {err : TypeError} (h : visit g Γ e [] e.parts = ⟨log, .error err⟩) :
    e.typeOf g Γ = ⟨log, .error err⟩ := by
  have hresult : (visit g Γ e [] e.parts).result = .error err := by rw [h]
  rw [typeOf_eq_visit, Check.bind_of_error hresult, h]

/-- An expression that is at fault itself leaves the traces of the parts it has read. -/
theorem typeOf_of_own {read unread : List Expr} {types : List Ty} {err : TypeError} (hparts : e.parts = read ++ unread)
    (h : e.Reads g Γ read types) (herr : e.conclude g Γ types = .error err) :
    e.typeOf g Γ = ⟨Expr.traces g Γ read, .error err⟩ := by
  apply typeOf_of_visit_error
  rw [hparts, visit_of_reads h, visit_of_error herr, List.append_nil]

/-- An expression with a part that fails leaves the traces of the parts it has read, and what that part leaves. -/
theorem typeOf_of_part {read unread : List Expr} {part : Expr} {types : List Ty} {T : Ty} {err : TypeError}
    (hparts : e.parts = read ++ part :: unread) (h : e.Reads g Γ read types) (hT : e.conclude g Γ types = .ok T)
    (herr : (part.typeOf g Γ).result = .error err) :
    e.typeOf g Γ = ⟨Expr.traces g Γ read ++ (part.typeOf g Γ).log, .error err⟩ := by
  apply typeOf_of_visit_error
  rw [hparts, visit_of_reads h, visit_cons hT, Check.bind_of_error herr]

/-! ## How far an expression gets -/

/-- What an expression has read has the types that were found. -/
theorem typed_of_reads {read : List Expr} {types : List Ty} (h : e.Reads g Γ read types) :
    ∀ part ∈ read, ∃ T, (part.typeOf g Γ).result = .ok T := by
  induction h with
  | nil =>
    intro part hpart
    cases hpart
  | next _ _ htyped ih =>
    intro part hpart
    rcases List.mem_append.1 hpart with hpart | hpart
    · exact ih part hpart
    · rw [List.mem_singleton.1 hpart]
      exact ⟨_, htyped⟩

/-- An expression reads on to the end of its parts, unless it is at fault or the next part fails. -/
theorem reads_on {read rest : List Expr} {types : List Ty} (h : e.Reads g Γ read types) (hparts : e.parts = read ++ rest) :
    (∃ types T, e.Reads g Γ e.parts types ∧ e.conclude g Γ types = .ok T) ∨
    (∃ read unread types err, e.parts = read ++ unread ∧ e.Reads g Γ read types ∧ e.conclude g Γ types = .error err) ∨
    ∃ read part unread types T err, e.parts = read ++ part :: unread ∧ e.Reads g Γ read types ∧
      e.conclude g Γ types = .ok T ∧ (part.typeOf g Γ).result = .error err := by
  induction rest generalizing read types with
  | nil =>
    rw [List.append_nil] at hparts
    cases hconclude : e.conclude g Γ types with
    | ok T => exact Or.inl ⟨types, T, hparts ▸ h, hconclude⟩
    | error err =>
      refine Or.inr (Or.inl ⟨read, [], types, err, ?_, h, hconclude⟩)
      rw [List.append_nil, hparts]
  | cons part rest ih =>
    cases hconclude : e.conclude g Γ types with
    | error err => exact Or.inr (Or.inl ⟨read, part :: rest, types, err, hparts, h, hconclude⟩)
    | ok T =>
      cases hpart : (part.typeOf g Γ).result with
      | error err => exact Or.inr (Or.inr ⟨read, part, rest, types, T, err, hparts, h, hconclude, hpart⟩)
      | ok U =>
        rw [List.append_cons] at hparts
        exact ih (h.next hconclude hpart) hparts

/-! ## Success -/

/-- An expression that has a type has read all its parts. -/
theorem reads_parts_of_ok {T : Ty} (h : (e.typeOf g Γ).result = .ok T) :
    ∃ types, e.Reads g Γ e.parts types ∧ e.conclude g Γ types = .ok T := by
  rcases reads_on (e := e) (g := g) (Γ := Γ) .nil rfl with
    ⟨types, U, hreads, hU⟩ | ⟨read, unread, types, err, hparts, hreads, herr⟩ |
    ⟨read, part, unread, types, U, err, hparts, hreads, hU, herr⟩
  · rw [typeOf_of_reads hreads hU] at h
    cases h
    exact ⟨types, hreads, hU⟩
  · rw [typeOf_of_own hparts hreads herr] at h
    cases h
  · rw [typeOf_of_part hparts hreads hU herr] at h
    cases h

/-- The trace of an expression that has a type goes through the expressions in it. -/
theorem forall₂_postorder (e : Expr) {T : Ty} (h : (e.typeOf g Γ).result = .ok T) :
    List.Forall₂ (Expr.IsTracedBy g Γ) e.postorder (e.typeOf g Γ).log := by
  induction e using Expr.induction_on_parts generalizing T with
  | step e ih =>
    obtain ⟨types, hreads, hT⟩ := reads_parts_of_ok h
    have hparts : ∀ part ∈ e.parts, List.Forall₂ (Expr.IsTracedBy g Γ) part.postorder (part.typeOf g Γ).log := by
      intro part hpart
      obtain ⟨U, hU⟩ := typed_of_reads hreads part hpart
      exact ih part hpart hU
    rw [Expr.postorder_eq, typeOf_of_reads hreads hT]
    refine List.rel_append (List.rel_flatMap (List.forall₂_same.2 hparts) fun _ _ hpart => hpart) ?_
    exact .cons ⟨T, h, rfl⟩ .nil

/-! ## Failure -/

/-- An expression that has no type fails in a chain of expressions. -/
theorem exists_fails (e : Expr) {err : TypeError} (h : (e.typeOf g Γ).result = .error err) :
    ∃ failing completed, e.Fails g Γ failing completed err := by
  induction e using Expr.induction_on_parts generalizing err with
  | step e ih =>
    rcases reads_on (e := e) (g := g) (Γ := Γ) .nil rfl with
      ⟨types, T, hreads, hT⟩ | ⟨read, unread, types, err', hparts, hreads, herr⟩ |
      ⟨read, part, unread, types, T, err', hparts, hreads, hT, herr⟩
    · rw [typeOf_of_reads hreads hT] at h
      cases h
    · rw [typeOf_of_own hparts hreads herr] at h
      cases h
      exact ⟨[e], read, .own hparts hreads herr⟩
    · have hpart : part ∈ e.parts := by
        rw [hparts]
        exact List.mem_append_right _ List.mem_cons_self
      rw [typeOf_of_part hparts hreads hT herr] at h
      cases h
      obtain ⟨failing, completed, hfails⟩ := ih part hpart herr
      exact ⟨e :: failing, read ++ completed, .part hparts hreads hT hfails⟩

variable {failing completed : List Expr} {err : TypeError}

/-- The check of an expression that fails leaves the traces of what was read before. -/
theorem typeOf_of_fails (h : e.Fails g Γ failing completed err) :
    e.typeOf g Γ = ⟨Expr.traces g Γ completed, .error err⟩ := by
  induction h with
  | own hparts hreads herr => exact typeOf_of_own hparts hreads herr
  | part hparts hreads hT _ ih =>
    rw [typeOf_of_part hparts hreads hT (by rw [ih]), ih]
    simp only [Expr.traces, List.flatMap_append]

/-- What was read before has types. -/
theorem typed_of_fails (h : e.Fails g Γ failing completed err) :
    ∀ sub ∈ completed, ∃ T, (sub.typeOf g Γ).result = .ok T := by
  induction h with
  | own _ hreads _ => exact typed_of_reads hreads
  | part _ hreads _ _ ih =>
    intro sub hsub
    rcases List.mem_append.1 hsub with hsub | hsub
    · exact typed_of_reads hreads sub hsub
    · exact ih sub hsub

/-- All expressions of the chain fail. -/
theorem fails_of_mem_failing (h : e.Fails g Γ failing completed err) :
    ∀ above ∈ failing, (above.typeOf g Γ).result = .error err := by
  induction h with
  | own hparts hreads herr =>
    intro above habove
    rw [List.mem_singleton.1 habove, typeOf_of_own hparts hreads herr]
  | part hparts hreads hT hpart ih =>
    intro above habove
    rcases List.mem_cons.1 habove with rfl | habove
    · rw [typeOf_of_fails (.part hparts hreads hT hpart)]
    · exact ih above habove

/-- What was read before was read by an expression of the chain, as one of its parts. -/
theorem exists_whole_of_fails (h : e.Fails g Γ failing completed err) :
    ∀ sub ∈ completed, ∃ above ∈ failing, sub ∈ above.parts := by
  induction h with
  | @own e read unread types err hparts _ _ =>
    intro sub hsub
    refine ⟨e, List.mem_singleton_self e, ?_⟩
    rw [hparts]
    exact List.mem_append_left _ hsub
  | @part e part read unread failing completed types T err hparts _ _ _ ih =>
    intro sub hsub
    rcases List.mem_append.1 hsub with hsub | hsub
    · refine ⟨e, List.mem_cons_self, ?_⟩
      rw [hparts]
      exact List.mem_append_left _ hsub
    · obtain ⟨above, habove, hmem⟩ := ih sub hsub
      exact ⟨above, List.mem_cons_of_mem _ habove, hmem⟩

/-- What was read before comes first in post-order. -/
theorem postorder_of_fails (h : e.Fails g Γ failing completed err) :
    completed.flatMap Expr.postorder <+: e.postorder := by
  induction h with
  | own hparts _ _ =>
    rw [Expr.postorder_eq, hparts, List.flatMap_append, List.append_assoc]
    exact List.prefix_append _ _
  | part hparts _ _ _ ih =>
    rw [Expr.postorder_eq, hparts, List.flatMap_append, List.flatMap_append, List.flatMap_cons, List.append_assoc,
      List.append_assoc, List.prefix_append_right_inj]
    exact ih.trans (List.prefix_append _ _)

/-- The traces of expressions that have types go through the expressions in them. -/
theorem forall₂_flatMap_postorder {es : List Expr} (h : ∀ sub ∈ es, ∃ T, (sub.typeOf g Γ).result = .ok T) :
    List.Forall₂ (Expr.IsTracedBy g Γ) (es.flatMap Expr.postorder) (Expr.traces g Γ es) := by
  have hsubs : ∀ sub ∈ es, List.Forall₂ (Expr.IsTracedBy g Γ) sub.postorder (sub.typeOf g Γ).log := by
    intro sub hsub
    obtain ⟨T, hT⟩ := h sub hsub
    exact forall₂_postorder sub hT
  exact List.rel_flatMap (List.forall₂_same.2 hsubs) fun _ _ hsub => hsub

/-- What stands on the right of two lists that are related stands across from something on the left. -/
theorem exists_mem_left {α β : Type} {R : α → β → Prop} {as : List α} {bs : List β} (h : List.Forall₂ R as bs) :
    ∀ b ∈ bs, ∃ a ∈ as, R a b := by
  induction h with
  | nil => exact List.forall_mem_nil _
  | cons hab _ ih =>
    refine List.forall_mem_cons.2 ⟨⟨_, List.mem_cons_self, hab⟩, ?_⟩
    intro b hb
    obtain ⟨a, ha, hR⟩ := ih b hb
    exact ⟨a, List.mem_cons_of_mem _ ha, hR⟩

/-- No expression of the chain is traced. -/
theorem not_traced_of_fails (h : e.Fails g Γ failing completed err) {above : Expr} (habove : above ∈ failing) (T : Ty) :
    .typed above T ∉ (e.typeOf g Γ).log := by
  intro hmem
  rw [typeOf_of_fails h] at hmem
  obtain ⟨sub, -, U, hU, hevent⟩ := exists_mem_left (forall₂_flatMap_postorder (typed_of_fails h)) _ hmem
  cases hevent
  rw [fails_of_mem_failing h above habove] at hU
  cases hU

/-- The chain begins with the whole. -/
theorem head?_of_fails (h : e.Fails g Γ failing completed err) : failing.head? = some e := by
  cases h <;> rfl

/-! ## The lines of a trace -/

variable (hidden : Char → Bool)

/-- The lines of a trace show what its events say. -/
theorem forall₂_lines {es : List Expr} {log : Log} (h : List.Forall₂ (Expr.IsTracedBy g Γ) es log) :
    List.Forall₂ (Expr.IsShownBy hidden g Γ) es (log.lines hidden) := by
  rw [Log.lines, List.forall₂_map_right_iff]
  apply h.imp
  rintro sub event ⟨T, hT, rfl⟩
  exact ⟨T, hT, rfl⟩

/-- The lines of some traces stand one behind the other like the traces. -/
theorem lines_traces (es : List Expr) :
    (Expr.traces g Γ es).lines hidden = es.flatMap fun e => (e.typeOf g Γ).log.lines hidden :=
  List.map_flatMap

/-- What was read before the fault is shown. -/
theorem forall₂_lines_of_fails (h : e.Fails g Γ failing completed err) :
    List.Forall₂ (Expr.IsShownBy hidden g Γ) (completed.flatMap Expr.postorder) ((e.typeOf g Γ).log.lines hidden) := by
  rw [typeOf_of_fails h]
  exact forall₂_lines hidden (forall₂_flatMap_postorder (typed_of_fails h))

/-- No expression of the chain is shown: a line tells which expression it shows, and what is shown has a type. -/
theorem not_shown_of_fails (h : e.Fails g Γ failing completed err) {above : Expr} (habove : above ∈ failing) (T : Ty) :
    (.trace, above.dump hidden ++ " : " ++ T.display) ∉ (e.typeOf g Γ).log.lines hidden := by
  intro hmem
  obtain ⟨sub, -, U, hU, hline⟩ := exists_mem_left (forall₂_lines_of_fails hidden h) _ hmem
  have htext : above.dump hidden ++ (" : " ++ T.display) = sub.dump hidden ++ (" : " ++ U.display) := by
    rw [← String.append_assoc, ← String.append_assoc]
    exact (Prod.mk.inj hline).2
  obtain ⟨rfl, -⟩ := Expr.dump_append_inj hidden htext
  rw [fails_of_mem_failing h above habove] at hU
  cases hU

end TraceAux

open TraceAux

/-- The trace of an expression is the post-order of its typed nodes, and so are the lines that show it.

If the expression has a type, its trace has one event for each expression in it, places not among them, in post-order and each
with the type that expression has; the last event is that of the expression itself. If it has none, it fails in a chain of
expressions that begins with it. None of these has a type, and none is traced. The trace consists of the traces of the parts that
they had read before, each of which has a type by itself; it comes first in post-order.

The lines are traced, one for each event, and have the expression and behind it the text of its type. -/
theorem Expr.typeOf_trace_exact (hidden : Char → Bool) (g : Globals) (Γ : Scope) (e : Expr) :
    (∀ T, (e.typeOf g Γ).result = .ok T →
      List.Forall₂ (Expr.IsTracedBy g Γ) e.postorder (e.typeOf g Γ).log ∧
      (e.typeOf g Γ).log.getLast? = some (.typed e T) ∧
      List.Forall₂ (Expr.IsShownBy hidden g Γ) e.postorder ((e.typeOf g Γ).log.lines hidden) ∧
      ((e.typeOf g Γ).log.lines hidden).getLast? = some (.trace, e.dump hidden ++ " : " ++ T.display)) ∧
    (∀ err, (e.typeOf g Γ).result = .error err → ∃ failing completed, e.Fails g Γ failing completed err) ∧
    ∀ failing completed err, e.Fails g Γ failing completed err →
      (e.typeOf g Γ).result = .error err ∧
      failing.head? = some e ∧
      (∀ above ∈ failing, (above.typeOf g Γ).result = .error err ∧ ∀ T, .typed above T ∉ (e.typeOf g Γ).log ∧
        (.trace, above.dump hidden ++ " : " ++ T.display) ∉ (e.typeOf g Γ).log.lines hidden) ∧
      (e.typeOf g Γ).log = Expr.traces g Γ completed ∧
      (e.typeOf g Γ).log.lines hidden = completed.flatMap (fun sub => (sub.typeOf g Γ).log.lines hidden) ∧
      List.Forall₂ (Expr.IsShownBy hidden g Γ) (completed.flatMap Expr.postorder) ((e.typeOf g Γ).log.lines hidden) ∧
      (∀ sub ∈ completed, (∃ T, (sub.typeOf g Γ).result = .ok T) ∧ ∃ above ∈ failing, sub ∈ above.parts) ∧
      completed.flatMap Expr.postorder <+: e.postorder := by
  refine ⟨?_, ?_, ?_⟩
  · intro T h
    have htraced := forall₂_postorder e h
    obtain ⟨types, hreads, hT⟩ := reads_parts_of_ok h
    have hlast : (e.typeOf g Γ).log.getLast? = some (.typed e T) := by
      rw [typeOf_of_reads hreads hT]
      exact List.getLast?_concat
    refine ⟨htraced, hlast, forall₂_lines hidden htraced, ?_⟩
    rw [Log.lines, List.getLast?_map, hlast]
    rfl
  · intro err h
    exact exists_fails e h
  · intro failing completed err h
    have htypeOf := typeOf_of_fails h
    refine ⟨by rw [htypeOf], head?_of_fails h, ?_, by rw [htypeOf], ?_, forall₂_lines_of_fails hidden h, ?_,
      postorder_of_fails h⟩
    · intro above habove
      refine ⟨fails_of_mem_failing h above habove, ?_⟩
      intro T
      exact ⟨not_traced_of_fails h habove T, not_shown_of_fails hidden h habove T⟩
    · rw [htypeOf, lines_traces]
    · intro sub hsub
      exact ⟨typed_of_fails h sub hsub, exists_whole_of_fails h sub hsub⟩

namespace TraceAux

/-- A sum of two numbers. -/
def sum : Expr :=
  .binary .add (.int 1) (.int 2)

/-- A sum that follows a number as if it were a pointer. -/
def badSum : Expr :=
  .binary .add (.deref (.int 3)) (.int 4)

/-- The product of the two sums. -/
def product : Expr :=
  .binary .mul sum badSum

/-- The product fails in the second sum, which has read a number and does not get to the other one. -/
theorem product_fails :
    product.Fails {} ∅ [product, badSum, .deref (.int 3)] [sum, .int 3] (.notAPointer .int) := by
  have hderefParts : (Expr.deref (.int 3)).parts = [.int 3] ++ [] := rfl
  have hbadParts : badSum.parts = [] ++ .deref (.int 3) :: [.int 4] := rfl
  have hproductParts : product.parts = [sum] ++ badSum :: [] := rfl
  have hderef : (Expr.deref (.int 3)).Fails {} ∅ [.deref (.int 3)] [.int 3] (.notAPointer .int) :=
    .own hderefParts (.next .nil rfl rfl) rfl
  have hbad : badSum.Fails {} ∅ [badSum, .deref (.int 3)] [.int 3] (.notAPointer .int) :=
    .part hbadParts .nil rfl hderef
  exact .part hproductParts (.next .nil rfl rfl) rfl hbad

end TraceAux

/-- The sum is shown with its parts. The product leaves the lines of the sum and of the number that was read before the
fault, and none for itself, for the second sum or for the pointer that is none. -/
theorem Expr.typeOf_trace_exact_product :
    (sum.typeOf {} ∅).result = .ok .int ∧
    ((sum.typeOf {} ∅).log.lines fun _ => false).getLast? =
      some (.trace, "Binary \x7b op: Add, left: IntLiteral(1), right: IntLiteral(2) \x7d : int") ∧
    (product.typeOf {} ∅).result = .error (.notAPointer .int) ∧
    (product.typeOf {} ∅).log = Expr.traces {} ∅ [sum, .int 3] ∧
    (product.typeOf {} ∅).log.lines (fun _ => false) =
      [(.trace, "IntLiteral(1) : int"), (.trace, "IntLiteral(2) : int"),
        (.trace, "Binary \x7b op: Add, left: IntLiteral(1), right: IntLiteral(2) \x7d : int"),
        (.trace, "IntLiteral(3) : int")] := by
  have hsum : (sum.typeOf {} ∅).result = .ok .int := rfl
  obtain ⟨htyped, -, -⟩ := Expr.typeOf_trace_exact (fun _ => false) {} ∅ sum
  obtain ⟨-, -, hfails⟩ := Expr.typeOf_trace_exact (fun _ => false) {} ∅ product
  obtain ⟨hresult, -, -, hlog, hlines, -, -, -⟩ := hfails _ _ _ product_fails
  exact ⟨hsum, (htyped .int hsum).2.2.2, hresult, hlog, hlines⟩

end CoreC
