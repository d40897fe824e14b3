import Mathlib.Data.Finset.Card
import Mathlib.Data.Finset.Dedup
import CoreC.Proofs.Typing.Scopes

/-!
# Scopes and their histories

Scopes are made one after the other (`Scope.run`): an empty one, one of parameters, or one that was made before with one more
variable, and any scope may be extended any number of times. The variables a scope was made with, in their order, are its
history (`Scope.History`). It decides all that the scope answers (`Scope.Answers`), and since nothing that is made later
changes a scope that is there, the answers stay what they are.
-/

namespace CoreC

namespace Scope

/-! ## What a history answers -/

/-- The last declaration of a variable among some has this type. -/
def LastBinding (history : List (Decl .var)) (x : VarName) (T : Ty) : Prop :=
  ∃ before behind, history = before ++ ⟨T, x⟩ :: behind ∧ ∀ d ∈ behind, d.name ≠ x

/-- A scope answers as its history says. -/
structure Answers (Γ : Scope) (history : List (Decl .var)) : Prop where
  /-- A variable has the type of its last declaration. -/
  lookup_eq_ok_iff : ∀ x T, Γ.lookup x = .ok T ↔ LastBinding history x T
  /-- What is not declared is unbound, and nothing else is. -/
  lookup_eq_error_iff : ∀ x e, Γ.lookup x = .error e ↔ e = .unboundVariable x ∧ ∀ d ∈ history, d.name ≠ x
  /-- A variable that is declared more than once counts once. -/
  size_eq : Γ.size = (history.map Decl.name).toFinset.card
  /-- Only a scope that nothing was declared in is empty. -/
  isEmpty_iff : Γ.isEmpty = true ↔ history = []

/-- A variable is declared for the last time somewhere, or nowhere declared. -/
theorem lastBinding_or_forall_ne (history : List (Decl .var)) (x : VarName) :
    (∃ T, LastBinding history x T) ∨ ∀ d ∈ history, d.name ≠ x := by
  induction history with
  | nil =>
    right
    intro d hd
    cases hd
  | cons d history ih =>
    rcases ih with ⟨T, before, behind, rfl, hlast⟩ | hne
    · exact Or.inl ⟨T, d :: before, behind, rfl, hlast⟩
    · by_cases hd : d.name = x
      · subst hd
        exact Or.inl ⟨d.ty, [], history, rfl, hne⟩
      · exact Or.inr (List.forall_mem_cons.2 ⟨hd, hne⟩)

/-- A variable is looked up to its last declaration. -/
theorem lookup_ofParams_of_lastBinding {history : List (Decl .var)} {x : VarName} {T : Ty} (h : LastBinding history x T) :
    (ofParams history).lookup x = .ok T := by
  obtain ⟨before, behind, rfl, hlast⟩ := h
  exact lookup_extendAll_of_last ∅ (d := ⟨T, x⟩) hlast

/-- A variable that is not declared is not found. -/
theorem lookup_ofParams_of_forall_ne {history : List (Decl .var)} {x : VarName} (h : ∀ d ∈ history, d.name ≠ x) :
    (ofParams history).lookup x = .error (.unboundVariable x) := by
  rw [ofParams_eq_extendAll, lookup_extendAll_of_forall_ne h]
  rfl

theorem ofParams_concat (params : List (Decl .var)) (decl : Decl .var) :
    ofParams (params ++ [decl]) = (ofParams params).extend decl :=
  List.foldl_append

/-- A scope has as many variables as its history has names. -/
theorem size_ofParams (history : List (Decl .var)) :
    (ofParams history).size = (history.map Decl.name).toFinset.card := by
  -- from the right: the last declaration is the one that finds its name taken or not
  induction history using List.reverseRecOn with
  | nil => rfl
  | append_singleton history decl ih =>
    have hmem : decl.name ∈ ofParams history ↔ decl.name ∈ (history.map Decl.name).toFinset := by
      rw [ofParams_eq_extendAll, mem_extendAll_iff, List.mem_toFinset]
      simp
    have hnames : ((history ++ [decl]).map Decl.name).toFinset = insert decl.name (history.map Decl.name).toFinset := by
      ext x
      simp
    simp only [ofParams_concat, extend, Std.ExtTreeMap.size_insert, Std.ExtTreeMap.contains_iff_mem, ih, hnames]
    by_cases hd : decl.name ∈ ofParams history
    · rw [if_pos hd, Finset.card_insert_of_mem (hmem.1 hd)]
    · rw [if_neg hd, Finset.card_insert_of_notMem (mt hmem.2 hd)]

/-- The scope of some parameters answers as their list says, be they in order or not. -/
theorem answers_ofParams (history : List (Decl .var)) : (ofParams history).Answers history := by
  refine ⟨?_, ?_, size_ofParams history, ?_⟩
  · intro x T
    refine ⟨fun h => ?_, lookup_ofParams_of_lastBinding⟩
    rcases lastBinding_or_forall_ne history x with ⟨T', hlast⟩ | hne
    · rw [lookup_ofParams_of_lastBinding hlast] at h
      cases h
      exact hlast
    · rw [lookup_ofParams_of_forall_ne hne] at h
      cases h
  · intro x e
    constructor
    · intro h
      rcases lastBinding_or_forall_ne history x with ⟨T, hlast⟩ | hne
      · rw [lookup_ofParams_of_lastBinding hlast] at h
        cases h
      · rw [lookup_ofParams_of_forall_ne hne] at h
        cases h
        exact ⟨rfl, hne⟩
    · rintro ⟨rfl, hne⟩
      exact lookup_ofParams_of_forall_ne hne
  · rw [Std.ExtTreeMap.isEmpty_eq_size_beq_zero, beq_iff_eq, size_ofParams, Finset.card_eq_zero,
      List.toFinset_eq_empty_iff, List.map_eq_nil_iff]

/-- The scope of some parameters is the table of their names and types. -/
theorem ofParams_eq_ofList (params : List (Decl .var)) :
    ofParams params = Std.ExtTreeMap.ofList (params.map fun d => (d.name, d.ty)) := by
  have hextend : ∀ Γ : Scope, Γ.extendAll params = Γ.insertMany (params.map fun d => (d.name, d.ty)) := by
    induction params with
    | nil =>
      intro Γ
      rw [List.map_nil, Std.ExtTreeMap.insertMany_nil]
      rfl
    | cons d params ih =>
      intro Γ
      rw [List.map_cons, Std.ExtTreeMap.insertMany_cons]
      exact ih (Γ.extend d)
  rw [ofParams_eq_extendAll, hextend, Std.ExtTreeMap.ofList_eq_insertMany_empty]

/-! ## Making scopes -/

/-- A way to make a scope where others have been made. They are numbered in the order in which they were made. -/
inductive Creation where
  /-- A scope of no variables. -/
  | new
  /-- The scope of some parameters, which need not be in order. -/
  | ofParams (params : List (Decl .var))
  /-- A scope that was made before, with one more variable. -/
  | extend (k : Nat) (decl : Decl .var)

/-- The scope that is made, if there is one of the number that is to be extended. -/
def Creation.scope? (made : List Scope) : Creation → Option Scope
  | .new => some ∅
  | .ofParams params => some (Scope.ofParams params)
  | .extend k decl => made[k]?.map fun Γ => Γ.extend decl

/-- The scopes that there are when one more is made. -/
def Creation.perform (made : List Scope) (c : Creation) : Option (List Scope) :=
  (c.scope? made).map fun Γ => made ++ [Γ]

/-- The scopes that are made one after the other, from none. -/
def run (creations : List Creation) : Option (List Scope) :=
  creations.foldlM Creation.perform []

/-- Only what was made before is extended. -/
def Ordered (creations : List Creation) : Prop :=
  ∀ n k decl, creations[n]? = some (Creation.extend k decl) → k < n

/-- What the scope of a number was made with: the parameters from left to right, then the variables added to it one by one. -/
inductive History (creations : List Creation) : Nat → List (Decl .var) → Prop where
  | new {n : Nat} (hn : creations[n]? = some .new) : History creations n []
  | ofParams {n : Nat} {params : List (Decl .var)} (hn : creations[n]? = some (.ofParams params)) :
    History creations n params
  | extend {n k : Nat} {decl : Decl .var} {history : List (Decl .var)} (hn : creations[n]? = some (.extend k decl))
    (hk : History creations k history) : History creations n (history ++ [decl])

/-- A scope has one history. -/
theorem History.unique {creations : List Creation} {n : Nat} {history history' : List (Decl .var)}
    (h : History creations n history) (h' : History creations n history') : history' = history := by
  induction h generalizing history' with
  | new hn =>
    cases h' with
    | new => rfl
    | ofParams hn' => cases hn.symm.trans hn'
    | extend hn' => cases hn.symm.trans hn'
  | ofParams hn =>
    cases h' with
    | new hn' => cases hn.symm.trans hn'
    | ofParams hn' =>
      cases hn.symm.trans hn'
      rfl
    | extend hn' => cases hn.symm.trans hn'
  | extend hn _ ih =>
    cases h' with
    | new hn' => cases hn.symm.trans hn'
    | ofParams hn' => cases hn.symm.trans hn'
    | extend hn' hk' =>
      cases hn.symm.trans hn'
      rw [ih hk']

namespace HistoriesAux

/-- What is found under a number is found there when more is put behind. -/
theorem getElem?_append_of_eq_some {α : Type} {xs ys : List α} {n : Nat} {a : α} (h : xs[n]? = some a) :
    (xs ++ ys)[n]? = some a := by
  rw [List.getElem?_append_left (List.getElem?_eq_some_iff.1 h).1, h]

/-- A history is not changed by what is made later. -/
theorem history_append {creations : List Creation} {n : Nat} {history : List (Decl .var)}
    (h : History creations n history) (later : List Creation) : History (creations ++ later) n history := by
  induction h with
  | new hn => exact .new (getElem?_append_of_eq_some hn)
  | ofParams hn => exact .ofParams (getElem?_append_of_eq_some hn)
  | extend hn _ ih => exact .extend (getElem?_append_of_eq_some hn) ih

/-- Where only what was made before is extended, this was so all along. -/
theorem ordered_of_append {creations later : List Creation} (h : Ordered (creations ++ later)) : Ordered creations := by
  intro n k decl hn
  exact h n k decl (getElem?_append_of_eq_some hn)

/-- Some scopes are those that were made: each is the one its history makes as a list of parameters. -/
structure Made (creations : List Creation) (made : List Scope) : Prop where
  length_eq : made.length = creations.length
  scope_eq : ∀ n < creations.length, ∃ history, History creations n history ∧ made[n]? = some (Scope.ofParams history)

theorem made_nil : Made [] [] := by
  refine ⟨rfl, ?_⟩
  intro n hn
  cases hn

/-- One more scope can be made where it extends only what is there. It is put behind the others, which stay. -/
theorem Made.perform {creations : List Creation} {made : List Scope} (h : Made creations made) {c : Creation}
    (hordered : Ordered (creations ++ [c])) :
    ∃ Γ, c.perform made = some (made ++ [Γ]) ∧ Made (creations ++ [c]) (made ++ [Γ]) := by
  have hc : (creations ++ [c])[creations.length]? = some c := List.getElem?_concat_length
  have hnew : ∃ history, History (creations ++ [c]) creations.length history ∧
      c.scope? made = some (Scope.ofParams history) := by
    cases c with
    | new => exact ⟨[], .new hc, rfl⟩
    | ofParams params => exact ⟨params, .ofParams hc, rfl⟩
    | extend k decl =>
      -- what is extended is the scope of its own history, so the new one is that of one declaration more
      obtain ⟨history, hhistory, hk⟩ := h.scope_eq k (hordered _ k decl hc)
      refine ⟨history ++ [decl], .extend hc (history_append hhistory _), ?_⟩
      rw [Creation.scope?, hk, Option.map_some, ofParams_concat]
  obtain ⟨history, hhistory, hscope⟩ := hnew
  refine ⟨Scope.ofParams history, ?_, ?_, ?_⟩
  · rw [Creation.perform, hscope, Option.map_some]
  · rw [List.length_append, List.length_append, h.length_eq]
    rfl
  · intro n hn
    rw [List.length_append, List.length_singleton, Nat.lt_succ_iff_lt_or_eq] at hn
    rcases hn with hn | rfl
    · obtain ⟨history', hhistory', hn'⟩ := h.scope_eq n hn
      exact ⟨history', history_append hhistory' _, getElem?_append_of_eq_some hn'⟩
    · refine ⟨history, hhistory, ?_⟩
      rw [← h.length_eq, List.getElem?_concat_length]

/-- Any number of scopes can be made behind those that are there, which stay. -/
theorem Made.foldlM {creations : List Creation} {made : List Scope} (h : Made creations made) {later : List Creation}
    (hordered : Ordered (creations ++ later)) :
    ∃ more, later.foldlM Creation.perform made = some (made ++ more) ∧ Made (creations ++ later) (made ++ more) := by
  induction later generalizing creations made with
  | nil =>
    refine ⟨[], ?_, ?_⟩
    · rw [List.foldlM_nil, List.append_nil]
      rfl
    · rw [List.append_nil, List.append_nil]
      exact h
  | cons c later ih =>
    rw [List.append_cons] at hordered ⊢
    obtain ⟨Γ, hperform, hΓ⟩ := h.perform (ordered_of_append hordered)
    obtain ⟨more, hfold, hmore⟩ := ih hΓ hordered
    refine ⟨Γ :: more, ?_, ?_⟩
    · rw [List.foldlM_cons, hperform, List.append_cons made Γ more]
      exact hfold
    · rw [List.append_cons made Γ more]
      exact hmore

end HistoriesAux

open HistoriesAux

/-- What was made stays in front of whatever is made later. -/
theorem run_append {creations later : List Creation} {made : List Scope} (hrun : run creations = some made)
    (hmade : Made creations made) (hordered : Ordered (creations ++ later)) :
    ∃ more, run (creations ++ later) = some (made ++ more) := by
  obtain ⟨more, hfold, -⟩ := hmade.foldlM hordered
  refine ⟨more, ?_⟩
  have happend : run (creations ++ later) = run creations >>= later.foldlM Creation.perform := List.foldlM_append
  rw [happend, hrun]
  exact hfold

/-- Scopes are made once and for all, and their histories say all about them. The scope of some parameters is the empty one
extended with them from left to right, which is the table of their names and types: a name that is repeated has its last type
and counts once. Whatever scopes are made, in any order and each from any that was there, there is one for each step. The
scope of a number has one history, answers as the last declarations in it say, and is that of its history as a list of
parameters. It is still the same behind whatever is made later. -/
theorem run_persistent :
    (∀ params : List (Decl .var), ofParams params = params.foldl extend ∅ ∧
      ofParams params = Std.ExtTreeMap.ofList (params.map fun d => (d.name, d.ty)) ∧ (ofParams params).Answers params) ∧
    ∀ creations : List Creation, Ordered creations → ∃ made, run creations = some made ∧ made.length = creations.length ∧
      ∀ n < creations.length, ∃ Γ history, made[n]? = some Γ ∧ (∀ h, History creations n h ↔ h = history) ∧
        Γ.Answers history ∧ Γ = ofParams history ∧
        ∀ later, Ordered (creations ++ later) → ∃ made', run (creations ++ later) = some made' ∧ made'[n]? = some Γ := by
  refine ⟨?_, ?_⟩
  · intro params
    exact ⟨rfl, ofParams_eq_ofList params, answers_ofParams params⟩
  · intro creations hordered
    obtain ⟨made, hrun, hmade⟩ := made_nil.foldlM hordered
    refine ⟨made, hrun, hmade.length_eq, ?_⟩
    intro n hn
    obtain ⟨history, hhistory, hscope⟩ := hmade.scope_eq n hn
    refine ⟨ofParams history, history, hscope, ?_, answers_ofParams history, rfl, ?_⟩
    · intro h
      refine ⟨hhistory.unique, ?_⟩
      rintro rfl
      exact hhistory
    · intro later hlater
      obtain ⟨more, hmore⟩ := run_append hrun hmade hlater
      exact ⟨_, hmore, getElem?_append_of_eq_some hscope⟩

namespace HistoriesAux

/-- A scope of two parameters of one name, which is extended twice: with the same name, and with another one. -/
def branches : List Creation :=
  [.ofParams [⟨.int, ⟨"x"⟩⟩, ⟨.bool, ⟨"x"⟩⟩], .extend 0 ⟨.char, ⟨"x"⟩⟩, .extend 0 ⟨.int, ⟨"y"⟩⟩]

theorem ordered_branches : Ordered branches := by
  intro n k decl hn
  rcases n with _ | _ | _ | n
  · cases hn
  · cases hn
    exact Nat.zero_lt_one
  · cases hn
    exact Nat.zero_lt_two
  · cases hn

end HistoriesAux

open HistoriesAux

/-- The two extensions do not see each other, and the scope of the parameters sees neither of them. -/
theorem run_persistent_branches :
    Ordered branches ∧ ∃ made Γ Δ, run branches = some made ∧ made[0]? = some Γ ∧ made[2]? = some Δ ∧
      Γ.lookup ⟨"x"⟩ = .ok .bool ∧ Γ.lookup ⟨"y"⟩ = .error (.unboundVariable ⟨"y"⟩) ∧ Γ.size = 1 ∧
      Δ.lookup ⟨"x"⟩ = .ok .bool ∧ Δ.lookup ⟨"y"⟩ = .ok .int ∧ Δ.size = 2 := by
  obtain ⟨made, hrun, -, hscopes⟩ := run_persistent.2 branches ordered_branches
  obtain ⟨Γ, history, hΓ, hhistory, hanswers, -⟩ := hscopes 0 (by decide)
  obtain ⟨Δ, history', hΔ, hhistory', hanswers', -⟩ := hscopes 2 (by decide)
  obtain rfl := (hhistory _).1 (.ofParams rfl)
  obtain rfl := (hhistory' _).1 (.extend rfl (.ofParams rfl))
  refine ⟨ordered_branches, made, Γ, Δ, hrun, hΓ, hΔ, ?_, ?_, hanswers.size_eq.trans rfl, ?_, ?_, hanswers'.size_eq.trans rfl⟩
  · exact (hanswers.lookup_eq_ok_iff _ _).2 ⟨[_], [], rfl, by decide⟩
  · exact (hanswers.lookup_eq_error_iff _ _).2 ⟨rfl, by decide⟩
  · exact (hanswers'.lookup_eq_ok_iff _ _).2 ⟨[_], [_], rfl, by decide⟩
  · exact (hanswers'.lookup_eq_ok_iff _ _).2 ⟨[_, _], [], rfl, by decide⟩

end Scope

end CoreC
