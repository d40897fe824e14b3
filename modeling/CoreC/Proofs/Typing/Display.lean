import Mathlib.Logic.Function.Iterate
import CoreC.Proofs.Typing.Provenance

/-!
# Types that are shown alike

A type is shown as a word and a star for each pointer. The word of a built-in type is told from all others by its first
letter. The word of a structure ends in the name of the structure, which may be any text, so it is not seen where the name ends
and the stars begin: a pointer to `s` is shown like a structure of the name `s*`. There is no other way for two types to be
shown alike, and none at all where no name ends in a star (`Ty.display_exact`).
-/

namespace CoreC

/-- A text of some stars, and of nothing else. -/
def stars (n : Nat) : String :=
  String.ofList (List.replicate n '*')

/-- A name whose last character is a star. -/
def StructName.Starred (name : StructName) : Prop :=
  name.text.toList.getLast? = some '*'

instance (name : StructName) : Decidable name.Starred :=
  inferInstanceAs (Decidable (_ = _))

namespace DisplayAux

theorem stars_succ (n : Nat) : stars (n + 1) = stars n ++ "*" := by
  apply String.toList_injective
  simp [stars, List.replicate_succ']

theorem stars_injective : Function.Injective stars := by
  intro n m h
  have hlist : List.replicate n '*' = List.replicate m '*' := String.ofList_injective h
  simpa using congrArg List.length hlist

/-- The stars behind a name that does not end in one are told from it. -/
theorem eq_of_append_stars {a b : StructName} (ha : ¬a.Starred) (hb : ¬b.Starred) {n m : Nat}
    (h : a.text ++ stars n = b.text ++ stars m) : a = b ∧ n = m := by
  -- Where the stars of one name are used up first, the last character of that name is a star of the other one.
  have hend : ∀ {c : StructName} {t : String}, ¬c.Starred → c.text ≠ t ++ "*" := by
    intro c t hc heq
    apply hc
    simp [StructName.Starred, heq]
  induction n generalizing m with
  | zero =>
    cases m with
    | zero =>
      have htext : a.text = b.text := by simpa [stars] using h
      exact ⟨congrArg Name.mk htext, rfl⟩
    | succ m =>
      rw [stars_succ, ← String.append_assoc] at h
      exact absurd (by simpa [stars] using h) (hend ha)
  | succ n ih =>
    cases m with
    | zero =>
      rw [stars_succ, ← String.append_assoc] at h
      exact absurd (by simpa [stars] using h.symm) (hend hb)
    | succ m =>
      rw [stars_succ, stars_succ, ← String.append_assoc, ← String.append_assoc, String.append_left_inj] at h
      obtain ⟨hab, hnm⟩ := ih h
      exact ⟨hab, congrArg (· + 1) hnm⟩

/-! ## Words and stars -/

/-- A type that is no pointer. -/
def IsWord (T : Ty) : Prop :=
  ∀ target, T ≠ .pointer target

/-- Every type is some pointers to one that is none. -/
theorem exists_word (T : Ty) : ∃ n word, IsWord word ∧ T = Ty.pointer^[n] word := by
  induction T with
  | pointer target ih =>
    obtain ⟨n, word, hword, rfl⟩ := ih
    exact ⟨n + 1, word, hword, (Function.iterate_succ_apply' Ty.pointer n word).symm⟩
  | void => exact ⟨0, .void, fun _ => Ty.noConfusion, rfl⟩
  | int => exact ⟨0, .int, fun _ => Ty.noConfusion, rfl⟩
  | char => exact ⟨0, .char, fun _ => Ty.noConfusion, rfl⟩
  | bool => exact ⟨0, .bool, fun _ => Ty.noConfusion, rfl⟩
  | struct name => exact ⟨0, .struct name, fun _ => Ty.noConfusion, rfl⟩

/-- A type is shown as a word and its stars. -/
theorem display_iterate (n : Nat) (T : Ty) : (Ty.pointer^[n] T).display = T.display ++ stars n := by
  induction n with
  | zero => simp [stars]
  | succ n ih => rw [Function.iterate_succ_apply', Ty.display, ih, stars_succ, String.append_assoc]

theorem names_iterate (n : Nat) (T : Ty) : (Ty.pointer^[n] T).names = T.names := by
  induction n with
  | zero => rfl
  | succ n ih => rw [Function.iterate_succ_apply', Ty.names, ih]

/-- The letter that a type is shown with first. -/
def initial : Ty → Char
  | .void => 'v'
  | .int => 'i'
  | .char => 'c'
  | .bool => 'b'
  | .struct _ => 's'
  | .pointer target => initial target

theorem head?_display (T : Ty) : T.display.toList.head? = some (initial T) := by
  induction T with
  | pointer target ih => simp [Ty.display, initial, ih]
  | void | int | char | bool => rfl
  | struct name => simp [Ty.display, initial]

/-- Two words that begin alike are one, or are both structures. -/
theorem eq_or_struct_of_initial {T U : Ty} (hT : IsWord T) (hU : IsWord U) (h : initial T = initial U) :
    T = U ∨ ∃ a b, T = .struct a ∧ U = .struct b := by
  cases T with
  | pointer target => exact absurd rfl (hT target)
  | void | int | char | bool | struct =>
    cases U with
    | pointer target => exact absurd rfl (hU target)
    | void | int | char | bool | struct => simp_all [initial]

/-- Types that are shown alike are one, or are pointers to structures. -/
theorem eq_or_structs_of_display {T U : Ty} (h : T.display = U.display) :
    T = U ∨ ∃ n m a b, T = Ty.pointer^[n] (.struct a) ∧ U = Ty.pointer^[m] (.struct b) := by
  obtain ⟨n, T, hT, rfl⟩ := exists_word T
  obtain ⟨m, U, hU, rfl⟩ := exists_word U
  rw [display_iterate, display_iterate] at h
  have hinitial : initial T = initial U := by
    have hhead := congrArg (fun t => t.toList.head?) h
    simpa [head?_display] using hhead
  rcases eq_or_struct_of_initial hT hU hinitial with rfl | ⟨a, b, rfl, rfl⟩
  · rw [String.append_right_inj] at h
    exact Or.inl (by rw [stars_injective h])
  · exact Or.inr ⟨n, m, a, b, rfl, rfl⟩

/-- Pointers to structures are shown alike exactly when the names with the stars behind them are alike. -/
theorem display_structs_eq_iff (n m : Nat) (a b : StructName) :
    (Ty.pointer^[n] (.struct a)).display = (Ty.pointer^[m] (.struct b)).display ↔
      a.text ++ stars n = b.text ++ stars m := by
  rw [display_iterate, display_iterate, Ty.display, Ty.display, String.append_assoc, String.append_assoc,
    String.append_right_inj]

/-- Types without starred names are told by how they are shown. -/
theorem eq_of_display {T U : Ty} (hT : T.Over (¬·.Starred)) (hU : U.Over (¬·.Starred)) (h : T.display = U.display) :
    T = U := by
  rcases eq_or_structs_of_display h with heq | ⟨n, m, a, b, rfl, rfl⟩
  · exact heq
  · have ha : ¬a.Starred := hT a (by simp [names_iterate, Ty.names])
    have hb : ¬b.Starred := hU b (by simp [names_iterate, Ty.names])
    obtain ⟨rfl, rfl⟩ := eq_of_append_stars ha hb ((display_structs_eq_iff n m a b).1 h)
    rfl

end DisplayAux

open DisplayAux

/-- Two types are shown alike exactly when they are the same, or are pointers to structures whose names with the stars behind
them are alike. So in a program where no structure is named with a star at the end, a mismatch shows two different types. -/
theorem Ty.display_exact :
    (∀ T U : Ty, T.display = U.display ↔
      T = U ∨ ∃ (n m : Nat) (a b : StructName), T = Ty.pointer^[n] (.struct a) ∧ U = Ty.pointer^[m] (.struct b) ∧
        a.text ++ stars n = b.text ++ stars m) ∧
    ∀ p : Program, (∀ name ∈ p.structNames, ¬name.Starred) → ∀ expected found : Ty,
      p.check.result = .error (.typeMismatch expected found) →
        (TypeError.typeMismatch expected found).message = "expected: " ++ expected.display ++ " got: " ++ found.display ∧
          expected.display ≠ found.display := by
  refine ⟨fun T U => ⟨fun h => ?_, ?_⟩, fun p hp expected found hcheck => ⟨?_, fun h => ?_⟩⟩
  · rcases eq_or_structs_of_display h with heq | ⟨n, m, a, b, rfl, rfl⟩
    · exact Or.inl heq
    · exact Or.inr ⟨n, m, a, b, rfl, rfl, (display_structs_eq_iff n m a b).1 h⟩
  · rintro (rfl | ⟨n, m, a, b, rfl, rfl, h⟩)
    · rfl
    · exact (display_structs_eq_iff n m a b).2 h
  · rfl
  · have hover : ∀ T ∈ [expected, found], T.Over (¬·.Starred) := by
      intro T hT name hname
      exact hp name (p.names_of_fault hcheck hT hname)
    have hexpected := hover expected List.mem_cons_self
    have hfound := hover found (List.mem_cons_of_mem _ List.mem_cons_self)
    exact p.ne_of_typeMismatch hcheck (eq_of_display hexpected hfound h)

namespace DisplayAux

/-- A program whose function is to return a structure and returns a pointer to another one, `s`. -/
def returnsPointer (name : StructName) : Program where
  structs := [⟨⟨"s"⟩, []⟩, ⟨name, []⟩]
  funs := [{
    returnType := .struct name
    name := ⟨"f"⟩
    params := [⟨.pointer (.struct ⟨"s"⟩), ⟨"q"⟩⟩]
    body := .returnValue (.var ⟨"q"⟩) }]

end DisplayAux

/-- A pointer to `s` is shown like a structure `s*`, so the mismatch of the two shows one text twice; that with a structure
`t` shows two texts. -/
theorem Ty.display_exact_star :
    ((returnsPointer ⟨"s*"⟩).check.result = .error (.typeMismatch (.struct ⟨"s*"⟩) (.pointer (.struct ⟨"s"⟩))) ∧
      (Ty.struct ⟨"s*"⟩).display = (Ty.pointer (.struct ⟨"s"⟩)).display) ∧
    (∀ name ∈ (returnsPointer ⟨"t"⟩).structNames, ¬name.Starred) ∧
      (returnsPointer ⟨"t"⟩).check.result = .error (.typeMismatch (.struct ⟨"t"⟩) (.pointer (.struct ⟨"s"⟩))) ∧
      (Ty.struct ⟨"t"⟩).display ≠ (Ty.pointer (.struct ⟨"s"⟩)).display := by
  have hnames : ∀ name ∈ (returnsPointer ⟨"t"⟩).structNames, ¬name.Starred := by decide
  have hcheck : (returnsPointer ⟨"t"⟩).check.result = .error (.typeMismatch (.struct ⟨"t"⟩) (.pointer (.struct ⟨"s"⟩))) :=
    rfl
  have hstars : (⟨"s*"⟩ : StructName).text ++ stars 0 = (⟨"s"⟩ : StructName).text ++ stars 1 := by decide
  have halike := (Ty.display_exact.1 (.struct ⟨"s*"⟩) (.pointer (.struct ⟨"s"⟩))).2
    (Or.inr ⟨0, 1, ⟨"s*"⟩, ⟨"s"⟩, rfl, rfl, hstars⟩)
  have hapart := Ty.display_exact.2 (returnsPointer ⟨"t"⟩) hnames _ _ hcheck
  exact ⟨⟨rfl, halike⟩, hnames, hcheck, hapart.2⟩

end CoreC
