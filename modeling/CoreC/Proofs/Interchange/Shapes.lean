import CoreC.Interchange.Decode
import CoreC.Proofs.Interchange.Format

/-!
# Reading shapes

Each reader of a shape gives an answer exactly where the shape is there: texts, integers of 64 bits, variants
(`Json.variant?_eq_some_iff`) and lists (`listOfJson?_eq_some_iff`).
-/

namespace CoreC

namespace Json

/-! ## Texts and numbers -/

theorem Piece.textOnto_eq_some_iff (read : List Char) (ps : List Piece) (text : String) :
    Piece.textOnto read ps = some text ↔ ∃ cs, Spells ps cs ∧ text.toList = read.reverse ++ cs := by
  fun_induction Piece.textOnto read ps with
  | case1 read =>
    refine ⟨fun h => ?_, fun h => ?_⟩
    · cases h
      exact ⟨[], .nil, by simp⟩
    · obtain ⟨cs, hcs, ht⟩ := h
      cases hcs
      rw [List.append_nil] at ht
      rw [← ht, String.ofList_toList]
  | case2 read c rest ih =>
    rw [ih]
    refine ⟨fun h => ?_, fun h => ?_⟩
    · obtain ⟨cs, hcs, ht⟩ := h
      exact ⟨c :: cs, .char hcs, by simp [ht]⟩
    · obtain ⟨cs, hcs, ht⟩ := h
      cases hcs with | char hcs => exact ⟨_, hcs, by simp [ht]⟩
  | case3 read high low rest ih =>
    rw [ih]
    refine ⟨fun h => ?_, fun h => ?_⟩
    · obtain ⟨cs, hcs, ht⟩ := h
      exact ⟨pair high low :: cs, .pair hcs, by simp [ht]⟩
    · obtain ⟨cs, hcs, ht⟩ := h
      cases hcs with | pair hcs => exact ⟨_, hcs, by simp [ht]⟩
  | case4 read high rest hne =>
    refine ⟨nofun, fun h => ?_⟩
    obtain ⟨cs, hcs, -⟩ := h
    cases hcs with | pair => exact absurd rfl (hne _ _)
  | case5 read low rest =>
    refine ⟨nofun, fun h => ?_⟩
    obtain ⟨cs, hcs, -⟩ := h
    cases hcs

/-- A string has a text exactly if its pieces spell it. -/
theorem Piece.text?_eq_some_iff {ps : List Piece} {text : String} :
    Piece.text? ps = some text ↔ Spells ps text.toList := by
  rw [Piece.text?, Piece.textOnto_eq_some_iff]
  refine ⟨fun h => ?_, fun h => ⟨_, h, rfl⟩⟩
  obtain ⟨cs, hcs, ht⟩ := h
  rw [ht]
  exact hcs

/-- A text is read from a string that spells it. -/
theorem text?_eq_some_iff {j : Json} {text : String} : j.text? = some text ↔ j.IsText text := by
  unfold text?
  split
  · rw [Piece.text?_eq_some_iff]
    refine ⟨.mk, fun h => ?_⟩
    cases h with | mk h => exact h
  · rename_i hne
    refine ⟨nofun, fun h => ?_⟩
    cases h with | mk _ => exact absurd rfl (hne _)

/-- A character is read from a string of it alone. -/
theorem char?_eq_some_iff {j : Json} {c : Char} : j.char? = some c ↔ j.IsChar c := by
  have htext : j.char? = some c ↔ j.text? = some (String.ofList [c]) := by
    unfold char?
    split
    · rename_i d hd
      obtain ⟨text, ht, htl⟩ := Option.map_eq_some_iff.1 hd
      rw [ht, Option.some.injEq, Option.some.injEq, String.ext_iff, htl]
      simp
    · rename_i hne
      refine ⟨nofun, fun h => ?_⟩
      exact absurd (by rw [h]; simp) (hne c)
  rw [htext, text?_eq_some_iff]
  refine ⟨fun h => ?_, fun h => ?_⟩
  · cases h with | mk h => exact .mk (by simpa using h)
  · cases h with | mk h => exact .mk (by simpa using h)

/-- A number denotes an integer exactly if it is written in sign and magnitude, zero without a sign. -/
theorem Number.int?_eq_some_iff {n : Number} {i : Int} :
    n.int? = some i ↔ (∃ m : Nat, n = .integer false m ∧ i = m) ∨ ∃ m : Nat, n = .integer true m ∧ 0 < m ∧ i = -m := by
  unfold Number.int?
  split
  · simp [eq_comm]
  · simp
  · rename_i m hm
    have hpos : 0 < m := Nat.pos_of_ne_zero fun h => hm h
    simp [hpos, eq_comm]
  · simp

/-- A number denotes an integer of 64 bits exactly if it denotes the value of that integer. -/
theorem int64?_number_eq_some_iff {n : Number} {i : Int64} :
    (Json.number n).int64? = some i ↔ n.int? = some i.toInt := by
  simp only [int64?]
  split
  · rename_i k hk
    rw [hk, Option.some.injEq]
    refine ⟨fun h => ?_, fun h => ?_⟩
    · split at h
      · rename_i hr
        cases h
        rw [Int64.toInt_minValue, Int64.toInt_maxValue] at hr
        rw [Int64.toInt_ofInt_of_le hr.1 (by omega)]
      · cases h
    · subst h
      rw [if_pos ⟨i.minValue_le_toInt, i.toInt_le⟩, Int64.ofInt_toInt]
  · rename_i hk
    rw [hk]
    exact ⟨nofun, nofun⟩

/-- A number of 64 bits is read from an integer in its range. -/
theorem int64?_eq_some_iff {j : Json} {i : Int64} : j.int64? = some i ↔ j.IsInt64 i := by
  refine ⟨fun h => ?_, fun h => ?_⟩
  · cases j with
    | number n =>
      rw [int64?_number_eq_some_iff, Number.int?_eq_some_iff] at h
      rcases h with ⟨m, rfl, hi⟩ | ⟨m, rfl, hm, hi⟩
      · exact .nonneg hi
      · exact .negative hm hi
    | null | bool | string | array | object => cases h
  · cases h with
    | nonneg hi => exact int64?_number_eq_some_iff.2 (Number.int?_eq_some_iff.2 (Or.inl ⟨_, rfl, hi⟩))
    | negative hn hi => exact int64?_number_eq_some_iff.2 (Number.int?_eq_some_iff.2 (Or.inr ⟨_, rfl, hn, hi⟩))

/-! ## Variants -/

/-- A variant has a tag and a payload if it is an object of the one under the other, or the tag alone. -/
theorem variant?_eq_some_iff {j v : Json} {tag : String} :
    j.variant? = some (tag, v) ↔ j.Tagged tag v ∨ j.IsText tag ∧ v = .null := by
  unfold variant?
  split
  · rename_i ps
    rw [Option.map_eq_some_iff]
    refine ⟨fun h => ?_, fun h => ?_⟩
    · obtain ⟨text, ht, he⟩ := h
      cases he
      exact Or.inr ⟨.mk (Piece.text?_eq_some_iff.1 ht), rfl⟩
    · rcases h with h | ⟨h, rfl⟩
      · cases h
      · cases h with | mk h => exact ⟨tag, Piece.text?_eq_some_iff.2 h, rfl⟩
  · rename_i key payload
    rw [Option.map_eq_some_iff]
    refine ⟨fun h => ?_, fun h => ?_⟩
    · obtain ⟨text, ht, he⟩ := h
      cases he
      exact Or.inl (.mk (Piece.text?_eq_some_iff.1 ht))
    · rcases h with h | ⟨h, -⟩
      · cases h with | mk h => exact ⟨tag, Piece.text?_eq_some_iff.2 h, rfl⟩
      · cases h
  · rename_i hstring hobject
    refine ⟨nofun, fun h => ?_⟩
    rcases h with h | ⟨h, -⟩
    · cases h with | mk _ => exact absurd rfl (hobject _ _)
    · cases h with | mk _ => exact absurd rfl (hstring _)

/-- A variant has a tag and nothing else exactly if it is one without a payload. -/
theorem variant?_null_iff {j : Json} {tag : String} : j.variant? = some (tag, .null) ↔ j.Bare tag := by
  rw [variant?_eq_some_iff]
  refine ⟨fun h => ?_, fun h => ?_⟩
  · rcases h with h | ⟨h, -⟩
    · exact .null h
    · exact .alone h
  · cases h with
    | alone h => exact Or.inr ⟨h, rfl⟩
    | null h => exact Or.inl h

theorem variant?_of_tagged {j v : Json} {tag : String} (h : j.Tagged tag v) : j.variant? = some (tag, v) :=
  variant?_eq_some_iff.2 (Or.inl h)

/-- A payload other than `null` stands under its tag. -/
theorem tagged_of_variant? {j v : Json} {tag : String} (h : j.variant? = some (tag, v)) (hv : v ≠ .null) :
    j.Tagged tag v := by
  rcases variant?_eq_some_iff.1 h with h | ⟨-, hnull⟩
  · exact h
  · exact absurd hnull hv

/-! ## Lists -/

/-- A list is mapped as a whole exactly if each of its members is. -/
theorem mapM_eq_some_iff {α β : Type} {f : α → Option β} {as : List α} {bs : List β} :
    as.mapM f = some bs ↔ as.map f = bs.map some := by
  induction as generalizing bs with
  | nil => cases bs <;> simp
  | cons a as ih => cases bs <;> simp [List.mapM_cons, Option.bind_eq_some_iff, ih]

theorem elements?_eq_some_iff {j : Json} {es : List Json} : j.elements? = some es ↔ j = .array es := by
  cases j with
  | array es' => simp [elements?]
  | null | bool | number | string | object => exact ⟨nofun, nofun⟩

end Json

/-- An array stands for the list its elements are read as. -/
theorem listed_of_mapM {α : Type} {element : Json → Option α} {R : α → Json → Prop} {es : List Json} {as : List α}
    (hR : ∀ e ∈ es, ∀ a, element e = some a → R a e) (h : es.mapM element = some as) :
    Json.Listed R as (.array es) := by
  rw [Json.mapM_eq_some_iff] at h
  induction es generalizing as with
  | nil =>
    cases as with
    | nil => exact .nil
    | cons a as => cases h
  | cons e es ih =>
    rw [List.forall_mem_cons] at hR
    cases as with
    | nil => cases h
    | cons a as =>
      rw [List.map_cons, List.map_cons, List.cons.injEq] at h
      exact .cons (hR.1 a h.1) (ih hR.2 h.2)

/-- A list is read from the front. -/
theorem listOfJson?_cons {α : Type} {element : Json → Option α} {e : Json} {a : α} (h : element e = some a)
    {es : List Json} {as : List α} (hes : listOfJson? element (.array es) = some as) :
    listOfJson? element (.array (e :: es)) = some (a :: as) := by
  have hes : es.mapM element = some as := hes
  show (e :: es).mapM element = some (a :: as)
  rw [Json.mapM_eq_some_iff] at hes ⊢
  rw [List.map_cons, List.map_cons, h, hes]

/-- An array is read as a list exactly if it stands for it, provided its elements are read so. -/
theorem listOfJson?_eq_some_iff {α : Type} {element : Json → Option α} {R : α → Json → Prop}
    (h : ∀ j a, element j = some a ↔ R a j) {j : Json} {as : List α} :
    listOfJson? element j = some as ↔ Json.Listed R as j := by
  refine ⟨fun has => ?_, fun has => ?_⟩
  · obtain ⟨es, he, hes⟩ := Option.bind_eq_some_iff.1 has
    obtain rfl := Json.elements?_eq_some_iff.1 he
    exact listed_of_mapM (fun e _ a => (h e a).1) hes
  · induction has with
    | nil => rfl
    | cons ha _ ih => exact listOfJson?_cons ((h _ _).2 ha) ih

/-- A list that may be left out is read exactly if it stands there or is empty and left out. -/
theorem partOfJson?_eq_some_iff {α : Type} {element : Json → Option α} {R : α → Json → Prop}
    (h : ∀ j a, element j = some a ↔ R a j) {j : Option Json} {as : List α} :
    partOfJson? element j = some as ↔ Json.ListedOrAbsent R as j := by
  cases j with
  | none =>
    refine ⟨fun has => ?_, fun has => ?_⟩
    · cases has
      exact .absent
    · cases has
      rfl
  | some j =>
    rw [partOfJson?, listOfJson?_eq_some_iff h]
    refine ⟨.given, fun has => ?_⟩
    cases has with | given has => exact has

end CoreC
