import CoreC.Json.Basic

/-!
# The shapes of the interchange form

The interchange form writes programs as JSON by two rules.

* A choice between alternatives is a *variant*: an object whose only key is the tag of the alternative and whose value is
  its payload. A tag with the payload `null` may be written as the tag alone (`Json.variant?`).
* A group of named parts is a *record*: an object with the parts in any order and no part twice, in which other keys are
  skipped, or an array of the parts in their order (`Json.record?`). Where parts may be left out, an object lacks their
  keys and an array is short (`Json.fields?`).

The values inside a variant, a record or an array are smaller than the whole, so that a reader may descend into them.
-/

namespace CoreC.Json

/-- The text of a string. -/
def text? : Json → Option String
  | .string ps => Piece.text? ps
  | _ => none

/-- The character of a string that holds one and nothing else. -/
def char? (j : Json) : Option Char :=
  match j.text?.map String.toList with
  | some [c] => some c
  | _ => none

/-- The integer of 64 bits that a number denotes. -/
def int64? : Json → Option Int64
  | .number n =>
    match n.int? with
    | some i => if Int64.minValue.toInt ≤ i ∧ i ≤ Int64.maxValue.toInt then some (Int64.ofInt i) else none
    | none => none
  | _ => none

/-- The elements of an array. -/
def elements? : Json → Option (List Json)
  | .array es => some es
  | _ => none

/-- The tag and the payload of a variant; a tag alone has the payload `null`. -/
def variant? : Json → Option (String × Json)
  | .string tag => (Piece.text? tag).map (·, .null)
  | .object [(tag, payload)] => (Piece.text? tag).map (·, payload)
  | _ => none

/-- The members of an object by the texts of their keys, if all of them have one. -/
def keyed? (members : List (List Piece × Json)) : Option (List (String × Json)) :=
  members.mapM fun (key, value) => (Piece.text? key).map (·, value)

/-- The value of a key: none if it does not occur, and no answer if it occurs twice. -/
def unique? (members : List (String × Json)) (name : String) : Option (Option Json) :=
  match members.filter (·.1 = name) with
  | [] => some none
  | [(_, value)] => some (some value)
  | _ => none

/-- The parts of a record under their names, as far as they are there. -/
def fields? (names : List String) : Json → Option (List (Option Json))
  | .array es =>
    if es.length ≤ names.length then
      some (es.map some ++ List.replicate (names.length - es.length) none)
    else
      none
  | .object members => do
    let members ← keyed? members
    names.mapM (unique? members)
  | _ => none

/-- The parts of a record of which none may be left out. -/
def record? (names : List String) (j : Json) : Option (List Json) := do
  (← j.fields? names).mapM id

/-! ## What is inside is smaller -/

/-- An element is smaller than its array. -/
theorem sizeOf_lt_of_mem_array {es : List Json} {e : Json} (h : e ∈ es) : sizeOf e < sizeOf (Json.array es) := by
  have := List.sizeOf_lt_of_mem h
  simp only [Json.array.sizeOf_spec]
  omega

/-- A member is smaller than its object. -/
theorem sizeOf_lt_of_mem_object {ms : List (List Piece × Json)} {k : List Piece} {v : Json} (h : (k, v) ∈ ms) :
    sizeOf v < sizeOf (Json.object ms) := by
  have := List.sizeOf_lt_of_mem h
  simp only [Prod.mk.sizeOf_spec, Json.object.sizeOf_spec] at *
  omega

theorem sizeOf_lt_of_elements? {j e : Json} {es : List Json} (h : j.elements? = some es) (he : e ∈ es) :
    sizeOf e < sizeOf j := by
  unfold elements? at h
  split at h
  · exact sizeOf_lt_of_mem_array (Option.some.inj h ▸ he)
  · simp at h

/-- A payload is smaller than its variant. -/
theorem sizeOf_lt_of_variant? {j v : Json} {tag : String} (h : j.variant? = some (tag, v)) : sizeOf v < sizeOf j := by
  unfold variant? at h
  split at h
  · rename_i ps
    obtain ⟨s, -, he⟩ := Option.map_eq_some_iff.1 h
    have : v = .null := (congrArg Prod.snd he).symm
    subst this
    have : 0 < sizeOf ps := by cases ps <;> simp +arith
    simp only [Json.null.sizeOf_spec, Json.string.sizeOf_spec]
    omega
  · obtain ⟨s, -, he⟩ := Option.map_eq_some_iff.1 h
    have : v = _ := (congrArg Prod.snd he).symm
    subst this
    exact sizeOf_lt_of_mem_object List.mem_cons_self
  · simp at h

theorem mem_of_mapM_some {α β : Type} {f : α → Option β} {l : List α} {r : List β} (h : l.mapM f = some r) {b : β}
    (hb : b ∈ r) : ∃ a ∈ l, f a = some b := by
  induction l generalizing r with
  | nil =>
    simp only [List.mapM_nil, Option.pure_def, Option.some.injEq] at h
    simp [← h] at hb
  | cons a l ih =>
    simp only [List.mapM_cons, Option.pure_def, Option.bind_eq_bind, Option.bind_eq_some_iff, Option.some.injEq] at h
    obtain ⟨b', hb', r', hr', rfl⟩ := h
    rcases List.mem_cons.1 hb with rfl | hb
    · exact ⟨a, List.mem_cons_self, hb'⟩
    · obtain ⟨a', ha', h'⟩ := ih hr' hb
      exact ⟨a', List.mem_cons_of_mem _ ha', h'⟩

/-- The one member of a name is a member. -/
theorem mem_of_unique? {ms : List (String × Json)} {name : String} {v : Json} (h : unique? ms name = some (some v)) :
    (name, v) ∈ ms := by
  unfold unique? at h
  split at h
  · simp at h
  · rename_i k w hf
    simp only [Option.some.injEq] at h
    subst h
    have hm : (k, w) ∈ ms.filter (·.1 = name) := hf ▸ List.mem_cons_self
    simp only [List.mem_filter, decide_eq_true_eq] at hm
    exact hm.2 ▸ hm.1
  · simp at h

/-- A field is smaller than its record. -/
theorem sizeOf_lt_of_fields? {names : List String} {j v : Json} {vs : List (Option Json)}
    (h : j.fields? names = some vs) (hv : some v ∈ vs) : sizeOf v < sizeOf j := by
  unfold fields? at h
  split at h
  · split at h
    · simp only [Option.some.injEq] at h
      subst h
      simp only [List.mem_append, List.mem_map, Option.some.injEq, exists_eq_right, List.mem_replicate, reduceCtorEq,
        and_false, or_false] at hv
      exact sizeOf_lt_of_mem_array hv
    · simp at h
  · rename_i members
    simp only [Option.bind_eq_bind, Option.bind_eq_some_iff] at h
    obtain ⟨ms, hms, h⟩ := h
    obtain ⟨name, -, hu⟩ := mem_of_mapM_some h hv
    obtain ⟨⟨k, w⟩, hm, he⟩ := mem_of_mapM_some hms (mem_of_unique? hu)
    obtain ⟨s, -, hs⟩ := Option.map_eq_some_iff.1 he
    have : v = w := (congrArg Prod.snd hs).symm
    exact this ▸ sizeOf_lt_of_mem_object hm
  · simp at h

theorem sizeOf_lt_of_record? {names : List String} {j v : Json} {vs : List Json} (h : j.record? names = some vs)
    (hv : v ∈ vs) : sizeOf v < sizeOf j := by
  simp only [record?, Option.bind_eq_bind, Option.bind_eq_some_iff] at h
  obtain ⟨fs, hf, h⟩ := h
  obtain ⟨a, ha, he⟩ := mem_of_mapM_some h hv
  exact sizeOf_lt_of_fields? hf (he ▸ ha)

end CoreC.Json
