import CoreC.Json.Printer
import CoreC.Json.Reader

/-!
# The machine that puts tokens together

The tokens a value is made from are the only ones the machine makes it of: `Machine.ofTokens?_eq_some_iff`.

For one half, a state is told by the tokens that led to it (`Machine.State.onto`): a step adds exactly the token it takes
(`Machine.onto_step`), so at the end all tokens taken are those of the value. For the other half, the tokens of a value lead
from where a value may come to where it is complete, whatever is open around it.
-/

namespace CoreC.Json

namespace Machine

open Reader

/-! ## What has been read -/

/-- The tokens of the elements of an open array, newest first, each with its comma, in front of others. -/
def elementsRead (rest : List Token) : List Json → List Token
  | [] => rest
  | e :: older => elementsRead (tokensOnto (.comma :: rest) e) older

/-- The tokens of the members of an open object, newest first, each with its comma, in front of others. -/
def membersRead (rest : List Token) : List (List Piece × Json) → List Token
  | [] => rest
  | (k, v) :: older => membersRead (.string k :: .colon :: tokensOnto (.comma :: rest) v) older

/-- The tokens that opened the containers around a place, innermost first, in front of others. -/
def framesOnto (rest : List Token) : List Frame → List Token
  | [] => rest
  | .array read :: outer => framesOnto (.bracketOpen :: elementsRead rest read) outer
  | .object read k :: outer => framesOnto (.braceOpen :: membersRead (.string k :: .colon :: rest) read) outer

/-- The tokens that led to a state, in front of others. -/
def State.onto (rest : List Token) : State → List Token
  | .value outer => framesOnto rest outer
  | .firstElement outer => framesOnto (.bracketOpen :: rest) outer
  | .firstKey outer => framesOnto (.braceOpen :: rest) outer
  | .key read outer => framesOnto (.braceOpen :: membersRead rest read) outer
  | .colon read k outer => framesOnto (.braceOpen :: membersRead (.string k :: rest) read) outer
  | .after v outer => framesOnto (tokensOnto rest v) outer

/-- The tokens of an array, told from the place of one of its elements. -/
theorem elementsRead_elementsOnto (rest : List Token) (read : List Json) (e : Json) (es : List Json) :
    Token.bracketOpen :: elementsRead (tokensOnto (elementsOnto rest es) e) read =
      tokensOnto rest (.array (read.reverse ++ e :: es)) := by
  induction read generalizing e es with
  | nil =>
    rw [List.reverse_nil, List.nil_append, tokensOnto]
    rfl
  | cons u older ih =>
    have h := ih u (e :: es)
    rw [elementsOnto] at h
    rw [elementsRead, h, List.reverse_cons, List.append_assoc, List.singleton_append]

/-- The tokens of an object, told from the place of one of its members. -/
theorem membersRead_membersOnto (rest : List Token) (read : List (List Piece × Json)) (k : List Piece) (v : Json)
    (ms : List (List Piece × Json)) :
    Token.braceOpen :: membersRead (.string k :: .colon :: tokensOnto (membersOnto rest ms) v) read =
      tokensOnto rest (.object (read.reverse ++ (k, v) :: ms)) := by
  induction read generalizing k v ms with
  | nil =>
    rw [List.reverse_nil, List.nil_append, tokensOnto]
    rfl
  | cons u older ih =>
    have h := ih u.1 u.2 ((k, v) :: ms)
    rw [membersOnto] at h
    rw [membersRead, h, List.reverse_cons, List.append_assoc, List.singleton_append]

/-- The first token of a value is what is added. -/
theorem onto_begin {outer : List Frame} {t : Token} {s : State} (h : begin outer t = some s) (rest : List Token) :
    State.onto rest s = framesOnto (t :: rest) outer := by
  unfold begin at h
  split at h
  case h_7 => cases h
  all_goals
    cases h
    simp [State.onto, tokensOnto]

/-- A step adds the token it takes and nothing else. -/
theorem onto_step {s s' : State} {t : Token} (h : step s t = some s') (rest : List Token) :
    State.onto rest s' = State.onto (t :: rest) s := by
  unfold step at h
  split at h
  · exact onto_begin h rest
  · cases h
    simp [State.onto, tokensOnto]
  · exact onto_begin h rest
  · cases h
    simp [State.onto, tokensOnto]
  · cases h
    rfl
  · cases h
  · cases h
    rfl
  · cases h
  · cases h
    rfl
  · cases h
  · cases h
    rfl
  · cases h
    rename_i v read outer
    have h := elementsRead_elementsOnto rest read v []
    rw [elementsOnto] at h
    simp only [State.onto, framesOnto]
    rw [h, List.reverse_cons]
  · cases h
    rfl
  · cases h
    rename_i v read k outer
    have h := membersRead_membersOnto rest read k v []
    rw [membersOnto] at h
    simp only [State.onto, framesOnto]
    rw [h, List.reverse_cons]
  · cases h

/-- A run takes the tokens of the value it completes, less those that led to where it starts. -/
theorem onto_run {s : State} {tokens : List Token} {v : Json} (h : run s tokens = some v) :
    State.onto tokens s = v.tokens := by
  induction tokens generalizing s with
  | nil =>
    unfold run at h
    split at h
    · cases h
      rfl
    · cases h
    · rename_i heq
      cases heq
  | cons t rest ih =>
    rw [run] at h
    split at h
    · rename_i s' hs
      rw [← onto_step hs, ih h]
    · cases h

/-! ## The tokens of a value complete it -/

/-- No value begins with the end of an array. -/
theorem exists_head_tokensOnto (rest : List Token) (v : Json) :
    ∃ t ts, tokensOnto rest v = t :: ts ∧ t ≠ .bracketClose := by
  cases v with
  | array es =>
    cases es <;> rw [tokensOnto]
    · exact ⟨_, _, rfl, nofun⟩
    · exact ⟨_, _, rfl, nofun⟩
  | object ms =>
    cases ms <;> rw [tokensOnto]
    · exact ⟨_, _, rfl, nofun⟩
    · exact ⟨_, _, rfl, nofun⟩
  | null | bool _ | number _ | string _ =>
    rw [tokensOnto]
    exact ⟨_, _, rfl, nofun⟩

theorem run_cons {s s' : State} {t : Token} (h : step s t = some s') (rest : List Token) :
    run s (t :: rest) = run s' rest := by
  rw [run, h]

/-- The first element of an array is read as any other. -/
theorem run_firstElement (outer : List Frame) (rest : List Token) (v : Json) :
    run (.firstElement outer) (tokensOnto rest v) = run (.value (.array [] :: outer)) (tokensOnto rest v) := by
  obtain ⟨t, ts, ht, hne⟩ := exists_head_tokensOnto rest v
  have hstep : step (.firstElement outer) t = step (.value (.array [] :: outer)) t := by
    cases t with
    | bracketClose => exact absurd rfl hne
    | _ => rfl
  rw [ht, run, run, hstep]

mutual

/-- The tokens of a value lead from where it may come to where it is complete. -/
theorem run_tokensOnto : ∀ (v : Json) (outer : List Frame) (rest : List Token),
    run (.value outer) (tokensOnto rest v) = run (.after v outer) rest
  | .null, outer, rest => by rw [tokensOnto, run_cons rfl]
  | .bool b, outer, rest => by rw [tokensOnto, run_cons rfl]
  | .number n, outer, rest => by rw [tokensOnto, run_cons rfl]
  | .string ps, outer, rest => by rw [tokensOnto, run_cons rfl]
  | .array [], outer, rest => by
    rw [tokensOnto]
    show run (.firstElement outer) (.bracketClose :: rest) = _
    rw [run_cons rfl]
  | .array (e :: es), outer, rest => by
    rw [tokensOnto]
    show run (.firstElement outer) _ = _
    rw [run_firstElement, run_tokensOnto e, run_elementsOnto es]
    rfl
  | .object [], outer, rest => by
    rw [tokensOnto]
    show run (.firstKey outer) (.braceClose :: rest) = _
    rw [run_cons rfl]
  | .object ((k, v) :: ms), outer, rest => by
    rw [tokensOnto]
    show run (.value (.object [] k :: outer)) _ = _
    rw [run_tokensOnto v, run_membersOnto ms]
    rfl

/-- The tokens behind an element complete the array. -/
theorem run_elementsOnto : ∀ (es : List Json) (e : Json) (read : List Json) (outer : List Frame) (rest : List Token),
    run (.after e (.array read :: outer)) (elementsOnto rest es) =
      run (.after (.array (read.reverse ++ e :: es)) outer) rest
  | [], e, read, outer, rest => by
    rw [elementsOnto, run_cons rfl, List.reverse_cons]
  | e' :: es, e, read, outer, rest => by
    rw [elementsOnto]
    show run (.value (.array (e :: read) :: outer)) _ = _
    rw [run_tokensOnto e', run_elementsOnto es, List.reverse_cons, List.append_assoc, List.singleton_append]

/-- The tokens behind a member complete the object. -/
theorem run_membersOnto : ∀ (ms : List (List Piece × Json)) (k : List Piece) (v : Json)
    (read : List (List Piece × Json)) (outer : List Frame) (rest : List Token),
    run (.after v (.object read k :: outer)) (membersOnto rest ms) =
      run (.after (.object (read.reverse ++ (k, v) :: ms)) outer) rest
  | [], k, v, read, outer, rest => by
    rw [membersOnto, run_cons rfl, List.reverse_cons]
  | (k', v') :: ms, k, v, read, outer, rest => by
    rw [membersOnto]
    show run (.value (.object ((k, v) :: read) k' :: outer)) _ = _
    rw [run_tokensOnto v', run_membersOnto ms, List.reverse_cons, List.append_assoc, List.singleton_append]

end

/-- The machine makes a value of its tokens and of no others. -/
theorem ofTokens?_eq_some_iff (tokens : List Token) (v : Json) : ofTokens? tokens = some v ↔ tokens = v.tokens := by
  refine ⟨fun h => ?_, fun h => ?_⟩
  · exact onto_run h
  · rw [h, ofTokens?, Json.tokens, run_tokensOnto]
    rfl

end Machine

end CoreC.Json
