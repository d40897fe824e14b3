import Std.Data.String.ToInt
import CoreC.Dump
import CoreC.Proofs.Syntax.Nodes

/-!
# Expressions that are written out

An expression that is written out is told from its text, and it is seen where the text ends, whatever comes behind it
(`Expr.dump_append_inj`). So two lines of a log that show expressions are alike only if they show the same expression.

The induction is over the expression. All forms begin with a word of letters, by which they are told apart, and what stands
around their parts is the same for all expressions of a form. At the leaves there are numbers, which end in front of the bracket
behind them, and quoted names and characters, which end at the mark, since it is escaped in front of it.
-/

namespace CoreC

namespace DumpsAux

variable {α β γ : Type}

/-- The text of a value is told from that of any other value, whatever comes behind them. -/
def Delimited (f : α → String) (a : α) : Prop :=
  ∀ b s t, f a ++ s = f b ++ t → a = b ∧ s = t

/-- Characters of a kind end in front of the first one that is not of the kind. -/
theorem append_cons_inj {p : Char → Bool} {u v : List Char} (hu : ∀ c ∈ u, p c = true) (hv : ∀ c ∈ v, p c = true) {c d : Char}
    (hc : p c = false) (hd : p d = false) {s t : List Char} (h : u ++ c :: s = v ++ d :: t) : u = v ∧ c :: s = d :: t := by
  have hu' : (u ++ c :: s).takeWhile p = u := by
    rw [List.takeWhile_append_of_pos hu, List.takeWhile_cons_of_neg (by simp [hc]), List.append_nil]
  have hv' : (v ++ d :: t).takeWhile p = v := by
    rw [List.takeWhile_append_of_pos hv, List.takeWhile_cons_of_neg (by simp [hd]), List.append_nil]
  have huv : u = v := by rw [← hu', h, hv']
  rw [huv] at h
  exact ⟨huv, List.append_cancel_left h⟩

/-! ## Numbers -/

/-- The digits of a number to the base 16 are the last one behind those of the number without it. -/
theorem toDigits_sixteen (n : Nat) :
    Nat.toDigits 16 n = if n < 16 then [n.digitChar] else Nat.toDigits 16 (n / 16) ++ [(n % 16).digitChar] :=
  Nat.toDigits_eq_if (by decide)

/-- The digits to the base 16 are told apart. -/
theorem digitChar_inj {n m : Nat} (hn : n < 16) (hm : m < 16) (h : n.digitChar = m.digitChar) : n = m := by
  have hall : ∀ i j : Fin 16, i.val.digitChar = j.val.digitChar → i = j := by decide
  exact congrArg Fin.val (hall ⟨n, hn⟩ ⟨m, hm⟩ h)

/-- Numbers are told apart by their digits. -/
theorem toDigits_inj {n m : Nat} (h : Nat.toDigits 16 n = Nat.toDigits 16 m) : n = m := by
  induction n using Nat.strongRecOn generalizing m with
  | ind n ih =>
    rw [toDigits_sixteen n, toDigits_sixteen m] at h
    split at h <;> split at h
    · exact digitChar_inj ‹_› ‹_› (List.singleton_inj.1 h)
    · exact absurd (congrArg List.length h) (by simp [Nat.toDigits_ne_nil])
    · exact absurd (congrArg List.length h) (by simp [Nat.toDigits_ne_nil])
    · obtain ⟨hdiv, hmod⟩ := List.append_inj' h rfl
      have hdiv' := ih (n / 16) (by omega) hdiv
      have hmod' := digitChar_inj (Nat.mod_lt n (by decide)) (Nat.mod_lt m (by decide)) (List.singleton_inj.1 hmod)
      omega

/-- There is no brace among the digits of a number. -/
theorem ne_of_mem_toDigits (n : Nat) : ∀ c ∈ Nat.toDigits 16 n, (c != '\x7d') = true := by
  induction n using Nat.strongRecOn with
  | ind n ih =>
    have hdigit : ∀ i : Fin 16, (i.val.digitChar != '\x7d') = true := by decide
    rw [toDigits_sixteen]
    split
    · exact List.forall_mem_singleton.2 (hdigit ⟨n, ‹_›⟩)
    · rw [List.forall_mem_append]
      exact ⟨ih (n / 16) (by omega), List.forall_mem_singleton.2 (hdigit ⟨n % 16, Nat.mod_lt n (by decide)⟩)⟩

/-- There is no bracket in a number. -/
theorem ne_of_mem_toString (n : Int) : ∀ c ∈ (toString n).toList, (c != ')') = true := by
  have hnat : ∀ m : Nat, ∀ c ∈ m.repr.toList, (c != ')') = true := by
    intro m c hc
    rw [Nat.toList_repr] at hc
    have hdigit := Nat.isDigit_of_mem_toDigits (by decide) (by decide) hc
    rw [bne_iff_ne]
    rintro rfl
    exact absurd hdigit (by decide)
  cases n with
  | ofNat m => exact hnat m
  | negSucc m =>
    rw [Int.toString_eq_repr, Int.repr, String.toList_append, List.forall_mem_append]
    exact ⟨List.forall_mem_singleton.2 rfl, hnat _⟩

/-- A number ends at the bracket behind it. -/
theorem toString_append_inj {n m : Int} {s t : String} (h : toString n ++ (")" ++ s) = toString m ++ (")" ++ t)) :
    n = m ∧ s = t := by
  have hlist := congrArg String.toList h
  simp only [String.toList_append] at hlist
  obtain ⟨hnum, hrest⟩ := append_cons_inj (ne_of_mem_toString n) (ne_of_mem_toString m) rfl rfl hlist
  exact ⟨Int.repr_injective (String.toList_injective hnum), String.toList_injective (List.cons.inj hrest).2⟩

/-! ## Quoted texts -/

/-- The characters that are escaped by another one. -/
def escapes (mark : Char) : List (Char × Char) :=
  [('\x00', '0'), ('\t', 't'), ('\r', 'r'), ('\n', 'n'), (mark, mark), ('\\', '\\')]

/-- The ways in which a character is quoted. -/
inductive Quoted (mark c : Char) : List Char → Prop where
  | plain : c ≠ '\\' → c ≠ mark → Quoted mark c [c]
  | escaped {x : Char} : (c, x) ∈ escapes mark → Quoted mark c ['\\', x]
  | number : Quoted mark c ('\\' :: 'u' :: '\x7b' :: (Nat.toDigits 16 c.toNat ++ ['\x7d']))

/-- Every character is quoted in one of these ways. -/
theorem quoted_quoted (hidden : Char → Bool) (mark c : Char) : Quoted mark c (Dump.quoted hidden mark c).toList := by
  unfold Dump.quoted
  split
  · exact .escaped (x := '0') (by simp [escapes, *])
  split
  · exact .escaped (x := 't') (by simp [escapes, *])
  split
  · exact .escaped (x := 'r') (by simp [escapes, *])
  split
  · exact .escaped (x := 'n') (by simp [escapes, *])
  split
  · rw [String.toList_append, Char.toString_eq_singleton, String.toList_singleton]
    refine .escaped ?_
    rename_i hc
    rcases hc with rfl | rfl <;> simp [escapes]
  rename_i hc
  obtain ⟨hmark, hslash⟩ := not_or.1 hc
  split
  · simp only [String.toList_append, String.toList_ofList]
    exact .number
  · rw [Char.toString_eq_singleton, String.toList_singleton]
    exact .plain hslash hmark

/-- A mark that is no letter of an escape. -/
def IsMark (mark : Char) : Prop :=
  mark = '"' ∨ mark = '\''

/-- The escapes are told apart by their second characters, and none of them is that of a number. -/
theorem escapes_inj {mark c d x : Char} (hmark : IsMark mark) (hc : (c, x) ∈ escapes mark) (hd : (d, x) ∈ escapes mark) :
    c = d ∧ x ≠ 'u' := by
  have hall : ∀ p ∈ escapes mark, ∀ q ∈ escapes mark, p.2 = q.2 → p.1 = q.1 ∧ p.2 ≠ 'u' := by
    rcases hmark with rfl | rfl <;> decide
  exact hall (c, x) hc (d, x) hd rfl

/-- A quoted character ends, and it is told from all others. -/
theorem Quoted.append_inj {mark c d : Char} {u v s t : List Char} (hmark : IsMark mark) (hu : Quoted mark c u)
    (hv : Quoted mark d v) (h : u ++ s = v ++ t) : c = d ∧ s = t := by
  cases hu with
  | plain hc _ =>
    cases hv with
    | plain _ _ => exact List.cons.inj h
    | escaped _ => exact absurd (List.cons.inj h).1 hc
    | number => exact absurd (List.cons.inj h).1 hc
  | escaped hc =>
    cases hv with
    | plain hd _ => exact absurd (List.cons.inj h).1.symm hd
    | escaped hd =>
      obtain ⟨hx, hrest⟩ := List.cons.inj (List.cons.inj h).2
      rw [hx] at hc
      exact ⟨(escapes_inj hmark hc hd).1, hrest⟩
    | number => exact absurd (List.cons.inj (List.cons.inj h).2).1 (escapes_inj hmark hc hc).2
  | number =>
    cases hv with
    | plain hd _ => exact absurd (List.cons.inj h).1.symm hd
    | escaped hd => exact absurd (List.cons.inj (List.cons.inj h).2).1.symm (escapes_inj hmark hd hd).2
    | number =>
      simp only [List.cons_append, List.cons.injEq, true_and, List.append_assoc, List.nil_append] at h
      obtain ⟨hdigits, hrest⟩ := append_cons_inj (ne_of_mem_toDigits _) (ne_of_mem_toDigits _) rfl rfl h
      exact ⟨Char.toNat_inj.1 (toDigits_inj hdigits), (List.cons.inj hrest).2⟩

/-- A quoted character does not begin with the mark. -/
theorem Quoted.append_ne {mark c : Char} {u s t : List Char} (hmark : IsMark mark) (hu : Quoted mark c u) :
    u ++ s ≠ mark :: t := by
  have hslash : '\\' ≠ mark := by
    rcases hmark with rfl | rfl <;> decide
  intro h
  cases hu with
  | plain _ hc => exact hc (List.cons.inj h).1
  | escaped _ => exact hslash (List.cons.inj h).1
  | number => exact hslash (List.cons.inj h).1

/-- Quoted characters end at the mark. -/
theorem flatMap_quoted_inj {hidden : Char → Bool} {mark : Char} (hmark : IsMark mark) {cs ds s t : List Char}
    (h : cs.flatMap (fun c => (Dump.quoted hidden mark c).toList) ++ mark :: s =
      ds.flatMap (fun c => (Dump.quoted hidden mark c).toList) ++ mark :: t) : cs = ds ∧ s = t := by
  induction cs generalizing ds with
  | nil =>
    cases ds with
    | nil => exact ⟨rfl, (List.cons.inj h).2⟩
    | cons d ds =>
      rw [List.flatMap_cons, List.append_assoc] at h
      exact absurd h.symm ((quoted_quoted hidden mark d).append_ne hmark)
  | cons c cs ih =>
    cases ds with
    | nil =>
      rw [List.flatMap_cons, List.append_assoc] at h
      exact absurd h ((quoted_quoted hidden mark c).append_ne hmark)
    | cons d ds =>
      rw [List.flatMap_cons, List.flatMap_cons, List.append_assoc, List.append_assoc] at h
      obtain ⟨rfl, hrest⟩ := (quoted_quoted hidden mark c).append_inj hmark (quoted_quoted hidden mark d) h
      obtain ⟨rfl, rfl⟩ := ih hrest
      exact ⟨rfl, rfl⟩

variable (hidden : Char → Bool)

/-- A quoted text ends at its second mark. -/
theorem delimited_text (s : String) : Delimited (Dump.text hidden) s := by
  intro s' rest rest' h
  have hlist := congrArg String.toList h
  simp only [Dump.text, String.toList_append, String.toList_join, List.flatMap_map, List.append_assoc] at hlist
  obtain ⟨hs, hrest⟩ := flatMap_quoted_inj (Or.inl rfl) (List.cons.inj hlist).2
  exact ⟨String.toList_injective hs, String.toList_injective hrest⟩

/-- A quoted character ends at its second mark. -/
theorem delimited_character (c : Char) : Delimited (fun c => "'" ++ Dump.quoted hidden '\'' c ++ "'") c := by
  intro d rest rest' h
  have hlist := congrArg String.toList h
  simp only [String.toList_append, List.append_assoc] at hlist
  obtain ⟨rfl, hrest⟩ :=
    (quoted_quoted hidden '\'' c).append_inj (Or.inr rfl) (quoted_quoted hidden '\'' d) (List.cons.inj hlist).2
  exact ⟨rfl, String.toList_injective (List.cons.inj hrest).2⟩

/-! ## Forms -/

variable {hidden} {f : α → String} {g : β → String} {k : γ → String} {a a' : α} {b b' : β} {c c' : γ} {s t : String}

/-- A form ends, and so does its part. -/
theorem form_append_inj {tag : String} (ha : Delimited f a) (h : Dump.form tag (f a) ++ s = Dump.form tag (f a') ++ t) :
    a = a' ∧ s = t := by
  simp only [Dump.form, String.append_assoc, String.append_right_inj] at h
  obtain ⟨rfl, hrest⟩ := ha _ _ _ h
  exact ⟨rfl, (String.append_right_inj _).1 hrest⟩

/-- A form with two parts. -/
theorem record_append_inj {tag l m : String} (ha : Delimited f a) (hb : Delimited g b)
    (h : Dump.record tag [(l, f a), (m, g b)] ++ s = Dump.record tag [(l, f a'), (m, g b')] ++ t) :
    a = a' ∧ b = b' ∧ s = t := by
  simp only [Dump.record, List.map_cons, List.map_nil, String.intercalate_cons_cons, String.intercalate_singleton,
    String.append_assoc, String.append_right_inj] at h
  obtain ⟨rfl, hrest⟩ := ha _ _ _ h
  simp only [String.append_right_inj] at hrest
  obtain ⟨rfl, hend⟩ := hb _ _ _ hrest
  exact ⟨rfl, rfl, (String.append_right_inj _).1 hend⟩

/-- A form with three parts. -/
theorem record_append_inj₃ {tag l m n : String} (ha : Delimited f a) (hb : Delimited g b) (hc : Delimited k c)
    (h : Dump.record tag [(l, f a), (m, g b), (n, k c)] ++ s = Dump.record tag [(l, f a'), (m, g b'), (n, k c')] ++ t) :
    a = a' ∧ b = b' ∧ c = c' ∧ s = t := by
  simp only [Dump.record, List.map_cons, List.map_nil, String.intercalate_cons_cons, String.intercalate_singleton,
    String.append_assoc, String.append_right_inj] at h
  obtain ⟨rfl, hrest⟩ := ha _ _ _ h
  simp only [String.append_right_inj] at hrest
  obtain ⟨rfl, hrest'⟩ := hb _ _ _ hrest
  simp only [String.append_right_inj] at hrest'
  obtain ⟨rfl, hend⟩ := hc _ _ _ hrest'
  exact ⟨rfl, rfl, rfl, (String.append_right_inj _).1 hend⟩

/-- A text begins with a word, which ends. -/
def BeginsWith (word text : String) : Prop :=
  ∃ c rest, c.isAlpha = false ∧ text.toList = word.toList ++ c :: rest

/-- A form begins with its tag. -/
theorem beginsWith_form (tag part : String) (s : String) : BeginsWith tag (Dump.form tag part ++ s) := by
  refine ⟨'(', (part ++ ")" ++ s).toList, rfl, ?_⟩
  simp [Dump.form]

theorem beginsWith_record (tag : String) (parts : List (String × String)) (s : String) :
    BeginsWith tag (Dump.record tag parts ++ s) := by
  simp only [BeginsWith, Dump.record, String.toList_append, List.append_assoc]
  exact ⟨' ', _, rfl, rfl⟩

/-- There is only one word of letters with which a text begins. -/
theorem BeginsWith.eq {u v : String} (hu : u.toList.all Char.isAlpha = true) (hv : v.toList.all Char.isAlpha = true)
    {x : String} (h : BeginsWith u x) (h' : BeginsWith v x) : u = v := by
  obtain ⟨c, rest, hc, hx⟩ := h
  obtain ⟨d, rest', hd, hx'⟩ := h'
  rw [List.all_eq_true] at hu hv
  exact String.toList_injective (append_cons_inj hu hv hc hd (hx.symm.trans hx')).1

/-! ## The parts of a program -/

variable (hidden)

/-- A name is told from its text. -/
theorem delimited_name {kind : NameKind} (name : Name kind) : Delimited (Name.dump hidden) name := by
  intro name' s t h
  obtain ⟨htext, hrest⟩ := form_append_inj (delimited_text hidden name.text) h
  exact ⟨congrArg Name.mk htext, hrest⟩

/-- The first letter of a type. -/
def initial : Ty → Char
  | .void => 'V'
  | .int => 'I'
  | .char => 'C'
  | .bool => 'B'
  | .pointer _ => 'P'
  | .struct _ => 'S'

/-- A type begins with its first letter. -/
theorem head?_type_append (T : Ty) (s : String) : (T.dump hidden ++ s).toList.head? = some (initial T) := by
  cases T with
  | void | int | char | bool =>
    rw [Ty.dump, String.toList_append]
    rfl
  | pointer | struct =>
    simp only [Ty.dump, Dump.form, String.toList_append, List.append_assoc]
    rfl

/-- Types that are written alike begin with the same letter. -/
theorem initial_eq {T T' : Ty} {s t : String} (h : T.dump hidden ++ s = T'.dump hidden ++ t) : initial T = initial T' := by
  have hhead := head?_type_append hidden T s
  rw [h, head?_type_append] at hhead
  exact (Option.some.inj hhead).symm

/-- A type is told from its text: the first letters of all forms are different. -/
theorem delimited_type (T : Ty) : Delimited (Ty.dump hidden) T := by
  induction T with
  | void | int | char | bool =>
    intro T' s t h
    have hinitial := initial_eq hidden h
    cases T' with
    | void | int | char | bool | pointer | struct =>
      first
      | exact ⟨rfl, (String.append_right_inj _).1 h⟩
      | simp [initial] at hinitial
  | pointer target ih =>
    intro T' s t h
    have hinitial := initial_eq hidden h
    cases T' with
    | pointer target' =>
      obtain ⟨rfl, hrest⟩ := form_append_inj ih h
      exact ⟨rfl, hrest⟩
    | _ => simp [initial] at hinitial
  | struct name =>
    intro T' s t h
    have hinitial := initial_eq hidden h
    cases T' with
    | struct name' =>
      obtain ⟨rfl, hrest⟩ := form_append_inj (delimited_name hidden name) h
      exact ⟨rfl, hrest⟩
    | _ => simp [initial] at hinitial

/-- An operator is told from its text, again by the first letter. -/
theorem delimited_op (op : BinaryOp) : Delimited BinaryOp.dump op := by
  intro op' s t h
  have hhead : ∀ (op : BinaryOp) (s : String), (op.dump ++ s).toList.head? = op.dump.toList.head? := by
    intro op s
    rw [String.toList_append]
    cases op <;> rfl
  have hop : op.dump.toList.head? = op'.dump.toList.head? := by
    rw [← hhead op s, h, hhead]
  have hinj : op = op' := by
    cases op <;> cases op' <;> revert hop <;> decide
  subst hinj
  exact ⟨rfl, (String.append_right_inj _).1 h⟩

/-- The word a place begins with. -/
def placeWord : Place → String
  | .var _ => "Variable"
  | .field _ _ => "FieldAccess"
  | .deref _ => "Dereference"

/-- Places that are written alike begin with the same word. -/
theorem placeWord_eq {place place' : Place} {s t : String} (h : place.dump hidden ++ s = place'.dump hidden ++ t) :
    placeWord place = placeWord place' := by
  have hletters : ∀ place : Place, (placeWord place).toList.all Char.isAlpha = true := by
    intro place
    cases place <;> (rw [placeWord]; decide)
  have hbegins : ∀ (place : Place) (s : String), BeginsWith (placeWord place) (place.dump hidden ++ s) := by
    intro place s
    cases place with
    | var | deref => exact beginsWith_form _ _ _
    | field => exact beginsWith_record _ _ _
  exact (hbegins place s).eq (hletters place) (hletters place') (h ▸ hbegins place' t)

/-- A place is told from its text. -/
theorem delimited_place (place : Place) : Delimited (Place.dump hidden) place := by
  induction place with
  | var name =>
    intro place' s t h
    have hword := placeWord_eq hidden h
    cases place' with
    | var name' =>
      obtain ⟨rfl, hrest⟩ := form_append_inj (delimited_name hidden name) h
      exact ⟨rfl, hrest⟩
    | _ => simp [placeWord] at hword
  | field base name ih =>
    intro place' s t h
    have hword := placeWord_eq hidden h
    cases place' with
    | field base' name' =>
      obtain ⟨rfl, rfl, hrest⟩ := record_append_inj ih (delimited_name hidden name) h
      exact ⟨rfl, hrest⟩
    | _ => simp [placeWord] at hword
  | deref pointer ih =>
    intro place' s t h
    have hword := placeWord_eq hidden h
    cases place' with
    | deref pointer' =>
      obtain ⟨rfl, hrest⟩ := form_append_inj ih h
      exact ⟨rfl, hrest⟩
    | _ => simp [placeWord] at hword

/-! ## Expressions -/

/-- The word an expression begins with. -/
def word : Expr → String
  | .int _ => "IntLiteral"
  | .char _ => "CharLiteral"
  | .bool _ => "BoolLiteral"
  | .var _ => "Variable"
  | .malloc _ => "Malloc"
  | .free _ => "Free"
  | .sizeof _ => "Sizeof"
  | .binary _ _ _ => "Binary"
  | .construct _ _ => "MakeStructure"
  | .call _ _ => "Call"
  | .cast _ _ => "Cast"
  | .addressOf _ => "AddressOf"
  | .deref _ => "Dereference"
  | .field _ _ => "FieldAccess"

/-- An expression begins with its word. -/
theorem beginsWith_dump (e : Expr) (s : String) : BeginsWith (word e) (e.dump hidden ++ s) := by
  cases e with
  | int | char | bool | var | malloc | free | sizeof | addressOf | deref =>
    rw [Expr.dump]
    exact beginsWith_form _ _ _
  | binary | construct | call | cast | field =>
    rw [Expr.dump]
    exact beginsWith_record _ _ _

theorem all_isAlpha_word (e : Expr) : (word e).toList.all Char.isAlpha = true := by
  cases e <;> (rw [word]; decide)

/-- Expressions that are written alike begin with the same word. -/
theorem word_eq {e e' : Expr} {s t : String} (h : e.dump hidden ++ s = e'.dump hidden ++ t) : word e = word e' :=
  (beginsWith_dump hidden e s).eq (all_isAlpha_word e) (all_isAlpha_word e') (h ▸ beginsWith_dump hidden e' t)

/-- The expressions behind the first one of a list, up to its end. -/
def behind : List Expr → String
  | [] => "]"
  | e :: es => ", " ++ e.dump hidden ++ behind es

/-- A list that is not empty is its first expression and those behind it. -/
theorem list_cons (e : Expr) (es : List Expr) :
    Dump.list (Expr.listDump hidden (e :: es)) = "[" ++ (e.dump hidden ++ behind hidden es) := by
  have hbehind : ∀ e : Expr, ", ".intercalate (e.dump hidden :: Expr.listDump hidden es) ++ "]" =
      e.dump hidden ++ behind hidden es := by
    induction es with
    | nil =>
      intro e
      rfl
    | cons next es ih =>
      intro e
      rw [Expr.listDump, String.intercalate_cons_cons, behind, String.append_assoc, ih next, String.append_assoc,
        String.append_assoc]
  rw [Expr.listDump, Dump.list, String.append_assoc, hbehind]

/-- An expression begins with the first letter of its word. -/
theorem head?_dump_append (e : Expr) (s : String) : (e.dump hidden ++ s).toList.head? = (word e).toList.head? := by
  have hword : (word e).toList.head?.isSome = true := by
    cases e <;> (rw [word]; decide)
  obtain ⟨c, rest, -, htext⟩ := beginsWith_dump hidden e s
  rw [htext, List.head?_append, Option.or_of_isSome hword]

/-- The end of a list is told from another expression in it. -/
theorem behind_append_inj {es es' : List Expr} (hes : ∀ e ∈ es, Delimited (Expr.dump hidden) e)
    (h : behind hidden es ++ s = behind hidden es' ++ t) : es = es' ∧ s = t := by
  have hne : ∀ (e : Expr) (es : List Expr) (s t : String), "]" ++ s ≠ behind hidden (e :: es) ++ t := by
    intro e es s t h
    have hhead := congrArg (·.toList.head?) h
    simp only [behind, String.toList_append, List.append_assoc] at hhead
    exact absurd (Option.some.inj hhead) (by decide)
  induction es generalizing es' with
  | nil =>
    cases es' with
    | nil => exact ⟨rfl, (String.append_right_inj _).1 h⟩
    | cons e' es' => exact absurd h (hne e' es' s t)
  | cons e es ih =>
    cases es' with
    | nil => exact absurd h.symm (hne e es t s)
    | cons e' es' =>
      rw [List.forall_mem_cons] at hes
      simp only [behind, String.append_assoc, String.append_right_inj] at h
      obtain ⟨rfl, hrest⟩ := hes.1 _ _ _ h
      obtain ⟨rfl, hend⟩ := ih hes.2 hrest
      exact ⟨rfl, hend⟩

/-- Expressions in a list are told from its text if each of them is. -/
theorem delimited_list {es : List Expr} (hes : ∀ e ∈ es, Delimited (Expr.dump hidden) e) :
    Delimited (fun es => Dump.list (Expr.listDump hidden es)) es := by
  have hne : ∀ (e : Expr) (es : List Expr) (s t : String),
      "[]" ++ s ≠ Dump.list (Expr.listDump hidden (e :: es)) ++ t := by
    intro e es s t h
    have hrest : "]" ++ s = e.dump hidden ++ (behind hidden es ++ t) := by
      change "[" ++ "]" ++ s = _ at h
      rwa [list_cons, String.append_assoc, String.append_assoc, String.append_assoc, String.append_right_inj] at h
    have hhead : some ']' = (word e).toList.head? := by
      rw [← head?_dump_append hidden e (behind hidden es ++ t), ← hrest, String.toList_append]
      rfl
    revert hhead
    cases e <;> (rw [word]; decide)
  intro es' s t h
  cases es with
  | nil =>
    cases es' with
    | nil => exact ⟨rfl, (String.append_right_inj _).1 h⟩
    | cons e' es' => exact absurd h (hne e' es' s t)
  | cons e es =>
    rw [List.forall_mem_cons] at hes
    cases es' with
    | nil => exact absurd h.symm (hne e es t s)
    | cons e' es' =>
      simp only [list_cons, String.append_assoc, String.append_right_inj] at h
      obtain ⟨rfl, hrest⟩ := hes.1 _ _ _ h
      obtain ⟨rfl, hend⟩ := behind_append_inj hidden hes.2 hrest
      exact ⟨rfl, hend⟩

/-- A truth value is told from its text. -/
theorem delimited_bool (value : Bool) : Delimited (toString : Bool → String) value := by
  intro value' s t h
  have hhead : ∀ (value : Bool) (s : String), (toString value ++ s).toList.head? = some (if value then 't' else 'f') := by
    intro value s
    rw [String.toList_append]
    cases value <;> rfl
  have hvalue := hhead value' t
  rw [← h, hhead] at hvalue
  cases value <;> cases value' <;> first | exact ⟨rfl, (String.append_right_inj _).1 h⟩ | simp at hvalue

end DumpsAux

open DumpsAux

/-- An expression that is written out is told from its text, and so is what comes behind it. -/
theorem Expr.dump_append_inj (hidden : Char → Bool) {e e' : Expr} {s t : String}
    (h : e.dump hidden ++ s = e'.dump hidden ++ t) : e = e' ∧ s = t := by
  induction e using Expr.induction_on_parts generalizing e' s t with
  | step e ih =>
    have hparts : ∀ part ∈ e.parts, Delimited (Expr.dump hidden) part := fun part hpart _ _ _ => ih part hpart
    have hword := word_eq hidden h
    cases e with
    | int value =>
      cases e' with
      | int value' =>
        simp only [Expr.dump, Dump.form, String.append_assoc, String.append_right_inj] at h
        obtain ⟨hvalue, hrest⟩ := toString_append_inj h
        exact ⟨congrArg Expr.int (Int64.toInt_inj.1 hvalue), hrest⟩
      | _ => simp [word] at hword
    | char value =>
      cases e' with
      | char value' =>
        rw [Expr.dump, Expr.dump] at h
        obtain ⟨rfl, hrest⟩ := form_append_inj (delimited_character hidden value) h
        exact ⟨rfl, hrest⟩
      | _ => simp [word] at hword
    | bool value =>
      cases e' with
      | bool value' =>
        rw [Expr.dump, Expr.dump] at h
        obtain ⟨rfl, hrest⟩ := form_append_inj (delimited_bool value) h
        exact ⟨rfl, hrest⟩
      | _ => simp [word] at hword
    | var name =>
      cases e' with
      | var name' =>
        rw [Expr.dump, Expr.dump] at h
        obtain ⟨rfl, hrest⟩ := form_append_inj (delimited_name hidden name) h
        exact ⟨rfl, hrest⟩
      | _ => simp [word] at hword
    | malloc size =>
      cases e' with
      | malloc size' =>
        rw [Expr.dump, Expr.dump] at h
        obtain ⟨rfl, hrest⟩ := form_append_inj (hparts _ (List.mem_singleton_self _)) h
        exact ⟨rfl, hrest⟩
      | _ => simp [word] at hword
    | free pointer =>
      cases e' with
      | free pointer' =>
        rw [Expr.dump, Expr.dump] at h
        obtain ⟨rfl, hrest⟩ := form_append_inj (hparts _ (List.mem_singleton_self _)) h
        exact ⟨rfl, hrest⟩
      | _ => simp [word] at hword
    | sizeof ty =>
      cases e' with
      | sizeof ty' =>
        rw [Expr.dump, Expr.dump] at h
        obtain ⟨rfl, hrest⟩ := form_append_inj (delimited_type hidden ty) h
        exact ⟨rfl, hrest⟩
      | _ => simp [word] at hword
    | binary op left right =>
      cases e' with
      | binary op' left' right' =>
        rw [Expr.dump, Expr.dump] at h
        rw [Expr.parts, List.forall_mem_cons, List.forall_mem_singleton] at hparts
        obtain ⟨rfl, rfl, rfl, hrest⟩ := record_append_inj₃ (delimited_op op) hparts.1 hparts.2 h
        exact ⟨rfl, hrest⟩
      | _ => simp [word] at hword
    | construct name arguments =>
      cases e' with
      | construct name' arguments' =>
        rw [Expr.dump, Expr.dump] at h
        obtain ⟨rfl, rfl, hrest⟩ := record_append_inj (delimited_name hidden name) (delimited_list hidden hparts) h
        exact ⟨rfl, hrest⟩
      | _ => simp [word] at hword
    | call name arguments =>
      cases e' with
      | call name' arguments' =>
        rw [Expr.dump, Expr.dump] at h
        obtain ⟨rfl, rfl, hrest⟩ := record_append_inj (delimited_name hidden name) (delimited_list hidden hparts) h
        exact ⟨rfl, hrest⟩
      | _ => simp [word] at hword
    | cast target operand =>
      cases e' with
      | cast target' operand' =>
        rw [Expr.dump, Expr.dump] at h
        obtain ⟨rfl, rfl, hrest⟩ := record_append_inj (delimited_type hidden target) (hparts _ (List.mem_singleton_self _)) h
        exact ⟨rfl, hrest⟩
      | _ => simp [word] at hword
    | addressOf place =>
      cases e' with
      | addressOf place' =>
        rw [Expr.dump, Expr.dump] at h
        obtain ⟨rfl, hrest⟩ := form_append_inj (delimited_place hidden place) h
        exact ⟨rfl, hrest⟩
      | _ => simp [word] at hword
    | deref pointer =>
      cases e' with
      | deref pointer' =>
        rw [Expr.dump, Expr.dump] at h
        obtain ⟨rfl, hrest⟩ := form_append_inj (hparts _ (List.mem_singleton_self _)) h
        exact ⟨rfl, hrest⟩
      | _ => simp [word] at hword
    | field object name =>
      cases e' with
      | field object' name' =>
        rw [Expr.dump, Expr.dump] at h
        obtain ⟨rfl, rfl, hrest⟩ := record_append_inj (hparts _ (List.mem_singleton_self _)) (delimited_name hidden name) h
        exact ⟨rfl, hrest⟩
      | _ => simp [word] at hword

end CoreC
