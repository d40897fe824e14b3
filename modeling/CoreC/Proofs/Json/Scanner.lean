import CoreC.Json.Token
import CoreC.Proofs.Json.Grammar

/-!
# The scanners follow the grammar

Each scanner of strings and of numbers takes exactly what the grammar derives off the front of a text. A string ends at its
closing quote, so nothing need be known of what stands behind it. A number ends where it cannot go on: behind it must stand
something that is no part of a number (`Scanner.Stops`), and then all of it is taken.
-/

namespace CoreC.Json

namespace Scanner

/-! ## Strings -/

/-- A character between two others, by its distance from the first. -/
theorem exists_ofNat_of_le {a b c : Char} (h : a ≤ c ∧ c ≤ b) :
    ∃ k, c.toNat = k + a.toNat ∧ k + a.toNat ≤ b.toNat ∧ c = Char.ofNat (k + a.toNat) := by
  have h₁ : a.toNat ≤ c.toNat := UInt32.le_iff_toNat_le.1 (Char.le_def.1 h.1)
  have h₂ : c.toNat ≤ b.toNat := UInt32.le_iff_toNat_le.1 (Char.le_def.1 h.2)
  have hk : c.toNat - a.toNat + a.toNat = c.toNat := by omega
  exact ⟨c.toNat - a.toNat, hk.symm, by omega, by rw [hk, Char.ofNat_toNat]⟩

/-- The digits to the base 16 are those of the grammar, in either case. -/
theorem hexDigit?_eq_some_iff {c : Char} {n : Nat} : hexDigit? c = some n ↔ HexDigit c n := by
  have hread : ∀ n < 16, hexDigit? (Nat.digitChar n) = some n ∧ hexDigit? (Nat.digitChar n).toUpper = some n := by
    decide
  have hdigit : ∀ k < 10, Char.ofNat (k + 48) = Nat.digitChar k := by decide
  have hlower : ∀ k < 6, Char.ofNat (k + 97) = Nat.digitChar (k + 10) := by decide
  have hupper : ∀ k < 6, Char.ofNat (k + 65) = (Nat.digitChar (k + 10)).toUpper := by decide
  refine ⟨fun h => ?_, fun h => ?_⟩
  · unfold hexDigit? at h
    split at h
    · rename_i hc
      obtain ⟨k, hk, hb, rfl⟩ := exists_ofNat_of_le hc
      have hb : k + 48 ≤ 57 := hb
      simp only [hk, Nat.add_sub_cancel, Option.some.injEq] at h
      subst h
      exact ⟨by omega, Or.inl (hdigit k (by omega))⟩
    · split at h
      · rename_i hc
        obtain ⟨k, hk, hb, rfl⟩ := exists_ofNat_of_le hc
        have hb : k + 97 ≤ 102 := hb
        simp only [hk, Nat.add_sub_cancel, Option.some.injEq] at h
        subst h
        exact ⟨by omega, Or.inl (hlower k (by omega))⟩
      · split at h
        · rename_i hc
          obtain ⟨k, hk, hb, rfl⟩ := exists_ofNat_of_le hc
          have hb : k + 65 ≤ 70 := hb
          simp only [hk, Nat.add_sub_cancel, Option.some.injEq] at h
          subst h
          exact ⟨by omega, Or.inr (hupper k (by omega))⟩
        · cases h
  · obtain ⟨hn, rfl | rfl⟩ := h
    · exact (hread n hn).1
    · exact (hread n hn).2

/-- Four such digits are read as the number they write. -/
theorem codeUnit?_eq_some_iff {a b c d : Char} {u : Nat} : codeUnit? a b c d = some u ↔ Hex4 [a, b, c, d] u := by
  simp only [codeUnit?, Option.bind_eq_bind, Option.bind_eq_some_iff, hexDigit?_eq_some_iff, Option.pure_def,
    Option.some.injEq]
  refine ⟨fun h => ?_, fun h => ?_⟩
  · obtain ⟨k, hk, l, hl, m, hm, n, hn, rfl⟩ := h
    exact .mk hk hl hm hn
  · cases h with | mk hk hl hm hn => exact ⟨_, hk, _, hl, _, hm, _, hn, rfl⟩

/-- Four digits write a number of two bytes. -/
theorem hex4_lt {ds : List Char} {u : Nat} (h : Hex4 ds u) : u < 65536 := by
  cases h with
  | mk hk hl hm hn =>
    have := hk.1
    have := hl.1
    have := hm.1
    have := hn.1
    omega

/-- The escapes of one letter are those of the grammar. -/
theorem shortEscape?_eq_some_iff {letter c : Char} : shortEscape? letter = some c ↔ ShortEscape letter c := by
  refine ⟨fun h => ?_, fun h => ?_⟩
  · unfold shortEscape? at h
    split at h <;> cases h <;> constructor
  · cases h <;> rfl

theorem toNat_ofNat_of_isValidChar {n : Nat} (h : n.isValidChar) : (Char.ofNat n).toNat = n := by
  rw [Char.ofNat, dif_pos h]
  rfl

/-- An escape of four digits spells the piece of its code unit. -/
theorem pieceText_ofCodeUnit {ds : List Char} {u : Nat} (h : Hex4 ds u) :
    PieceText ('\\' :: 'u' :: ds) (.ofCodeUnit u) := by
  have hu := hex4_lt h
  unfold Piece.ofCodeUnit
  split
  · rename_i hr
    refine .high ?_
    have : 0xD800 + (Fin.ofNat 1024 (u - 0xD800)).val = u := by
      rw [Fin.val_ofNat, Nat.mod_eq_of_lt (by omega)]
      omega
    rw [this]
    exact h
  · split
    · rename_i hr
      refine .low ?_
      have : 0xDC00 + (Fin.ofNat 1024 (u - 0xDC00)).val = u := by
        rw [Fin.val_ofNat, Nat.mod_eq_of_lt (by omega)]
        omega
      rw [this]
      exact h
    · refine .unit ?_
      rw [toNat_ofNat_of_isValidChar]
      · exact h
      · simp only [Nat.isValidChar]
        omega

/-- The number of a character stands for the character, since no character is a surrogate. -/
theorem ofCodeUnit_toNat (c : Char) : Piece.ofCodeUnit c.toNat = .char c := by
  have hc : c.toNat < 0xD800 ∨ (0xDFFF < c.toNat ∧ c.toNat < 0x110000) := c.valid
  unfold Piece.ofCodeUnit
  rw [if_neg (by omega), if_neg (by omega), Char.ofNat_toNat]

/-- A number of the high surrogates stands for half a character, and so does one of the low ones. -/
theorem ofCodeUnit_high (offset : Fin 1024) : Piece.ofCodeUnit (0xD800 + offset.val) = .high offset := by
  unfold Piece.ofCodeUnit
  rw [if_pos (by omega), Nat.add_sub_cancel_left]
  exact congrArg Piece.high (Fin.ext (Nat.mod_eq_of_lt offset.isLt))

theorem ofCodeUnit_low (offset : Fin 1024) : Piece.ofCodeUnit (0xDC00 + offset.val) = .low offset := by
  unfold Piece.ofCodeUnit
  rw [if_neg (by omega), if_pos (by omega), Nat.add_sub_cancel_left]
  exact congrArg Piece.low (Fin.ext (Nat.mod_eq_of_lt offset.isLt))

/-- An escape of four digits is read as the piece its number stands for. -/
theorem scanString_unit {digits : List Char} {u : Nat} (h : Hex4 digits u) (read : List Piece) (rest : List Char) :
    scanString read ('\\' :: 'u' :: (digits ++ rest)) = scanString (.ofCodeUnit u :: read) rest := by
  have hu := h
  cases h with
  | mk =>
    rw [← codeUnit?_eq_some_iff] at hu
    simp only [List.cons_append, List.nil_append, scanString, hu]

/-- One piece is taken off the front of a string. -/
theorem scanString_piece {t : List Char} {p : Piece} (h : PieceText t p) (read : List Piece) (rest : List Char) :
    scanString read (t ++ rest) = scanString (p :: read) rest := by
  cases h with
  | @raw c hc hq hb =>
    have hlt : ¬c < ' ' := Char.not_lt.2 hc
    simp [scanString, hb, hlt]
  | short hs => cases hs <;> simp [scanString, shortEscape?]
  | @unit digits c h => exact ofCodeUnit_toNat c ▸ scanString_unit h read rest
  | @high digits offset h => exact ofCodeUnit_high offset ▸ scanString_unit h read rest
  | @low digits offset h => exact ofCodeUnit_low offset ▸ scanString_unit h read rest

/-- A string of the grammar is read up to its closing quote. -/
theorem scanString_of_piecesText {t : List Char} {ps : List Piece} (h : PiecesText t ps) (read : List Piece)
    (rest : List Char) : scanString read (t ++ '"' :: rest) = some (read.reverse ++ ps, rest) := by
  induction h generalizing read with
  | nil => simp [scanString]
  | cons hp _ ih =>
    rw [List.append_assoc, scanString_piece hp, ih]
    simp

/-- What is read up to a closing quote is a string of the grammar. -/
theorem piecesText_of_scanString {read : List Piece} {text : List Char} {ps : List Piece} {rest : List Char}
    (h : scanString read text = some (ps, rest)) :
    ∃ t qs, text = t ++ '"' :: rest ∧ PiecesText t qs ∧ ps = read.reverse ++ qs := by
  fun_induction scanString read text with
  | case1 read rest' =>
    cases h
    exact ⟨[], [], rfl, .nil, by simp⟩
  | case2 read a b c d rest' u hu ih =>
    obtain ⟨t, qs, rfl, ht, rfl⟩ := ih h
    exact ⟨_, _, by simp, .cons (pieceText_ofCodeUnit (codeUnit?_eq_some_iff.1 hu)) ht, by simp⟩
  | case3 => cases h
  | case4 read letter rest' _ c hc ih =>
    obtain ⟨t, qs, rfl, ht, rfl⟩ := ih h
    exact ⟨_, _, by simp, .cons (.short (shortEscape?_eq_some_iff.1 hc)) ht, by simp⟩
  | case5 => cases h
  | case6 => cases h
  | case7 read c rest' hq _ _ hc ih =>
    obtain ⟨t, qs, rfl, ht, rfl⟩ := ih h
    have hp : PieceText [c] (.char c) :=
      .raw (Char.not_lt.1 fun hlt => hc (Or.inl hlt)) hq (fun hb => hc (Or.inr hb))
    exact ⟨[c] ++ t, .char c :: qs, rfl, .cons hp ht, by simp⟩
  | case8 => cases h

/-! ## Numbers -/

/-- A text that does not begin with a digit. -/
def NoDigit (rest : List Char) : Prop :=
  ∀ c, rest.head? = some c → c.isDigit = false

/-- A text behind which a number in front of it cannot go on. -/
def Stops (rest : List Char) : Prop :=
  ∀ c, rest.head? = some c → c.isDigit = false ∧ c ≠ '.' ∧ c ≠ 'e' ∧ c ≠ 'E'

theorem Stops.noDigit {rest : List Char} (h : Stops rest) : NoDigit rest :=
  fun c hc => (h c hc).1

/-- Digits in front of what is none are all digits in front. -/
theorem takeWhile_digits {ds rest : List Char} (hd : ∀ c ∈ ds, c.isDigit = true) (hr : NoDigit rest) :
    (ds ++ rest).takeWhile Char.isDigit = ds ∧ (ds ++ rest).dropWhile Char.isDigit = rest := by
  induction ds with
  | nil =>
    cases rest with
    | nil => exact ⟨rfl, rfl⟩
    | cons c rest =>
      have hc := hr c rfl
      simp [hc]
  | cons d ds ih =>
    rw [List.forall_mem_cons] at hd
    simp [hd.1, ih hd.2]

/-- Digits are scanned up to the first character that is none. -/
theorem scanDigits_append {ds rest : List Char} (hd : Digits ds) (hr : NoDigit rest) :
    scanDigits (ds ++ rest) = some (ds, rest) := by
  obtain ⟨htake, hdrop⟩ := takeWhile_digits hd.2 hr
  unfold scanDigits
  rw [htake, hdrop]
  split
  · exact absurd rfl hd.1
  · rfl

/-- What is scanned as digits is digits. -/
theorem digits_of_scanDigits {text ds rest : List Char} (h : scanDigits text = some (ds, rest)) :
    text = ds ++ rest ∧ Digits ds := by
  obtain ⟨ht, hne⟩ := append_of_scanDigits h
  refine ⟨ht.symm, hne, ?_⟩
  unfold scanDigits at h
  split at h
  · cases h
  · cases h
    exact List.all_eq_true.1 List.all_takeWhile

/-- The whole part of a number is scanned up to the first character that is no digit. -/
theorem scanWhole_append {ds rest : List Char} (hd : Whole ds) (hr : NoDigit rest) :
    scanWhole (ds ++ rest) = some (ds, rest) := by
  unfold scanWhole
  cases hd with
  | zero =>
    have hzero : Digits ['0'] := by
      refine ⟨List.cons_ne_nil _ _, fun c hc => ?_⟩
      rw [List.mem_singleton.1 hc]
      rfl
    rw [scanDigits_append hzero hr]
    rfl
  | digits h0 hd =>
    rw [scanDigits_append hd hr]
    split
    · rename_i heq
      cases heq
      exact absurd rfl h0
    · rfl

/-- What is scanned as a whole part has no zero in front, unless it is zero. -/
theorem whole_of_scanWhole {text ds rest : List Char} (h : scanWhole text = some (ds, rest)) :
    text = ds ++ rest ∧ Whole ds := by
  unfold scanWhole at h
  split at h
  · cases h
  · rename_i hz
    obtain ⟨ht, hd⟩ := digits_of_scanDigits h
    refine ⟨ht, ?_⟩
    cases ds with
    | nil => exact absurd rfl hd.1
    | cons c ds =>
      by_cases hc : c = '0'
      · subst hc
        cases ds with
        | nil => exact .zero
        | cons d ds => exact absurd h (hz _ _ _)
      · exact .digits hc hd

/-- What is scanned behind a mark is the mark and what is scanned without it. -/
theorem scanBehind_eq_some_iff {mark : Char} {scan : List Char → Option (List Char × List Char)}
    {text taken rest : List Char} :
    scanBehind mark scan text = some (taken, rest) ↔ ∃ t, taken = mark :: t ∧ scan text = some (t, rest) := by
  simp only [scanBehind, Option.map_eq_some_iff, Prod.exists, Prod.mk.injEq]
  refine ⟨fun h => ?_, fun h => ?_⟩
  · obtain ⟨t, r, hs, rfl, rfl⟩ := h
    exact ⟨t, rfl, hs⟩
  · obtain ⟨t, rfl, hs⟩ := h
    exact ⟨t, rest, hs, rfl, rfl⟩

/-- A fraction is scanned up to the first character that is no digit. If there is none, there is no point either. -/
theorem scanFraction_append {f rest : List Char} (hf : Fraction f) (hr : NoDigit rest)
    (hp : f = [] → rest.head? ≠ some '.') : scanFraction (f ++ rest) = some (f, rest) := by
  cases hf with
  | absent =>
    unfold scanFraction
    split
    · rename_i heq
      have heq : rest = _ := heq
      rw [heq] at hp
      exact absurd rfl (hp rfl)
    · rfl
  | digits hd => exact scanBehind_eq_some_iff.2 ⟨_, rfl, scanDigits_append hd hr⟩

/-- What is scanned as a fraction is a point with digits behind it, or nothing. -/
theorem fraction_of_scanFraction {text f rest : List Char} (h : scanFraction text = some (f, rest)) :
    text = f ++ rest ∧ Fraction f := by
  unfold scanFraction at h
  split at h
  · obtain ⟨ds, rfl, hs⟩ := scanBehind_eq_some_iff.1 h
    obtain ⟨rfl, hd⟩ := digits_of_scanDigits hs
    exact ⟨rfl, .digits hd⟩
  · cases h
    exact ⟨rfl, .absent⟩

/-- The digits of an exponent without a sign are scanned like other digits. -/
theorem scanPower_append {ds rest : List Char} (hd : Digits ds) (hr : NoDigit rest) :
    scanPower (ds ++ rest) = some (ds, rest) := by
  rw [← scanDigits_append hd hr]
  obtain ⟨hne, hall⟩ := hd
  cases ds with
  | nil => exact absurd rfl hne
  | cons d ds =>
    have hd := hall d List.mem_cons_self
    unfold scanPower
    split
    · rename_i heq
      cases heq
      exact absurd hd (by decide)
    · rename_i heq
      cases heq
      exact absurd hd (by decide)
    · rfl

/-- An exponent is scanned up to a character that cannot go on with a number. -/
theorem scanExponent_append {e rest : List Char} (he : Exponent e) (hr : Stops rest) :
    scanExponent (e ++ rest) = some (e, rest) := by
  cases he with
  | absent =>
    unfold scanExponent
    split
    · rename_i heq
      exact absurd rfl (hr 'e' (congrArg List.head? heq)).2.2.1
    · rename_i heq
      exact absurd rfl (hr 'E' (congrArg List.head? heq)).2.2.2
    · rfl
  | @unsigned mark ds hm hd =>
    have hp := scanPower_append hd hr.noDigit
    rcases hm with rfl | rfl
    · exact scanBehind_eq_some_iff.2 ⟨ds, rfl, hp⟩
    · exact scanBehind_eq_some_iff.2 ⟨ds, rfl, hp⟩
  | @signed mark sign ds hm hs hd =>
    have hp : scanPower (sign :: (ds ++ rest)) = some (sign :: ds, rest) := by
      rcases hs with rfl | rfl
      · exact scanBehind_eq_some_iff.2 ⟨ds, rfl, scanDigits_append hd hr.noDigit⟩
      · exact scanBehind_eq_some_iff.2 ⟨ds, rfl, scanDigits_append hd hr.noDigit⟩
    rcases hm with rfl | rfl
    · exact scanBehind_eq_some_iff.2 ⟨sign :: ds, rfl, hp⟩
    · exact scanBehind_eq_some_iff.2 ⟨sign :: ds, rfl, hp⟩

/-- What is scanned behind the mark of an exponent makes an exponent with it. -/
theorem exponent_of_scanPower {mark : Char} (hm : mark = 'e' ∨ mark = 'E') {text t rest : List Char}
    (h : scanPower text = some (t, rest)) : text = t ++ rest ∧ Exponent (mark :: t) := by
  unfold scanPower at h
  split at h
  · obtain ⟨ds, rfl, hs⟩ := scanBehind_eq_some_iff.1 h
    obtain ⟨rfl, hd⟩ := digits_of_scanDigits hs
    exact ⟨rfl, .signed hm (Or.inl rfl) hd⟩
  · obtain ⟨ds, rfl, hs⟩ := scanBehind_eq_some_iff.1 h
    obtain ⟨rfl, hd⟩ := digits_of_scanDigits hs
    exact ⟨rfl, .signed hm (Or.inr rfl) hd⟩
  · obtain ⟨rfl, hd⟩ := digits_of_scanDigits h
    exact ⟨rfl, .unsigned hm hd⟩

/-- What is scanned as an exponent is one, or nothing. -/
theorem exponent_of_scanExponent {text e rest : List Char} (h : scanExponent text = some (e, rest)) :
    text = e ++ rest ∧ Exponent e := by
  unfold scanExponent at h
  split at h
  · obtain ⟨t, rfl, hs⟩ := scanBehind_eq_some_iff.1 h
    obtain ⟨rfl, he⟩ := exponent_of_scanPower (Or.inl rfl) hs
    exact ⟨rfl, he⟩
  · obtain ⟨t, rfl, hs⟩ := scanBehind_eq_some_iff.1 h
    obtain ⟨rfl, he⟩ := exponent_of_scanPower (Or.inr rfl) hs
    exact ⟨rfl, he⟩
  · cases h
    exact ⟨rfl, .absent⟩

/-- The sign in front of a whole part. -/
theorem scanSign_append (negative : Bool) {ds : List Char} (hd : Whole ds) (rest : List Char) :
    scanSign (signText negative ++ (ds ++ rest)) = (signText negative, ds ++ rest) := by
  cases negative with
  | true => rfl
  | false =>
    cases hd with
    | zero => rfl
    | @digits c ds _ hd =>
      have hc := hd.2 c List.mem_cons_self
      show scanSign (c :: (ds ++ rest)) = ([], c :: (ds ++ rest))
      unfold scanSign
      split
      · rename_i heq
        cases heq
        exact absurd hc (by decide)
      · rfl

/-- What is scanned as a sign is one, or nothing. -/
theorem signText_of_scanSign (text : List Char) :
    ∃ negative, scanSign text = (signText negative, (scanSign text).2) ∧
      text = signText negative ++ (scanSign text).2 := by
  unfold scanSign
  split
  · exact ⟨true, rfl, rfl⟩
  · exact ⟨false, rfl, rfl⟩

/-- An exponent begins with a letter, so neither it nor what stands behind it goes on with a fraction. -/
theorem head_exponent_append {e rest : List Char} (he : Exponent e) (hr : Stops rest) {c : Char}
    (hc : (e ++ rest).head? = some c) : c.isDigit = false ∧ c ≠ '.' := by
  cases he with
  | absent => exact ⟨(hr c hc).1, (hr c hc).2.1⟩
  | unsigned hm _ | signed hm _ _ =>
    cases hc
    rcases hm with rfl | rfl
    · exact ⟨rfl, by decide⟩
    · exact ⟨rfl, by decide⟩

/-- A fraction begins with a point, so neither it nor what stands behind it goes on with a digit. -/
theorem noDigit_fraction_append {f e rest : List Char} (hf : Fraction f) (he : Exponent e) (hr : Stops rest) :
    NoDigit (f ++ (e ++ rest)) := by
  intro c hc
  cases hf with
  | absent => exact (head_exponent_append he hr hc).1
  | digits _ =>
    cases hc
    rfl

/-- The number of a sign and the three parts behind it. -/
theorem scanNumber_parts (negative : Bool) {w f e rest : List Char} (hw : Whole w) (hf : Fraction f) (he : Exponent e)
    (hr : Stops rest) :
    scanNumber (signText negative ++ (w ++ (f ++ (e ++ rest)))) =
      if f.isEmpty && e.isEmpty then some (.integer negative (Nat.ofDigitChars 10 w 0), rest)
      else some (.decimal (signText negative ++ w ++ f ++ e), rest) := by
  have hsign : (!(signText negative).isEmpty) = negative := by cases negative <;> rfl
  have hpoint : f = [] → (e ++ rest).head? ≠ some '.' := fun _ hc => (head_exponent_append he hr hc).2 rfl
  have hdigit : NoDigit (e ++ rest) := fun c hc => (head_exponent_append he hr hc).1
  unfold scanNumber
  rw [scanSign_append negative hw]
  simp only [scanWhole_append hw (noDigit_fraction_append hf he hr), scanFraction_append hf hdigit hpoint,
    scanExponent_append he hr, hsign, Option.bind_eq_bind, Option.bind_some, Option.pure_def]

/-- A number of the grammar is read up to where it ends. -/
theorem scanNumber_append {t rest : List Char} {n : Number} (hn : NumberText t n) (hr : Stops rest) :
    scanNumber (t ++ rest) = some (n, rest) := by
  cases hn with
  | @integer negative w hw =>
    have h := scanNumber_parts negative hw .absent .absent hr
    rw [List.append_assoc]
    exact h
  | @decimal negative w f e hw hf he hne =>
    have h := scanNumber_parts negative hw hf he hr
    rw [if_neg (by simpa [List.isEmpty_iff] using hne)] at h
    rw [← h]
    simp only [List.append_assoc]

/-- What is read as a number is one of the grammar. -/
theorem numberText_of_scanNumber {text rest : List Char} {n : Number} (h : scanNumber text = some (n, rest)) :
    ∃ t, text = t ++ rest ∧ NumberText t n := by
  simp only [scanNumber, Option.bind_eq_bind, Option.bind_eq_some_iff, Prod.exists] at h
  obtain ⟨w, r₁, hscanW, f, r₂, hscanF, e, r₃, hscanE, h⟩ := h
  obtain ⟨negative, hs, ht⟩ := signText_of_scanSign text
  obtain ⟨ht₁, hw⟩ := whole_of_scanWhole hscanW
  obtain ⟨rfl, hf⟩ := fraction_of_scanFraction hscanF
  obtain ⟨rfl, he⟩ := exponent_of_scanExponent hscanE
  rw [ht₁] at ht
  rw [hs] at h
  split at h
  · rename_i hc
    simp only [Bool.and_eq_true, List.isEmpty_iff] at hc
    obtain ⟨rfl, rfl⟩ := hc
    cases h
    have hsign : (!(signText negative).isEmpty) = negative := by cases negative <;> rfl
    refine ⟨signText negative ++ w, by rw [ht]; simp, ?_⟩
    simp only [hsign]
    exact .integer negative hw
  · rename_i hc
    cases h
    refine ⟨signText negative ++ w ++ f ++ e, by rw [ht]; simp, .decimal negative hw hf he ?_⟩
    simpa [List.isEmpty_iff] using hc

end Scanner
end CoreC.Json
