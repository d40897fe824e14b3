import CoreC.Name

/-!
# The order of names

Names are compared by their code points. The bytes of their texts in UTF-8 are in the same order (`Name.bytes_lt_iff`), and
this rests on how the encoding is laid out. A code point is written in one of four forms (`Utf8.IsForm`): a first byte with the
mark of the form, then none to three bytes of six bits each (`Utf8.form`). Within a form the bytes are the digits of the code
point, so they are ordered like it; a greater code point is in a greater form or in the same one, and a greater form has a
greater first byte. So two code points differ before either of their encodings ends (`Utf8.encode_append_lt`), and what follows
them in the texts does not matter.
-/

namespace CoreC

namespace Utf8

/-- The bytes of a code point in a form with some bytes behind the first one: the first one has the mark of the form in it, and
each of the others has six bits. -/
def form (mark : Nat) : Nat → Nat → List UInt8
  | 0, v => [UInt8.ofNat (v + mark)]
  | more + 1, v => form mark more (v / 64) ++ [UInt8.ofNat (v % 64 + 128)]

/-- The form a code point is written in: the mark, and how many bytes follow the first one. -/
inductive IsForm (v : Nat) : Nat → Nat → Prop where
  | one : v < 0x80 → IsForm v 0 0
  | two : 0x80 ≤ v → v < 0x800 → IsForm v 0xC0 1
  | three : 0x800 ≤ v → v < 0x10000 → IsForm v 0xE0 2
  | four : 0x10000 ≤ v → v < 0x110000 → IsForm v 0xF0 3

/-- What is left of a code point in front of some groups of six bits. -/
def lead : Nat → Nat → Nat
  | 0, v => v
  | more + 1, v => lead more (v / 64)

theorem ofNat_lt_ofNat {m n : Nat} (h : m < n) (hn : n < 256) : UInt8.ofNat m < UInt8.ofNat n := by
  rw [UInt8.lt_iff_toNat_lt, UInt8.toNat_ofNat', UInt8.toNat_ofNat']
  omega

/-- Of two lists the one with the lesser first member is the lesser one. -/
theorem cons_lt_cons_of_lt {a b : UInt8} (h : a < b) (r r' : List UInt8) : a :: r < b :: r' :=
  List.cons_lt_cons_iff.2 (Or.inl h)

/-- The first byte of a form has what is left of the code point in front of the other bytes. -/
theorem exists_form_eq_cons (mark more v : Nat) : ∃ rest, form mark more v = UInt8.ofNat (lead more v + mark) :: rest := by
  induction more generalizing v with
  | zero => exact ⟨[], rfl⟩
  | succ more ih =>
    obtain ⟨rest, hrest⟩ := ih (v / 64)
    exact ⟨_, by rw [form, lead, hrest, List.cons_append]⟩

/-- Within a form the bytes are ordered like the code points, whatever follows. -/
theorem form_append_lt {mark more v w : Nat} (h : v < w) (hw : lead more w + mark < 256) (r r' : List UInt8) :
    form mark more v ++ r < form mark more w ++ r' := by
  induction more generalizing v w r r' with
  | zero =>
    rw [lead] at hw
    exact cons_lt_cons_of_lt (ofNat_lt_ofNat (by omega) hw) r r'
  | succ more ih =>
    rw [form, form, List.append_assoc, List.append_assoc]
    have hdigits : v / 64 < w / 64 ∨ v / 64 = w / 64 ∧ v % 64 < w % 64 := by omega
    rcases hdigits with hlt | ⟨heq, hlt⟩
    · rw [lead] at hw
      exact ih hlt hw _ _
    · rw [heq]
      apply List.append_left_lt
      exact cons_lt_cons_of_lt (ofNat_lt_ofNat (by omega) (by omega)) r r'

/-- A greater code point is in the same form, or it has a greater first byte. -/
theorem IsForm.eq_or_lt {v w mark mark' more more' : Nat} (hv : IsForm v mark more) (hw : IsForm w mark' more') (h : v < w) :
    (mark = mark' ∧ more = more') ∨ lead more v + mark < lead more' w + mark' := by
  cases hv <;> cases hw <;> simp only [eq_self, and_self, true_or, lead] <;> omega

/-- What is left of a code point fits into the first byte. -/
theorem IsForm.first_lt {v mark more : Nat} (h : IsForm v mark more) : lead more v + mark < 256 := by
  cases h <;> simp only [lead] <;> omega

/-- Every character is written in the form of its code point. -/
theorem exists_form_of_char (c : Char) :
    ∃ mark more, IsForm c.toNat mark more ∧ String.utf8EncodeChar c = form mark more c.toNat := by
  have hvalid : c.toNat < 0xD800 ∨ (0xDFFF < c.toNat ∧ c.toNat < 0x110000) := c.valid
  have hunfold := String.utf8EncodeChar.eq_def c
  rw [show c.val.toNat = c.toNat from rfl] at hunfold
  generalize c.toNat = v at hvalid hunfold
  by_cases h₁ : v ≤ 0x7f
  · refine ⟨0, 0, .one (by omega), ?_⟩
    rw [hunfold, if_pos h₁, form, Nat.add_zero]
  by_cases h₂ : v ≤ 0x7ff
  · refine ⟨0xC0, 1, .two (by omega) (by omega), ?_⟩
    have hfirst : v / 64 % 32 = v / 64 := by omega
    rw [hunfold, if_neg h₁, if_pos h₂, hfirst]
    rfl
  by_cases h₃ : v ≤ 0xffff
  · refine ⟨0xE0, 2, .three (by omega) (by omega), ?_⟩
    have hfirst : v / 4096 % 16 = v / 64 / 64 := by omega
    rw [hunfold, if_neg h₁, if_neg h₂, if_pos h₃, hfirst]
    rfl
  · refine ⟨0xF0, 3, .four (by omega) (by omega), ?_⟩
    have hfirst : v / 262144 % 8 = v / 64 / 64 / 64 := by omega
    have hsecond : v / 4096 % 64 = v / 64 / 64 % 64 := by omega
    rw [hunfold, if_neg h₁, if_neg h₂, if_neg h₃, hfirst, hsecond]
    rfl

/-- The bytes of two characters differ before either of them ends, and are ordered like the characters. -/
theorem encode_append_lt {c d : Char} (h : c < d) (r r' : List UInt8) :
    String.utf8EncodeChar c ++ r < String.utf8EncodeChar d ++ r' := by
  have hlt : c.toNat < d.toNat := h
  obtain ⟨mark, more, hc, hcform⟩ := exists_form_of_char c
  obtain ⟨mark', more', hd, hdform⟩ := exists_form_of_char d
  rw [hcform, hdform]
  rcases hc.eq_or_lt hd hlt with ⟨rfl, rfl⟩ | hfirst
  · exact form_append_lt hlt hd.first_lt r r'
  · obtain ⟨rest, hrest⟩ := exists_form_eq_cons mark more c.toNat
    obtain ⟨rest', hrest'⟩ := exists_form_eq_cons mark' more' d.toNat
    rw [hrest, hrest']
    exact cons_lt_cons_of_lt (ofNat_lt_ofNat hfirst hd.first_lt) _ _

/-- The bytes of texts are ordered like the texts. -/
theorem flatMap_encode_lt {l l' : List Char} (h : l < l') :
    l.flatMap String.utf8EncodeChar < l'.flatMap String.utf8EncodeChar := by
  induction l generalizing l' with
  | nil =>
    cases l' with
    | nil => exact absurd h (List.lt_irrefl [])
    | cons d l' =>
      obtain ⟨byte, rest, hcons⟩ := List.exists_cons_of_ne_nil (String.utf8EncodeChar_ne_nil (c := d))
      rw [List.flatMap_cons, hcons]
      exact List.nil_lt_cons _ _
  | cons c l ih =>
    cases l' with
    | nil => exact absurd h (List.not_lt_nil _)
    | cons d l' =>
      rw [List.flatMap_cons, List.flatMap_cons]
      rcases List.cons_lt_cons_iff.1 h with hlt | ⟨rfl, hlt⟩
      · exact encode_append_lt hlt _ _
      · exact List.append_left_lt (ih hlt)

end Utf8

namespace Name

variable {kind : NameKind} {a b : Name kind}

/-- The bytes of a name in UTF-8. -/
def bytes (n : Name kind) : List UInt8 :=
  n.text.toUTF8.data.toList

/-- The code points of a name. -/
def codePoints (n : Name kind) : List Nat :=
  n.text.toList.map Char.toNat

theorem compare_eq_lt_iff : compare a b = .lt ↔ a.text.toList < b.text.toList := by
  rw [compare_eq, ← String.lt_iff]
  exact compareOfLessAndEq_eq_lt

theorem bytes_eq_flatMap (n : Name kind) : n.bytes = n.text.toList.flatMap String.utf8EncodeChar := by
  rw [bytes, String.toUTF8, ← String.utf8Encode_toList, List.utf8Encode, List.data_toByteArray]

/-- What grows with the name is ordered like the names. -/
theorem key_lt_iff {κ : Type} [LT κ] [Std.Asymm (α := κ) (· < ·)] {key : Name kind → κ}
    (hkey : ∀ {a b : Name kind}, compare a b = .lt → key a < key b) : key a < key b ↔ compare a b = .lt := by
  refine ⟨?_, hkey⟩
  intro h
  cases hab : compare a b with
  | lt => rfl
  | eq =>
    rw [Std.LawfulEqOrd.eq_of_compare hab] at h
    exact absurd h (Std.Asymm.asymm _ _ h)
  | gt => exact absurd h (Std.Asymm.asymm _ _ (hkey (Std.OrientedCmp.gt_iff_lt.1 hab)))

/-- Names are in the order of their bytes. -/
theorem bytes_lt_iff : a.bytes < b.bytes ↔ compare a b = .lt := by
  apply key_lt_iff
  intro a b h
  rw [bytes_eq_flatMap, bytes_eq_flatMap]
  exact Utf8.flatMap_encode_lt (compare_eq_lt_iff.1 h)

/-- Names are in the order of their code points. -/
theorem codePoints_lt_iff : a.codePoints < b.codePoints ↔ compare a b = .lt := by
  apply key_lt_iff
  intro a b h
  exact List.map_lt (fun _ _ hlt => hlt) (compare_eq_lt_iff.1 h)

end Name

end CoreC
