/-
Which texts are JSON.

Much more is JSON than what is ever written here: numbers of any size and with any
exponent, strings with any escapes, white space between all pieces, values in values to any
depth.  The grammar says which texts these are, without regard to how they are read: what a
number is (`IsNumber`), what may stand between the quotes of a string (`IsBody`) and which
text it stands for if it stands for one (`Spells`), and which texts are values
(`IsValue`).

The readers of numbers and strings accept what the grammar says, and stop where it ends.
What is written between the quotes of a string is one of its spellings (`spells_escaped`): a
quote inside it is escaped, as is every other character that a string may not hold as it
is.  So every string comes back, whatever its characters.
-/
import SamplingProfiler.Proofs.Json.Lexemes
import Mathlib.Tactic.SplitIfs

namespace SamplingProfiler

namespace Json

/-! ### Texts that are taken or refused

A text can be refused for three reasons, and the grammar has nothing to say about which it is.  So
all refusals count as one result.
-/

/-- Does the reader come to the rest of the text with this result?  No result is a refusal. -/
def Yields {α : Type} (reader : Reader α) (text : List Char) (result : Option α)
    (rest : List Char) : Prop :=
  match result with
  | some a => reader text = .ok (a, rest)
  | none => ∃ e, reader text = .error e

section

variable {α β : Type} {reader : Reader α} {text rest : List Char} {result : Option α}

theorem yields_ok {a : α} (h : reader text = .ok (a, rest)) : Yields reader text (some a) rest := h

theorem yields_error {e : Refusal} (h : reader text = .error e) : Yields reader text none rest :=
  ⟨e, h⟩

/-- Only what is read counts, not by which reader from where. -/
theorem Yields.congr {reader' : Reader α} {text' : List Char} (h : Yields reader text result rest)
    (heq : reader' text' = reader text) : Yields reader' text' result rest := by
  unfold Yields at h ⊢
  rwa [heq]

/-- One reader goes on where another stopped. -/
theorem Yields.andThen {last : List Char} (h : Yields reader text result rest)
    (next : α → Reader β) (results : α → Option β)
    (hnext : ∀ a, result = some a → Yields (next a) rest (results a) last) :
    Yields (fun cs => do
      let (a, cs) ← reader cs
      next a cs) text (result.bind results) last := by
  cases result with
  | none =>
      obtain ⟨e, he⟩ := h
      exact yields_error (e := e) (by simp only [he, bind, Except.bind])
  | some a =>
      have hok : reader text = .ok (a, rest) := h
      refine (hnext a rfl).congr ?_
      simp only [hok, bind, Except.bind]

end

/-- Does the reader make this of the text, whatever follows? -/
def Makes {α : Type} (reader : Reader α) (t : List Char) (result : Option α) : Prop :=
  ∀ rest, Ends rest → Yields reader (t ++ rest) result rest

/-! ### Numbers

Whether a number is too large to be read depends on its value, which is no matter of grammar.  What
the grammar settles is where a number ends, and that a reader that does not refuse the number
stops there.
-/

/-- A point and digits, or nothing. -/
inductive IsFraction : List Char → Prop where
  | none : IsFraction []
  | some {digits : List Char} (h : IsDigits digits) : IsFraction ('.' :: digits)

/-- A mark, a sign or none, and digits, or nothing. -/
inductive IsExponent : List Char → Prop where
  | none : IsExponent []
  | some {mark : Char} {sign digits : List Char} (hmark : mark = 'e' ∨ mark = 'E')
      (hsign : sign = [] ∨ sign = ['+'] ∨ sign = ['-']) (h : IsDigits digits) :
      IsExponent (mark :: (sign ++ digits))

/-- A number. -/
inductive IsNumber : List Char → Prop where
  | parts {sign whole fraction exponent : List Char} (hsign : sign = [] ∨ sign = ['-'])
      (hwhole : IsWhole whole) (hfraction : IsFraction fraction)
      (hexponent : IsExponent exponent) :
      IsNumber (sign ++ (whole ++ (fraction ++ exponent)))

theorem isNumber_toDigits (n : Nat) : IsNumber (Nat.toDigits 10 n) := by
  have h := IsNumber.parts (.inl rfl) (isWhole_toDigits n) .none .none
  rwa [List.nil_append, List.append_nil, List.append_nil] at h

private theorem noDigit_exponent {exponent rest : List Char} (h : IsExponent exponent)
    (hrest : Ends rest) : NoDigit (exponent ++ rest) := by
  cases h with
  | none => exact hrest.noDigit
  | some hmark _ _ => rcases hmark with rfl | rfl <;> exact noDigit_cons rfl

private theorem readFraction_append {fraction : List Char} (h : IsFraction fraction) :
    ∃ digits, ∀ exponent rest, IsExponent exponent → Ends rest →
      readFraction (fraction ++ (exponent ++ rest)) = .ok (digits, exponent ++ rest) := by
  cases h with
  | none =>
      refine ⟨none, fun exponent rest hexponent hrest => ?_⟩
      cases hexponent with
      | none => exact readFraction_of_ends hrest
      | some hmark _ _ => rcases hmark with rfl | rfl <;> rfl
  | @some digits h =>
      refine ⟨some digits, fun exponent rest hexponent hrest => ?_⟩
      simp only [List.cons_append, readFraction,
        readDigits_append h (noDigit_exponent hexponent hrest), bind, Except.bind]
      rfl

/-- The sign of an exponent is told from the digits after it. -/
private theorem splitSign_append {sign digits : List Char}
    (hsign : sign = [] ∨ sign = ['+'] ∨ sign = ['-']) (h : IsDigits digits) :
    ∃ negative, ∀ rest, splitSign (sign ++ (digits ++ rest)) = (negative, digits ++ rest) := by
  obtain ⟨c, cs, rfl, hc⟩ := h.exists_cons
  rcases hsign with rfl | rfl | rfl
  · refine ⟨false, fun rest => ?_⟩
    unfold splitSign
    -- a digit is not a sign
    split
    · rename_i heq
      obtain ⟨rfl, -⟩ := List.cons.inj heq
      cases hc
    · rename_i heq
      obtain ⟨rfl, -⟩ := List.cons.inj heq
      cases hc
    · rfl
  · exact ⟨false, fun _ => rfl⟩
  · exact ⟨true, fun _ => rfl⟩

private theorem readExponent_append {exponent : List Char} (h : IsExponent exponent) :
    ∃ digits, ∀ rest, Ends rest → readExponent (exponent ++ rest) = .ok (digits, rest) := by
  cases h with
  | none => exact ⟨none, fun rest hrest => readExponent_of_ends hrest⟩
  | @some mark sign digits hmark hsign h =>
      obtain ⟨negative, hsplit⟩ := splitSign_append hsign h
      refine ⟨some (negative, digits), fun rest hrest => ?_⟩
      simp only [List.cons_append, List.append_assoc, readExponent, if_pos hmark, hsplit,
        readDigits_append h hrest.noDigit, bind, Except.bind]
      rfl

private theorem readParts_append {whole fraction exponent : List Char} (hwhole : IsWhole whole)
    (hfraction : IsFraction fraction) (hexponent : IsExponent exponent) :
    ∃ parts, ∀ rest, Ends rest →
      readParts (whole ++ (fraction ++ exponent) ++ rest) = .ok (parts, rest) := by
  obtain ⟨first, hfirst⟩ := readFraction_append hfraction
  obtain ⟨second, hsecond⟩ := readExponent_append hexponent
  refine ⟨⟨whole, first, second⟩, fun rest hrest => ?_⟩
  have hnone : NoDigit (fraction ++ (exponent ++ rest)) := by
    cases hfraction with
    | none =>
        show NoDigit (exponent ++ rest)
        exact noDigit_exponent hexponent hrest
    | some _ => exact noDigit_cons rfl
  rw [List.append_assoc, List.append_assoc]
  simp only [readParts, readWhole_append hwhole hnone, hfirst exponent rest hexponent hrest,
    hsecond rest hrest, bind, Except.bind]
  rfl

/-- A number begins with a digit or a minus. -/
theorem IsNumber.exists_cons {t : List Char} (h : IsNumber t) :
    ∃ c cs, t = c :: cs ∧ (c = '-' ∨ c.isDigit = true) := by
  obtain ⟨hsign, hwhole, -, -⟩ := h
  obtain ⟨c, cs, rfl, hc⟩ := hwhole.digits.exists_cons
  rcases hsign with rfl | rfl
  · exact ⟨c, _, rfl, .inr hc⟩
  · exact ⟨'-', _, rfl, .inl rfl⟩

private theorem makes_readUnsigned {whole fraction exponent : List Char} (hwhole : IsWhole whole)
    (hfraction : IsFraction fraction) (hexponent : IsExponent exponent) :
    ∃ result, Makes readUnsigned (whole ++ (fraction ++ exponent)) result := by
  obtain ⟨parts, hparts⟩ := readParts_append hwhole hfraction hexponent
  cases hvalue : parts.value with
  | natural n =>
      refine ⟨some (.natural n), fun rest hrest => yields_ok ?_⟩
      simp only [readUnsigned, hparts rest hrest, hvalue, bind, Except.bind]
      rfl
  | other =>
      cases hfinite : parts.finite with
      | true =>
          refine ⟨some .other, fun rest hrest => yields_ok ?_⟩
          simp only [readUnsigned, hparts rest hrest, hvalue, hfinite, bind, Except.bind]
          rfl
      | false =>
          refine ⟨none, fun rest hrest => yields_error (e := .malformed) ?_⟩
          simp only [readUnsigned, hparts rest hrest, hvalue, hfinite, bind, Except.bind]
          rfl

/-- A number without a sign does not begin with a minus. -/
private theorem IsWhole.exists_cons {whole : List Char} (h : IsWhole whole) (rest : List Char) :
    ∃ c cs, whole ++ rest = c :: cs ∧ c ≠ '-' := by
  obtain ⟨c, cs, rfl, hc⟩ := h.digits.exists_cons
  refine ⟨c, cs ++ rest, rfl, ?_⟩
  rintro rfl
  cases hc

/-- A number of any size is skipped. -/
theorem skipNumeral_append {t rest : List Char} (h : IsNumber t) (hrest : Ends rest) :
    skipNumeral (t ++ rest) = .ok rest := by
  obtain ⟨hsign, hwhole, hfraction, hexponent⟩ := h
  obtain ⟨parts, hparts⟩ := readParts_append hwhole hfraction hexponent
  have hparts' := hparts rest hrest
  rcases hsign with rfl | rfl
  · rw [List.nil_append]
    obtain ⟨c, cs, hcons, hminus⟩ := hwhole.exists_cons (_ ++ _ ++ rest)
    rw [← List.append_assoc] at hcons
    rw [hcons] at hparts' ⊢
    unfold skipNumeral
    split
    · rename_i heq
      exact absurd (List.cons.inj heq).1 hminus
    · rw [hparts']
      rfl
  · rw [List.append_assoc, List.cons_append, List.nil_append]
    simp only [skipNumeral, hparts']
    rfl

/-- A number is read to its end, or refused. -/
theorem makes_readNumeral {t : List Char} (h : IsNumber t) :
    ∃ result, Makes readNumeral t result := by
  obtain ⟨hsign, hwhole, hfraction, hexponent⟩ := h
  obtain ⟨result, hmakes⟩ := makes_readUnsigned hwhole hfraction hexponent
  rcases hsign with rfl | rfl
  · refine ⟨result, fun rest hrest => (hmakes rest hrest).congr ?_⟩
    rw [List.nil_append]
    obtain ⟨c, cs, hcons, hminus⟩ := hwhole.exists_cons (_ ++ _ ++ rest)
    rw [← List.append_assoc] at hcons
    rw [hcons]
    unfold readNumeral
    split
    · rename_i heq
      exact absurd (List.cons.inj heq).1 hminus
    · rfl
  · refine ⟨result.bind fun _ => some .other, fun rest hrest => ?_⟩
    have hsigned := (hmakes rest hrest).andThen (fun _ cs => .ok (.other, cs))
      (fun _ => some Numeral.other) fun _ _ => yields_ok rfl
    exact hsigned.congr rfl

/-! ### Strings

There are two relations because there are two ways through a string.  `skipString` passes over
whatever `IsBody` allows, half of a surrogate pair among other things.  `readString` has to make
characters of it, and `Spells` says which they are.
-/

/-- A hexadecimal digit, small or capital, and its value. -/
inductive HexDigit : Char → Nat → Prop where
  | small {n : Nat} (h : n < 16) : HexDigit (Nat.digitChar n) n
  | capital {n : Nat} (h : n < 16) : HexDigit (Nat.digitChar n).toUpper n

/-- Four hexadecimal digits and their value. -/
inductive CodeUnit : List Char → Nat → Prop where
  | digits {a b c d : Char} {i j k l : Nat} (ha : HexDigit a i) (hb : HexDigit b j)
      (hc : HexDigit c k) (hd : HexDigit d l) :
      CodeUnit [a, b, c, d] (i * 4096 + j * 256 + k * 16 + l)

/-- The letters that stand for a character after a backslash. -/
def letters : List (Char × Char) :=
  [('"', '"'), ('\\', '\\'), ('/', '/'), ('b', '\x08'), ('f', '\x0c'), ('n', '\n'), ('r', '\r'),
    ('t', '\t')]

/-- A character that stands for itself. -/
structure IsPlain (c : Char) : Prop where
  quote : c ≠ '"'
  backslash : c ≠ '\\'
  control : 32 ≤ c.toNat

instance (c : Char) : Decidable (IsPlain c) :=
  decidable_of_iff (c ≠ '"' ∧ c ≠ '\\' ∧ 32 ≤ c.toNat)
    ⟨fun ⟨h, h1, h2⟩ => ⟨h, h1, h2⟩, fun ⟨h, h1, h2⟩ => ⟨h, h1, h2⟩⟩

/-- What may stand between the quotes of a string. -/
inductive IsBody : List Char → Prop where
  | nil : IsBody []
  | plain {c : Char} {t : List Char} (hc : IsPlain c) (rest : IsBody t) : IsBody (c :: t)
  | letter {l c : Char} {t : List Char} (hl : (l, c) ∈ letters) (rest : IsBody t) :
      IsBody ('\\' :: l :: t)
  | code {unit t : List Char} {n : Nat} (hunit : CodeUnit unit n) (rest : IsBody t) :
      IsBody ('\\' :: 'u' :: (unit ++ t))

/-- The text that is written between the quotes of a string.  A character may be written as
its number, and one whose number needs more than four digits as the two halves of a pair. -/
inductive Spells : List Char → List Char → Prop where
  | nil : Spells [] []
  | plain {c : Char} {t s : List Char} (hc : IsPlain c) (rest : Spells t s) :
      Spells (c :: t) (c :: s)
  | letter {l c : Char} {t s : List Char} (hl : (l, c) ∈ letters) (rest : Spells t s) :
      Spells ('\\' :: l :: t) (c :: s)
  | code {unit t s : List Char} {c : Char} (hunit : CodeUnit unit c.toNat) (rest : Spells t s) :
      Spells ('\\' :: 'u' :: (unit ++ t)) (c :: s)
  | pair {high low t s : List Char} {c : Char} (hc : 0x10000 ≤ c.toNat)
      (hhigh : CodeUnit high (0xD800 + (c.toNat - 0x10000) / 0x400))
      (hlow : CodeUnit low (0xDC00 + (c.toNat - 0x10000) % 0x400)) (rest : Spells t s) :
      Spells ('\\' :: 'u' :: (high ++ ('\\' :: 'u' :: (low ++ t)))) (c :: s)

theorem Spells.isBody {t s : List Char} (h : Spells t s) : IsBody t := by
  induction h with
  | nil => exact .nil
  | plain hc _ ih => exact .plain hc ih
  | letter hl _ ih => exact .letter hl ih
  | code hunit _ ih => exact .code hunit ih
  | pair _ hhigh hlow _ ih => exact .code hhigh (.code hlow ih)

/-- Plain characters are written as they are. -/
theorem Spells.plain_append {plain t s : List Char} (h : ∀ c ∈ plain, IsPlain c)
    (rest : Spells t s) : Spells (plain ++ t) (plain ++ s) := by
  induction plain with
  | nil => exact rest
  | cons c plain ih =>
      exact .plain (h c List.mem_cons_self) (ih fun d hd => h d (List.mem_cons_of_mem _ hd))

theorem spells_self {t : List Char} (h : ∀ c ∈ t, IsPlain c) : Spells t t := by
  have hself := Spells.nil.plain_append h
  rwa [List.append_nil] at hself

private theorem hexValue?_digitChar : ∀ n < 16, hexValue? (Nat.digitChar n) = some n := by decide

private theorem hexValue?_of_hexDigit {c : Char} {n : Nat} (h : HexDigit c n) :
    hexValue? c = some n := by
  cases h with
  | small h => exact hexValue?_digitChar n h
  | capital h =>
      have hcapital : ∀ n < 16, hexValue? (Nat.digitChar n).toUpper = some n := by decide
      exact hcapital n h

private theorem hexValue4?_of_codeUnit {a b c d : Char} {n : Nat} (h : CodeUnit [a, b, c, d] n) :
    hexValue4? a b c d = some n := by
  obtain ⟨ha, hb, hc, hd⟩ := h
  unfold hexValue4?
  rw [hexValue?_of_hexDigit ha, hexValue?_of_hexDigit hb, hexValue?_of_hexDigit hc,
    hexValue?_of_hexDigit hd]
  rfl

theorem CodeUnit.exists_eq {unit : List Char} {n : Nat} (h : CodeUnit unit n) :
    ∃ a b c d, unit = [a, b, c, d] ∧ hexValue4? a b c d = some n := by
  cases h with
  | @digits a b c d _ _ _ _ ha hb hc hd =>
      exact ⟨a, b, c, d, rfl, hexValue4?_of_codeUnit (.digits ha hb hc hd)⟩

private theorem escapeValue?_of_letters :
    ∀ p ∈ letters, escapeValue? p.1 = some p.2 ∧ p.1 ≠ 'u' := by decide

/-- What may stand in a string is skipped. -/
theorem skipString_append {t : List Char} (h : IsBody t) (rest : List Char) :
    skipString (t ++ '"' :: rest) = .ok rest := by
  induction h with
  | nil => rfl
  | @plain c t hc _ ih =>
      rw [List.cons_append, skipString]
      · rw [if_neg (Nat.not_lt.mpr hc.control), ih]
      · exact hc.quote
      all_goals
        intros
        exact hc.backslash (by assumption)
  | @letter l c t hl _ ih =>
      obtain ⟨hvalue, hu⟩ := escapeValue?_of_letters _ hl
      rw [List.cons_append, List.cons_append, skipString]
      · rw [hvalue, ih]
        rfl
      all_goals
        intros
        contradiction
  | @code unit t n hunit _ ih =>
      obtain ⟨a, b, c, d, rfl, hvalue⟩ := hunit.exists_eq
      show skipString ('\\' :: 'u' :: a :: b :: c :: d :: (t ++ '"' :: rest)) = _
      rw [skipString, hvalue, ih]
      rfl

/-- A letter after a backslash is read as the character it stands for. -/
private theorem readString_letter {letter c : Char} (h : escapeValue? letter = some c)
    (rest : List Char) :
    readString ('\\' :: letter :: rest) = consChar c (readString rest) := by
  have hu : letter ≠ 'u' := by
    rintro rfl
    cases h
  rw [readString]
  · rw [h]
  all_goals
    intros
    contradiction

/-- A character that needs no escape is read as it is. -/
private theorem readString_plain {c : Char} (hquote : c ≠ '"') (hback : c ≠ '\\')
    (hc : ¬ c.toNat < 32) (rest : List Char) :
    readString (c :: rest) = consChar c (readString rest) := by
  rw [readString]
  · rw [if_neg hc]
  · exact hquote
  all_goals
    intros
    contradiction

/-- A character written as its number is read back. -/
private theorem readString_code {a b c d x : Char} (h : hexValue4? a b c d = some x.toNat)
    (rest : List Char) :
    readString ('\\' :: 'u' :: a :: b :: c :: d :: rest) = consChar x (readString rest) := by
  have hvalid : x.toNat < 0xD800 ∨ (0xDFFF < x.toNat ∧ x.toNat < 0x110000) := x.valid
  have hlow : isLowSurrogate x.toNat = false := by
    unfold isLowSurrogate
    simp only [Bool.and_eq_false_iff, decide_eq_false_iff_not]
    omega
  have hhigh : isHighSurrogate x.toNat = false := by
    unfold isHighSurrogate
    simp only [Bool.and_eq_false_iff, decide_eq_false_iff_not]
    omega
  rw [readString]
  simp only [h, hlow, hhigh, Bool.false_eq_true, if_false, Char.ofNat_toNat]

/-- A character written as a pair is read back. -/
private theorem readString_pair {a b c d e f g h x : Char} (hx : 0x10000 ≤ x.toNat)
    (hhigh : hexValue4? a b c d = some (0xD800 + (x.toNat - 0x10000) / 0x400))
    (hlow : hexValue4? e f g h = some (0xDC00 + (x.toNat - 0x10000) % 0x400)) (rest : List Char) :
    readString ('\\' :: 'u' :: a :: b :: c :: d :: '\\' :: 'u' :: e :: f :: g :: h :: rest)
      = consChar x (readString rest) := by
  have hvalid : x.toNat < 0xD800 ∨ (0xDFFF < x.toNat ∧ x.toNat < 0x110000) := x.valid
  have hfirst : isLowSurrogate (0xD800 + (x.toNat - 0x10000) / 0x400) = false
      ∧ isHighSurrogate (0xD800 + (x.toNat - 0x10000) / 0x400) = true := by
    unfold isLowSurrogate isHighSurrogate
    simp only [Bool.and_eq_false_iff, decide_eq_false_iff_not, Bool.and_eq_true, decide_eq_true_eq]
    omega
  have hsecond : isLowSurrogate (0xDC00 + (x.toNat - 0x10000) % 0x400) = true := by
    unfold isLowSurrogate
    simp only [Bool.and_eq_true, decide_eq_true_eq]
    omega
  have hvalue : pairValue (0xD800 + (x.toNat - 0x10000) / 0x400)
      (0xDC00 + (x.toNat - 0x10000) % 0x400) = x := by
    have hnumber : 0x10000 + (0xD800 + (x.toNat - 0x10000) / 0x400 - 0xD800) * 0x400
        + (0xDC00 + (x.toNat - 0x10000) % 0x400 - 0xDC00) = x.toNat := by omega
    unfold pairValue
    rw [hnumber, Char.ofNat_toNat]
  rw [readString]
  simp only [hhigh, hfirst, hlow, hsecond, hvalue, Bool.false_eq_true, if_false, if_true]

/-- A string is read as the text that is written in it. -/
theorem readString_append {t s : List Char} (h : Spells t s) (rest : List Char) :
    readString (t ++ '"' :: rest) = .ok (s, rest) := by
  induction h with
  | nil => rfl
  | @plain c t s hc _ ih =>
      rw [List.cons_append, readString_plain hc.quote hc.backslash (Nat.not_lt.mpr hc.control), ih]
      rfl
  | @letter l c t s hl _ ih =>
      rw [List.cons_append, List.cons_append,
        readString_letter (escapeValue?_of_letters _ hl).1, ih]
      rfl
  | @code unit t s x hunit _ ih =>
      obtain ⟨a, b, c, d, rfl, hvalue⟩ := hunit.exists_eq
      show readString ('\\' :: 'u' :: a :: b :: c :: d :: (t ++ '"' :: rest)) = _
      rw [readString_code hvalue, ih]
      rfl
  | @pair high low t s x hx hhigh hlow _ ih =>
      obtain ⟨a, b, c, d, rfl, hfirst⟩ := hhigh.exists_eq
      obtain ⟨e, f, g, h, rfl, hsecond⟩ := hlow.exists_eq
      show readString ('\\' :: 'u' :: a :: b :: c :: d :: '\\' :: 'u' :: e :: f :: g :: h
        :: (t ++ '"' :: rest)) = _
      rw [readString_pair hx hfirst hsecond, ih]
      rfl

/-! ### Strings that are written -/

private theorem codeUnit_control {c : Char} (hc : c.toNat < 32) :
    CodeUnit ['0', '0', Nat.digitChar (c.toNat / 16), Nat.digitChar (c.toNat % 16)] c.toNat := by
  have h := CodeUnit.digits (.small (n := 0) (by decide)) (.small (n := 0) (by decide))
    (.small (n := c.toNat / 16) (by omega)) (.small (n := c.toNat % 16) (by omega))
  have hvalue : 0 * 4096 + 0 * 256 + c.toNat / 16 * 16 + c.toNat % 16 = c.toNat := by omega
  rwa [hvalue] at h

/-- However a character is written, it stands for itself. -/
private theorem Spells.escapeChar {t s : List Char} (c : Char) (rest : Spells t s) :
    Spells (escapeChar c ++ t) (c :: s) := by
  unfold Json.escapeChar
  split_ifs with hquote hback _ _ _ _ _ hcontrol
  -- those with a letter of their own
  iterate 7
    · subst c
      exact .letter (by decide) rest
  · exact .code (codeUnit_control hcontrol) rest
  · exact .plain ⟨hquote, hback, Nat.not_lt.mp hcontrol⟩ rest

/-- What is written between the quotes of a string is a spelling of it. -/
theorem spells_escaped (s : List Char) : Spells (s.flatMap escapeChar) s := by
  induction s with
  | nil => exact .nil
  | cons c s ih => exact ih.escapeChar c

/-- However a character is written, it is read back. -/
theorem readString_escapeChar (c : Char) (rest : List Char) :
    readString (escapeChar c ++ rest) = consChar c (readString rest) := by
  unfold escapeChar
  split_ifs with hquote hback _ _ _ _ _ hcontrol
  -- those with a letter of their own
  iterate 7
    · subst c
      exact readString_letter rfl rest
  · exact readString_code (hexValue4?_of_codeUnit (codeUnit_control hcontrol)) rest
  · exact readString_plain hquote hback hcontrol rest

theorem quote_append (s rest : List Char) :
    quote s ++ rest = '"' :: (s.flatMap escapeChar ++ '"' :: rest) := by
  simp [quote]

/-- Every string is read back. -/
theorem readString_quote (s rest : List Char) :
    readString (s.flatMap escapeChar ++ '"' :: rest) = .ok (s, rest) :=
  readString_append (spells_escaped s) rest

/-! ### Values

Values, items and members are one relation with an index, so that a single induction goes through
arrays and objects in each other to any depth.
-/

/-- The kinds of text in the grammar of values. -/
inductive Part where
  | value
  /-- The items of an array after its opening bracket, with the closing one. -/
  | items
  /-- The members of an object after its opening bracket, with the closing one. -/
  | members

/-- The name of a member and the colon after it. -/
inductive IsName : List Char → Prop where
  | quoted {before name after : List Char} (hbefore : Spaces before) (hname : IsBody name)
      (hafter : Spaces after) : IsName (before ++ '"' :: (name ++ '"' :: (after ++ [':'])))

/-- The texts of each kind. -/
inductive IsPart : Part → List Char → Prop where
  | null : IsPart .value ['n', 'u', 'l', 'l']
  | true : IsPart .value ['t', 'r', 'u', 'e']
  | false : IsPart .value ['f', 'a', 'l', 's', 'e']
  | number {t : List Char} (h : IsNumber t) : IsPart .value t
  | string {t : List Char} (h : IsBody t) : IsPart .value ('"' :: (t ++ ['"']))
  | emptyArray {gap : List Char} (hgap : Spaces gap) : IsPart .value ('[' :: (gap ++ [']']))
  | array {t : List Char} (h : IsPart .items t) : IsPart .value ('[' :: t)
  | emptyObject {gap : List Char} (hgap : Spaces gap) :
      IsPart .value ('\x7b' :: (gap ++ ['\x7d']))
  | object {t : List Char} (h : IsPart .members t) : IsPart .value ('\x7b' :: t)
  | lastItem {before v after : List Char} (hbefore : Spaces before) (hv : IsPart .value v)
      (hafter : Spaces after) : IsPart .items (before ++ (v ++ (after ++ [']'])))
  | item {before v after rest : List Char} (hbefore : Spaces before) (hv : IsPart .value v)
      (hafter : Spaces after) (hrest : IsPart .items rest) :
      IsPart .items (before ++ (v ++ (after ++ ',' :: rest)))
  | lastMember {name before v after : List Char} (hname : IsName name) (hbefore : Spaces before)
      (hv : IsPart .value v) (hafter : Spaces after) :
      IsPart .members (name ++ (before ++ (v ++ (after ++ ['\x7d']))))
  | member {name before v after rest : List Char} (hname : IsName name) (hbefore : Spaces before)
      (hv : IsPart .value v) (hafter : Spaces after) (hrest : IsPart .members rest) :
      IsPart .members (name ++ (before ++ (v ++ (after ++ ',' :: rest))))

/-- The text of a value of any kind and depth. -/
abbrev IsValue (t : List Char) : Prop := IsPart .value t

/-- A value does not begin with white space or a closing bracket. -/
theorem exists_cons_of_isValue {t : List Char} (h : IsValue t) :
    ∃ c cs, t = c :: cs ∧ isSpace c = false ∧ c ≠ ']' ∧ c ≠ '\x7d' := by
  cases h with
  | number h =>
      obtain ⟨c, cs, rfl, rfl | hc⟩ := h.exists_cons
      · exact ⟨_, _, rfl, by decide⟩
      · refine ⟨_, _, rfl, isSpace_of_isDigit hc, ?_, ?_⟩
        · rintro rfl
          cases hc
        · rintro rfl
          cases hc
  | _ => exact ⟨_, _, rfl, by decide⟩

/-- A value that begins like a number is one. -/
theorem isNumber_of_isValue {c : Char} {cs : List Char} (h : IsValue (c :: cs))
    (hc : c = '-' ∨ c.isDigit = true) : IsNumber (c :: cs) := by
  cases h with
  | number h => exact h
  | _ => exact absurd hc (by decide)

end Json

end SamplingProfiler
