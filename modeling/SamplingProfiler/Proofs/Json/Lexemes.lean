/-
White space is skipped, and numbers are read back as they were written.

What is written is followed by something: a comma, a bracket, white space or nothing.  A
number has no end of its own, so what follows must not carry it on (`Ends`).
-/
import SamplingProfiler.Json.Basic
import SamplingProfiler.Json.Lexeme

namespace SamplingProfiler

namespace Json

/-! ### White space -/

/-- Is this nothing but white space? -/
def Spaces (cs : List Char) : Prop := ∀ c ∈ cs, isSpace c = true

theorem spaces_nil : Spaces [] := by
  intro c hc
  cases hc

theorem Spaces.cons {c : Char} {cs : List Char} (hc : isSpace c = true) (h : Spaces cs) :
    Spaces (c :: cs) := by
  intro x hx
  rcases List.mem_cons.mp hx with rfl | hx
  · exact hc
  · exact h x hx

@[simp] theorem skipSpace_append {before : List Char} (h : Spaces before) (rest : List Char) :
    skipSpace (before ++ rest) = skipSpace rest := List.dropWhile_append_of_pos h

theorem skipSpace_eq_nil {text : List Char} (h : Spaces text) : skipSpace text = [] := by
  rw [← List.append_nil text, skipSpace_append h]
  rfl

@[simp] theorem skipSpace_cons {c : Char} (h : isSpace c = false) (rest : List Char) :
    skipSpace (c :: rest) = c :: rest := List.dropWhile_cons_of_neg (by rw [h]; exact Bool.false_ne_true)

/-! ### Numbers -/

/-- Can this come after a number?  A digit, a point or an exponent would carry it on. -/
def Ends (rest : List Char) : Prop :=
  ∀ c cs, rest = c :: cs → c.isDigit = false ∧ c ≠ '.' ∧ c ≠ 'e' ∧ c ≠ 'E'

theorem ends_nil : Ends [] := by
  intro c cs h
  cases h

theorem ends_cons {c : Char} {rest : List Char} (hdigit : c.isDigit = false) (hpoint : c ≠ '.')
    (he : c ≠ 'e') (hE : c ≠ 'E') : Ends (c :: rest) := by
  intro x cs h
  obtain ⟨rfl, -⟩ := List.cons.inj h
  exact ⟨hdigit, hpoint, he, hE⟩

/-- White space ends a number. -/
theorem ends_of_isSpace {c : Char} {rest : List Char} (h : isSpace c = true) :
    Ends (c :: rest) := by
  unfold isSpace at h
  simp only [Bool.or_eq_true, beq_iff_eq] at h
  rcases h with ((rfl | rfl) | rfl) | rfl <;> exact ends_cons rfl (by decide) (by decide) (by decide)

theorem Spaces.ends_append {before rest : List Char} (h : Spaces before) (hrest : Ends rest) :
    Ends (before ++ rest) := by
  cases before with
  | nil => exact hrest
  | cons c before => exact ends_of_isSpace (h c List.mem_cons_self)

/-! ### Digits

That a number is read to its end takes two facts about its digits.  They are followed by none, so
the run of digits that is split off is the whole number.  And they do not begin with a zero, unless
that is all there is.
-/

/-- Is there no digit at the front? -/
def NoDigit (rest : List Char) : Prop := ∀ c cs, rest = c :: cs → c.isDigit = false

theorem Ends.noDigit {rest : List Char} (h : Ends rest) : NoDigit rest :=
  fun c cs hcons => (h c cs hcons).1

theorem noDigit_cons {c : Char} {cs : List Char} (h : c.isDigit = false) : NoDigit (c :: cs) := by
  intro d ds hcons
  obtain ⟨rfl, -⟩ := List.cons.inj hcons
  exact h

theorem spanDigits_append {digits rest : List Char} (hdigits : ∀ c ∈ digits, c.isDigit = true)
    (hrest : NoDigit rest) : spanDigits (digits ++ rest) = (digits, rest) := by
  have hnone : rest.takeWhile Char.isDigit = [] ∧ rest.dropWhile Char.isDigit = rest := by
    cases rest with
    | nil => exact ⟨rfl, rfl⟩
    | cons c cs => simp [hrest c cs rfl]
  unfold spanDigits
  rw [List.takeWhile_append_of_pos hdigits, List.dropWhile_append_of_pos hdigits, hnone.1,
    hnone.2, List.append_nil]

/-- One digit or more. -/
structure IsDigits (t : List Char) : Prop where
  nonempty : t ≠ []
  digits : ∀ c ∈ t, c.isDigit = true

/-- The digits before the point.  A zero in front stands alone. -/
structure IsWhole (t : List Char) : Prop where
  digits : IsDigits t
  zero : ∀ cs, t = '0' :: cs → cs = []

theorem IsDigits.exists_cons {t : List Char} (h : IsDigits t) :
    ∃ c cs, t = c :: cs ∧ c.isDigit = true := by
  obtain ⟨c, cs, rfl⟩ := List.exists_cons_of_ne_nil h.nonempty
  exact ⟨c, cs, rfl, h.digits c List.mem_cons_self⟩

theorem isSpace_of_isDigit {c : Char} (hc : c.isDigit = true) : isSpace c = false := by
  unfold isSpace
  simp only [Bool.or_eq_false_iff, beq_eq_false_iff_ne]
  refine ⟨⟨⟨?_, ?_⟩, ?_⟩, ?_⟩ <;> (rintro rfl; cases hc)

/-- Only zero begins with a zero. -/
private theorem head_toDigits {n : Nat} (hn : 0 < n) : (Nat.toDigits 10 n).head? ≠ some '0' := by
  induction n using Nat.strongRecOn with
  | ind n ih =>
      rw [Nat.toDigits_eq_if (by decide)]
      by_cases hsmall : n < 10
      · have hdigit : ∀ n < 10, 0 < n → Nat.digitChar n ≠ '0' := by decide
        rw [if_pos hsmall]
        simpa using hdigit n hsmall hn
      · have hfront := ih (n / 10) (by omega) (by omega)
        obtain ⟨c, cs, h⟩ := List.exists_cons_of_ne_nil (Nat.toDigits_ne_nil (b := 10) (n := n / 10))
        rw [h] at hfront
        rw [if_neg hsmall, h]
        exact hfront

/-- The digits of a number. -/
theorem isWhole_toDigits (n : Nat) : IsWhole (Nat.toDigits 10 n) := by
  refine ⟨⟨Nat.toDigits_ne_nil, fun c hc => ?_⟩, fun cs h => ?_⟩
  · exact Nat.isDigit_of_mem_toDigits (b := 10) (by decide) (by decide) hc
  · by_cases hn : 0 < n
    · exact absurd (by rw [h]; rfl) (head_toDigits hn)
    · obtain rfl : n = 0 := by omega
      exact (List.cons.inj h).2.symm

/-- A number begins with a digit. -/
theorem exists_toDigits_eq (n : Nat) :
    ∃ c cs, Nat.toDigits 10 n = c :: cs ∧ c.isDigit = true :=
  (isWhole_toDigits n).digits.exists_cons

theorem readDigits_append {digits rest : List Char} (h : IsDigits digits)
    (hrest : NoDigit rest) : readDigits (digits ++ rest) = .ok (digits, rest) := by
  obtain ⟨c, cs, rfl, -⟩ := h.exists_cons
  unfold readDigits
  rw [spanDigits_append h.digits hrest]

theorem readWhole_append {whole rest : List Char} (h : IsWhole whole)
    (hrest : NoDigit rest) : readWhole (whole ++ rest) = .ok (whole, rest) := by
  simp only [readWhole, readDigits_append h.digits hrest, bind, Except.bind]
  split
  · rename_i c cs
    exact absurd (h.zero (c :: cs) rfl) (List.cons_ne_nil c cs)
  · rfl

theorem readFraction_of_ends {rest : List Char} (hrest : Ends rest) :
    readFraction rest = .ok (none, rest) := by
  unfold readFraction
  split
  · exact absurd rfl (hrest _ _ rfl).2.1
  · rfl

theorem readExponent_of_ends {rest : List Char} (hrest : Ends rest) :
    readExponent rest = .ok (none, rest) := by
  unfold readExponent
  split
  · rename_i c cs
    obtain ⟨-, -, he, hE⟩ := hrest c cs rfl
    rw [if_neg (by simp [he, hE])]
  · rfl

/-- A number of at most 64 bits is read back. -/
theorem readNumeral_toDigits {n : Nat} (hn : n ≤ maxWord) {rest : List Char} (hrest : Ends rest) :
    readNumeral (Nat.toDigits 10 n ++ rest) = .ok (.natural n, rest) := by
  have hparts : readParts (Nat.toDigits 10 n ++ rest)
      = .ok (⟨Nat.toDigits 10 n, none, none⟩, rest) := by
    simp only [readParts, readWhole_append (isWhole_toDigits n) hrest.noDigit,
      readFraction_of_ends hrest, readExponent_of_ends hrest, bind, Except.bind, pure, Except.pure]
  have hvalue : NumeralParts.value ⟨Nat.toDigits 10 n, none, none⟩ = .natural n := by
    unfold NumeralParts.value
    simp only [Nat.ofDigitChars_toDigits (b := 10) (by decide) (by decide), if_pos hn]
  obtain ⟨c, cs, h, hc⟩ := exists_toDigits_eq n
  have hminus : c ≠ '-' := by
    rintro rfl
    cases hc
  have hunsigned : readNumeral (Nat.toDigits 10 n ++ rest)
      = readUnsigned (Nat.toDigits 10 n ++ rest) := by
    rw [h]
    unfold readNumeral
    split
    · rename_i heq
      exact absurd (List.cons.inj heq).1 hminus
    · rfl
  rw [hunsigned]
  simp only [readUnsigned, hparts, hvalue, bind, Except.bind, pure, Except.pure]

end Json

end SamplingProfiler
