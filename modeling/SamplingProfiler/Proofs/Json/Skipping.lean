/-
A value that nobody wants is skipped to its end and no further.

Skipping goes from place to place and keeps the brackets that are open.  The argument is an
induction on the grammar: from before a value, whatever brackets are open around it, the
rounds lead to behind the value with the same brackets open (`Leads`).  A bracket that the
value opens is closed by the text that the grammar puts behind its items, so it never comes
to what is around the value.

Every round takes something off the text, so rounds that outnumber the characters of the
text do not run out.
-/
import SamplingProfiler.Json.Reader
import SamplingProfiler.Proofs.Json.Grammar

namespace SamplingProfiler

namespace Json

/-- How closely a value is looked at that nobody wants. -/
private abbrev loose : Scrutiny := ⟨false, none⟩

private theorem loose_allows (opened : List Bracket) : loose.allows opened = true := rfl

/-! ### From place to place -/

/-- Do rounds, if they outnumber the characters, lead from one place in a text to another? -/
private def Leads (state : Place × List Bracket) (text : List Char)
    (next : Place × List Bracket) (rest : List Char) : Prop :=
  ∀ fuel, text.length < fuel → ∃ left, rest.length < left
    ∧ rounds (passRound loose) fuel state text = rounds (passRound loose) left next rest

private theorem Leads.trans {state next last : Place × List Bracket} {text rest end_ : List Char}
    (first : Leads state text next rest) (second : Leads next rest last end_) :
    Leads state text last end_ := by
  intro fuel hfuel
  obtain ⟨left, hleft, heq⟩ := first fuel hfuel
  obtain ⟨less, hless, heq'⟩ := second left hleft
  exact ⟨less, hless, heq.trans heq'⟩

/-- One round leads on, if it takes something off the text. -/
private theorem leads_of_round {state next : Place × List Bracket} {text rest : List Char}
    (h : passRound loose state text = .ok (.more next, rest)) (hless : rest.length < text.length) :
    Leads state text next rest := by
  intro fuel hfuel
  obtain ⟨left, rfl⟩ := Nat.exists_eq_add_one.mpr (Nat.zero_lt_of_lt hfuel)
  refine ⟨left, by omega, ?_⟩
  rw [rounds, h]

private theorem leads_of_opening {opened : List Bracket} {next : Place × List Bracket}
    {text rest : List Char} (h : passOpening loose opened text = .ok (next, rest))
    (hless : rest.length < text.length) : Leads (.value, opened) text next rest := by
  refine leads_of_round ?_ hless
  simp only [passRound, h, bind, Except.bind]
  rfl

private theorem leads_of_between {inner : Bracket} {outer : List Bracket}
    {next : Place × List Bracket} {text rest : List Char}
    (h : passBetween loose inner outer text = .ok (next, rest))
    (hless : rest.length < text.length) : Leads (.after, inner :: outer) text next rest := by
  refine leads_of_round ?_ hless
  simp only [passRound, h, bind, Except.bind]
  rfl

/-- Before a value, white space makes no difference. -/
private theorem Leads.skipSpace {opened : List Bracket} {next : Place × List Bracket}
    {gap text rest : List Char} (hgap : Spaces gap) (h : Leads (.value, opened) text next rest) :
    Leads (.value, opened) (gap ++ text) next rest := by
  intro fuel hfuel
  rw [List.length_append] at hfuel
  obtain ⟨left, hleft, heq⟩ := h fuel (by omega)
  refine ⟨left, hleft, ?_⟩
  obtain ⟨fuel, rfl⟩ := Nat.exists_eq_add_one.mpr (Nat.zero_lt_of_lt hfuel)
  have hround : passRound loose (.value, opened) (gap ++ text)
      = passRound loose (.value, opened) text := by
    simp only [passRound, passOpening, skipSpace_append hgap]
  rw [← heq, rounds, rounds, hround]

/-! ### Scalars and brackets -/

section

variable {opened outer : List Bracket} {before gap after : List Char}

private theorem passOpening_string {t : List Char} (h : IsBody t) :
    passOpening loose opened ('"' :: (t ++ ['"']) ++ after) = .ok ((.after, opened), after) := by
  have hquote : isSpace '"' = false := rfl
  have hstring : passString loose (t ++ ['"'] ++ after) = .ok after := by
    rw [List.append_assoc]
    exact skipString_append h after
  simp only [List.cons_append, passOpening, skipSpace_cons hquote, hstring, bind, Except.bind]
  rfl

private theorem passOpening_number {t : List Char} (h : IsNumber t) (hafter : Ends after) :
    passOpening loose opened (t ++ after) = .ok ((.after, opened), after) := by
  have hskip := skipNumeral_append h hafter
  obtain ⟨c, cs, rfl, hc⟩ := h.exists_cons
  have hspace : isSpace c = false := by
    rcases hc with rfl | hc
    · rfl
    · exact isSpace_of_isDigit hc
  have hletter : literalRest c = none := by
    unfold literalRest
    -- the letters of literals are neither digits nor the minus
    split
    all_goals first | rfl | exact absurd hc (by decide)
  rw [List.cons_append] at hskip ⊢
  unfold passOpening
  rw [skipSpace_cons hspace]
  split
  · contradiction
  · rename_i heq
    obtain ⟨rfl, -⟩ := List.cons.inj heq
    exact absurd hc (by decide)
  · rename_i heq
    obtain ⟨rfl, -⟩ := List.cons.inj heq
    exact absurd hc (by decide)
  · rename_i heq
    obtain ⟨rfl, -⟩ := List.cons.inj heq
    exact absurd hc (by decide)
  · rename_i heq
    obtain ⟨rfl, rfl⟩ := List.cons.inj heq
    have hpass : passNumeral loose (c :: (cs ++ after)) = .ok after := hskip
    simp only [hletter, if_pos hc, hpass, bind, Except.bind]
    rfl

private theorem passBetween_close (inner : Bracket) (hgap : Spaces gap) :
    passBetween loose inner outer (gap ++ inner.close :: after) = .ok ((.after, outer), after) := by
  unfold passBetween
  rw [skipSpace_append hgap]
  cases inner <;> rfl

private theorem passBetween_item (hgap : Spaces gap) :
    passBetween loose .square outer (gap ++ ',' :: after)
      = .ok ((.value, .square :: outer), after) := by
  unfold passBetween
  rw [skipSpace_append hgap]
  rfl

/-- A name is passed over with its colon, after white space or at its quote. -/
private theorem passName_append {name : List Char} (h : IsName name) (rest : List Char) :
    ∃ cs, skipSpace (name ++ rest) = '"' :: cs ∧ passName loose (name ++ rest) = .ok rest
      ∧ passName loose ('"' :: cs) = .ok rest := by
  obtain ⟨hbefore, hname, hafter⟩ := h
  rename_i before name after
  have hquote : isSpace '"' = false := rfl
  have hcolon : isSpace ':' = false := rfl
  have htext : before ++ '"' :: (name ++ '"' :: (after ++ [':'])) ++ rest
      = before ++ '"' :: (name ++ '"' :: (after ++ ':' :: rest)) := by simp
  have hstring : passString loose (name ++ '"' :: (after ++ ':' :: rest))
      = .ok (after ++ ':' :: rest) := skipString_append hname _
  have hpass : passName loose ('"' :: (name ++ '"' :: (after ++ ':' :: rest))) = .ok rest := by
    simp only [passName, skipSpace_cons hquote, hstring, bind, Except.bind,
      skipSpace_append hafter, skipSpace_cons hcolon]
  refine ⟨_, ?_, ?_, hpass⟩
  · rw [htext, skipSpace_append hbefore, skipSpace_cons hquote]
  · rw [htext, ← hpass]
    simp only [passName, skipSpace_append hbefore]

private theorem passBetween_member (hgap : Spaces gap) {name : List Char} (h : IsName name) :
    passBetween loose .curly outer (gap ++ ',' :: (name ++ after))
      = .ok ((.value, .curly :: outer), after) := by
  obtain ⟨-, -, hpass, -⟩ := passName_append h after
  have hcomma : isSpace ',' = false := rfl
  simp only [passBetween, skipSpace_append hgap, skipSpace_cons hcomma, hpass, bind, Except.bind]
  rfl

end

/-! ### Values -/

/-- Is the text passed over?  Of items and members this says how they begin too, since the round
that opens their bracket looks that far. -/
private def Passes : Part → List Char → Prop
  | .value, t => ∀ opened after, Ends after →
      Leads (.value, opened) (t ++ after) (.after, opened) after
  | .items, t => ∃ before c cs, t = before ++ c :: cs ∧ Spaces before ∧ isSpace c = false ∧ c ≠ ']'
      ∧ ∀ outer after, Leads (.value, .square :: outer) (c :: cs ++ after) (.after, outer) after
  | .members, t => ∃ name body, t = name ++ body ∧ IsName name
      ∧ ∀ outer after, Leads (.value, .curly :: outer) (body ++ after) (.after, outer) after

section

variable {opened outer : List Bracket} {before v gap rest after : List Char}

private theorem leads_scalar (hne : v ≠ [])
    (hopen : passOpening loose opened (v ++ after) = .ok ((.after, opened), after)) :
    Leads (.value, opened) (v ++ after) (.after, opened) after := by
  refine leads_of_opening hopen ?_
  have hpos := List.length_pos_iff.mpr hne
  rw [List.length_append]
  omega

private theorem leads_array (h : Passes .items rest) :
    Leads (.value, opened) ('[' :: rest ++ after) (.after, opened) after := by
  obtain ⟨before, c, cs, rfl, hbefore, hspace, hclose, hlead⟩ := h
  have hbracket : isSpace '[' = false := rfl
  have hopen : passOpening loose opened ('[' :: (before ++ c :: cs) ++ after)
      = .ok ((.value, .square :: opened), c :: cs ++ after) := by
    rw [List.cons_append, List.append_assoc, List.cons_append]
    simp only [passOpening, skipSpace_cons hbracket, loose_allows, Bool.not_true,
      Bool.false_eq_true, if_false, skipSpace_append hbefore, skipSpace_cons hspace]
    split
    · contradiction
    · rename_i heq
      exact absurd (List.cons.inj heq).1 hclose
    · rfl
  refine (leads_of_opening hopen ?_).trans (hlead opened after)
  simp only [List.length_cons, List.length_append]
  omega

private theorem leads_object (h : Passes .members rest) :
    Leads (.value, opened) ('\x7b' :: rest ++ after) (.after, opened) after := by
  obtain ⟨name, body, rfl, hname, hlead⟩ := h
  obtain ⟨cs, hquote, -, hpass⟩ := passName_append hname (body ++ after)
  have hbrace : isSpace '\x7b' = false := rfl
  have hopen : passOpening loose opened ('\x7b' :: (name ++ body) ++ after)
      = .ok ((.value, .curly :: opened), body ++ after) := by
    rw [List.cons_append, List.append_assoc]
    simp only [passOpening, skipSpace_cons hbrace, loose_allows, Bool.not_true,
      Bool.false_eq_true, if_false, hquote]
    split
    · contradiction
    · rename_i heq
      exact absurd (List.cons.inj heq).1 (by decide)
    · rw [hpass]
      rfl
  refine (leads_of_opening hopen ?_).trans (hlead opened after)
  simp only [List.length_cons, List.length_append]
  omega

private theorem leads_empty (inner : Bracket) {c : Char}
    (hopen : passOpening loose opened (c :: (gap ++ inner.close :: after))
      = .ok ((.after, opened), after)) :
    Leads (.value, opened) (c :: (gap ++ [inner.close]) ++ after) (.after, opened) after := by
  have htext : c :: (gap ++ [inner.close]) ++ after = c :: (gap ++ inner.close :: after) := by simp
  rw [htext]
  refine leads_of_opening hopen ?_
  simp only [List.length_cons, List.length_append]
  omega

/-- From a value on to the bracket that closes what it is in. -/
private theorem leads_last (inner : Bracket) (hv : Passes .value v) (hgap : Spaces gap) :
    Leads (.value, inner :: outer) (v ++ (gap ++ inner.close :: after)) (.after, outer) after := by
  have hends : Ends (gap ++ inner.close :: after) := by
    refine hgap.ends_append ?_
    cases inner <;> exact ends_cons rfl (by decide) (by decide) (by decide)
  refine (hv (inner :: outer) _ hends).trans (leads_of_between (passBetween_close inner hgap) ?_)
  simp only [List.length_cons, List.length_append]
  omega

/-- From a value on to the comma behind it and what follows. -/
private theorem leads_comma {inner : Bracket} {next : Place × List Bracket} (hv : Passes .value v)
    (hgap : Spaces gap)
    (hcomma : passBetween loose inner outer (gap ++ ',' :: rest) = .ok (next, after))
    (hless : after.length ≤ rest.length) :
    Leads (.value, inner :: outer) (v ++ (gap ++ ',' :: rest)) next after := by
  have hends : Ends (gap ++ ',' :: rest) :=
    hgap.ends_append (ends_cons rfl (by decide) (by decide) (by decide))
  refine (hv (inner :: outer) _ hends).trans (leads_of_between hcomma ?_)
  simp only [List.length_cons, List.length_append]
  omega

end

/-- Every text of the grammar is passed over. -/
private theorem passes_of_isPart {part : Part} {t : List Char} (h : IsPart part t) :
    Passes part t := by
  induction h with
  | null => exact fun _ _ _ => leads_scalar (List.cons_ne_nil _ _) rfl
  | true => exact fun _ _ _ => leads_scalar (List.cons_ne_nil _ _) rfl
  | false => exact fun _ _ _ => leads_scalar (List.cons_ne_nil _ _) rfl
  | number h =>
      obtain ⟨c, cs, rfl, -⟩ := h.exists_cons
      exact fun _ _ hafter => leads_scalar (List.cons_ne_nil _ _) (passOpening_number h hafter)
  | string h => exact fun _ _ _ => leads_scalar (List.cons_ne_nil _ _) (passOpening_string h)
  | emptyArray hgap =>
      intro opened after _
      have hbracket : isSpace '[' = false := rfl
      refine leads_empty .square ?_
      simp only [passOpening, skipSpace_cons hbracket, skipSpace_append hgap]
      rfl
  | array _ ih => exact fun _ _ _ => leads_array ih
  | emptyObject hgap =>
      intro opened after _
      have hbrace : isSpace '\x7b' = false := rfl
      refine leads_empty .curly ?_
      simp only [passOpening, skipSpace_cons hbrace, skipSpace_append hgap]
      rfl
  | object _ ih => exact fun _ _ _ => leads_object ih
  | @lastItem before v gap hbefore hv hgap ih =>
      obtain ⟨c, cs, rfl, hspace, hclose, -⟩ := exists_cons_of_isValue hv
      refine ⟨before, c, cs ++ (gap ++ [']']), rfl, hbefore, hspace, hclose, fun outer after => ?_⟩
      have hlast : Leads (.value, .square :: outer) (c :: cs ++ (gap ++ ']' :: after))
          (.after, outer) after := leads_last .square ih hgap
      simpa [Bracket.close] using hlast
  | @item before v gap rest hbefore hv hgap _ ih ihrest =>
      obtain ⟨c, cs, rfl, hspace, hclose, -⟩ := exists_cons_of_isValue hv
      refine ⟨before, c, cs ++ (gap ++ ',' :: rest), rfl, hbefore, hspace, hclose,
        fun outer after => ?_⟩
      obtain ⟨before', d, ds, rfl, hbefore', -, -, hlead⟩ := ihrest
      have hcomma : Leads (.value, .square :: outer)
          (c :: cs ++ (gap ++ ',' :: (before' ++ (d :: ds ++ after))))
          (.value, .square :: outer) (before' ++ (d :: ds ++ after)) :=
        leads_comma ih hgap (passBetween_item hgap) (Nat.le_refl _)
      have hitem := hcomma.trans ((hlead outer after).skipSpace hbefore')
      simpa using hitem
  | @lastMember name before v gap hname hbefore hv hgap ih =>
      refine ⟨name, before ++ (v ++ (gap ++ ['\x7d'])), rfl, hname, fun outer after => ?_⟩
      have hlast : Leads (.value, .curly :: outer) (v ++ (gap ++ '\x7d' :: after))
          (.after, outer) after := leads_last .curly ih hgap
      simpa [Bracket.close] using hlast.skipSpace hbefore
  | @member name before v gap rest hname hbefore hv hgap _ ih ihrest =>
      refine ⟨name, before ++ (v ++ (gap ++ ',' :: rest)), rfl, hname, fun outer after => ?_⟩
      obtain ⟨name', body, rfl, hname', hlead⟩ := ihrest
      have hcomma : Leads (.value, .curly :: outer)
          (v ++ (gap ++ ',' :: (name' ++ (body ++ after)))) (.value, .curly :: outer)
          (body ++ after) := by
        refine leads_comma ih hgap (passBetween_member hgap hname') ?_
        simp only [List.length_append]
        omega
      have hmember := (hcomma.trans (hlead outer after)).skipSpace hbefore
      simpa using hmember

/-- A value is skipped to its end and no further. -/
theorem skipValue_append {before v after : List Char} (hbefore : Spaces before) (hv : IsValue v)
    (hafter : Ends after) : skipValue (before ++ (v ++ after)) = .ok ((), after) := by
  have hlead := (passes_of_isPart hv [] after hafter).skipSpace hbefore
  obtain ⟨left, hleft, heq⟩ := hlead _ (Nat.lt_succ_self _)
  obtain ⟨left, rfl⟩ := Nat.exists_eq_add_one.mpr (Nat.zero_lt_of_lt hleft)
  exact heq

end Json

end SamplingProfiler
