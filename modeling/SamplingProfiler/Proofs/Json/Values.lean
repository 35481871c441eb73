/-
Values are read back as they were written.

A layout may put any white space between the pieces of a value.  However it does, the text
is JSON (`isValue_write`).

A reader takes back a JSON value if, wherever the value stands in a text and however it is
laid out, the reader finds what the value stands for and stops right behind it
(`ReadsBack`).  A number is taken back, and an array is if its items are.
-/
import SamplingProfiler.Json.Reader
import SamplingProfiler.Proofs.Json.Grammar

namespace SamplingProfiler

namespace Json

/-! ### Layouts -/

/-- A layout that puts nothing but white space between the pieces of a value. -/
structure Layout.Blank (layout : Layout) : Prop where
  lineBreak : ∀ level, Spaces (layout.lineBreak level)
  colon : ∃ spaces, Spaces spaces ∧ layout.colon = ':' :: spaces

theorem Layout.blank_compact : Layout.compact.Blank :=
  ⟨fun _ => spaces_nil, [], spaces_nil, rfl⟩

theorem Layout.blank_pretty : Layout.pretty.Blank := by
  refine ⟨fun level => Spaces.cons rfl fun c hc => ?_, [' '], Spaces.cons rfl spaces_nil, rfl⟩
  rw [(List.mem_replicate.mp hc).2]
  rfl

/-! ### What is written is JSON

Three functions that call each other write a value, and the proof goes as they do.  What is written
behind a first item is no text of the grammar by itself, so the lemmas about it are given the text
of that item.
-/

section

variable {layout : Layout}

/-- The name of a member, as it is written. -/
private theorem isName_write (hlayout : layout.Blank) {before : List Char} (hbefore : Spaces before)
    (name : String) : ∃ text spaces, IsName text ∧ Spaces spaces
      ∧ before ++ (quote name.toList ++ layout.colon) = text ++ spaces := by
  obtain ⟨spaces, hspaces, hcolon⟩ := hlayout.colon
  refine ⟨_, spaces, .quoted hbefore (spells_escaped name.toList).isBody spaces_nil, hspaces, ?_⟩
  rw [quote_append, hcolon]
  simp

mutual

/-- However a value is laid out, its text is a value of the grammar. -/
theorem isValue_write (hlayout : layout.Blank) (level : Nat) :
    ∀ v, IsValue (write layout level v)
  | null => .null
  | bool true => .true
  | bool false => .false
  | number n => .number (isNumber_toDigits n)
  | string s => .string (spells_escaped s.toList).isBody
  | array [] => .emptyArray spaces_nil
  | array (item :: rest) => by
      have h := isPart_writeItems hlayout level (hlayout.lineBreak (level + 1))
        (isValue_write hlayout (level + 1) item) rest
      simpa [write] using IsPart.array h
  | object [] => .emptyObject spaces_nil
  | object ((name, value) :: rest) => by
      obtain ⟨text, spaces, hname, hspaces, htext⟩ :=
        isName_write hlayout (hlayout.lineBreak (level + 1)) name
      have h := isPart_writeMembers hlayout level hname hspaces
        (isValue_write hlayout (level + 1) value) rest
      rw [← List.append_assoc text, ← htext] at h
      simpa [write] using IsPart.object h

/-- The items of an array behind its bracket, given the first of them. -/
private theorem isPart_writeItems (hlayout : layout.Blank) (level : Nat) {before t : List Char}
    (hbefore : Spaces before) (ht : IsValue t) :
    ∀ values, IsPart .items (before ++ (t ++ writeItems layout level values))
  | [] => .lastItem hbefore ht (hlayout.lineBreak level)
  | item :: rest => by
      have h := isPart_writeItems hlayout level (hlayout.lineBreak (level + 1))
        (isValue_write hlayout (level + 1) item) rest
      simpa [writeItems] using IsPart.item hbefore ht spaces_nil h

/-- The members of an object behind its bracket, given the first of them. -/
private theorem isPart_writeMembers (hlayout : layout.Blank) (level : Nat)
    {first before t : List Char} (hfirst : IsName first) (hbefore : Spaces before)
    (ht : IsValue t) :
    ∀ members, IsPart .members (first ++ (before ++ (t ++ writeMembers layout level members)))
  | [] => .lastMember hfirst hbefore ht (hlayout.lineBreak level)
  | (name, value) :: rest => by
      obtain ⟨text, spaces, hname, hspaces, htext⟩ :=
        isName_write hlayout (hlayout.lineBreak (level + 1)) name
      have h := isPart_writeMembers hlayout level hname hspaces
        (isValue_write hlayout (level + 1) value) rest
      rw [← List.append_assoc text, ← htext] at h
      simpa [writeMembers] using IsPart.member hfirst hbefore ht spaces_nil h

end

end

/-! ### Values that are read back -/

/-- Does the reader take back the value, wherever it stands and however it is laid out? -/
def ReadsBack {α : Type} (reader : Reader α) (v : Json) (a : α) : Prop :=
  ∀ layout : Layout, layout.Blank → ∀ level before after, Spaces before → Ends after →
    reader (before ++ (write layout level v ++ after)) = .ok (a, after)

section

variable {α β : Type} {reader : Reader α} {v : Json} {a : α}

/-- What is made of the value that is read may be computed from it. -/
theorem ReadsBack.map (h : ReadsBack reader v a) (f : α → β) :
    ReadsBack (fun cs => do
      let (x, cs) ← reader cs
      return (f x, cs)) v (f a) := by
  intro layout hlayout level before after hbefore hafter
  simp only [h layout hlayout level before after hbefore hafter, bind, Except.bind, pure,
    Except.pure]

/-- A reader that passes over white space need only take back a value that stands first. -/
theorem readsBack_of_first
    (hskip : ∀ before cs, Spaces before → reader (before ++ cs) = reader cs)
    (hfirst : ∀ layout : Layout, layout.Blank → ∀ level after, Ends after →
      reader (write layout level v ++ after) = .ok (a, after)) : ReadsBack reader v a := by
  intro layout hlayout level before after hbefore hafter
  rw [hskip before _ hbefore]
  exact hfirst layout hlayout level after hafter

end

/-! ### Scalars -/

theorem readsBack_readNatural {n : Nat} (hn : n ≤ maxWord) :
    ReadsBack readNatural (.number n) n := by
  refine readsBack_of_first ?_ fun layout _ level after hafter => ?_
  · intro before cs hbefore
    simp only [readNatural, skipSpace_append hbefore]
  · obtain ⟨c, cs, hdigits, hc⟩ := exists_toDigits_eq n
    have hnumeral := readNumeral_toDigits hn hafter
    rw [hdigits, List.cons_append] at hnumeral
    rw [write, hdigits, List.cons_append]
    simp only [readNatural, skipSpace_cons (isSpace_of_isDigit hc), hc, hnumeral, or_true, if_true]

/-! ### Arrays

A round reads one item, so the rounds suffice if the text has more characters than there are items
(`length_lt_writeItems`).  The first item is treated apart, as there is no comma in front of it.
-/

section

variable {α : Type} {item : Reader α} {layout : Layout} {level : Nat} {before after : List Char}

/-- The first item begins at the next character that is no white space. -/
theorem nextItem_first {c : Char} {cs : List Char} (hspace : isSpace c = false) (hclose : c ≠ ']')
    (hbefore : Spaces before) : nextItem true (before ++ c :: cs) = .ok (true, c :: cs) := by
  unfold nextItem
  rw [skipSpace_append hbefore, skipSpace_cons hspace]
  split
  · contradiction
  · rename_i heq
    exact absurd (List.cons.inj heq).1 hclose
  · rename_i heq
    rw [if_pos rfl, heq]
  · exact if_pos rfl

/-- Another item begins behind its comma. -/
theorem nextItem_comma {c : Char} {cs : List Char} (hspace : isSpace c = false) (hclose : c ≠ ']')
    (hbefore : Spaces before) :
    nextItem false (',' :: (before ++ c :: cs)) = .ok (true, c :: cs) := by
  have hcomma : isSpace ',' = false := rfl
  simp only [nextItem, skipSpace_cons hcomma, skipSpace_append hbefore, skipSpace_cons hspace,
    Bool.false_eq_true, if_false]
  split
  · contradiction
  · rename_i heq
    exact absurd (List.cons.inj heq).1 hclose
  · rfl

private theorem nextItem_close (first : Bool) (hbefore : Spaces before) :
    nextItem first (before ++ ']' :: after) = .ok (false, ']' :: after) := by
  unfold nextItem
  rw [skipSpace_append hbefore]
  rfl

private theorem itemRound_close (read : List α) (hbefore : Spaces before) :
    itemRound item read (before ++ ']' :: after) = .ok (.done read.reverse, after) := by
  simp only [itemRound, nextItem_close _ hbefore, bind, Except.bind]
  rfl

private theorem itemRound_first (hlayout : layout.Blank) {v : Json} {a : α}
    (h : ReadsBack item v a) (hbefore : Spaces before) (hafter : Ends after) :
    itemRound item [] (before ++ (write layout level v ++ after)) = .ok (.more [a], after) := by
  obtain ⟨c, cs, hwrite, hspace, hclose, -⟩ := exists_cons_of_isValue (isValue_write hlayout level v)
  have hitem := h layout hlayout level [] after spaces_nil hafter
  rw [List.nil_append, hwrite, List.cons_append] at hitem
  rw [hwrite, List.cons_append]
  simp only [itemRound, List.isEmpty_nil, nextItem_first hspace hclose hbefore, bind, Except.bind,
    if_true, hitem, pure, Except.pure]

private theorem itemRound_comma (hlayout : layout.Blank) {v : Json} {a : α}
    (h : ReadsBack item v a) {read : List α} (hread : read ≠ []) (hbefore : Spaces before)
    (hafter : Ends after) :
    itemRound item read (',' :: (before ++ (write layout level v ++ after)))
      = .ok (.more (a :: read), after) := by
  obtain ⟨c, cs, hwrite, hspace, hclose, -⟩ := exists_cons_of_isValue (isValue_write hlayout level v)
  have hitem := h layout hlayout level [] after spaces_nil hafter
  rw [List.nil_append, hwrite, List.cons_append] at hitem
  rw [hwrite, List.cons_append]
  simp only [itemRound, List.isEmpty_eq_false_iff.mpr hread, nextItem_comma hspace hclose hbefore,
    bind, Except.bind, if_true, hitem, pure, Except.pure]

theorem ends_writeItems (hlayout : layout.Blank) (values : List Json) :
    Ends (writeItems layout level values ++ after) := by
  cases values with
  | nil =>
      rw [writeItems, List.append_assoc]
      exact (hlayout.lineBreak level).ends_append
        (ends_cons rfl (by decide) (by decide) (by decide))
  | cons v values => exact ends_cons rfl (by decide) (by decide) (by decide)

/-- No array has more items than its text has characters. -/
private theorem length_lt_writeItems (layout : Layout) (level : Nat) (values : List Json) :
    values.length < (writeItems layout level values).length := by
  induction values with
  | nil => simp [writeItems]
  | cons v values ih =>
      simp only [writeItems, List.length_cons, List.length_append]
      omega

/-- The items after the first are read up to the bracket that closes the array. -/
private theorem rounds_writeItems (hlayout : layout.Blank) {f : α → Json} {as : List α}
    (h : ∀ a ∈ as, ReadsBack item (f a) a) {fuel : Nat} (hfuel : as.length < fuel)
    {read : List α} (hread : read ≠ []) :
    rounds (itemRound item) fuel read (writeItems layout level (as.map f) ++ after)
      = .ok (read.reverse ++ as, after) := by
  induction as generalizing fuel read with
  | nil =>
      obtain ⟨fuel, rfl⟩ := Nat.exists_eq_add_one.mpr hfuel
      have htext : writeItems layout level ([].map f) ++ after
          = layout.lineBreak level ++ ']' :: after := by simp [writeItems]
      rw [htext, rounds, itemRound_close _ (hlayout.lineBreak level), List.append_nil]
  | cons a as ih =>
      obtain ⟨fuel, rfl⟩ := Nat.exists_eq_add_one.mpr (Nat.zero_lt_of_lt hfuel)
      have htext : writeItems layout level ((a :: as).map f) ++ after
          = ',' :: (layout.lineBreak (level + 1) ++ (write layout (level + 1) (f a)
              ++ (writeItems layout level (as.map f) ++ after))) := by simp [writeItems]
      rw [htext, rounds, itemRound_comma hlayout (h a List.mem_cons_self) hread
        (hlayout.lineBreak (level + 1)) (ends_writeItems hlayout _)]
      have hrest := ih (fun b hb => h b (List.mem_cons_of_mem _ hb)) (Nat.lt_of_succ_lt_succ hfuel)
        (List.cons_ne_nil a read)
      rw [List.reverse_cons, List.append_assoc] at hrest
      exact hrest

/-- An array is read back if every item is. -/
theorem readsBack_readArray {f : α → Json} {as : List α} (h : ∀ a ∈ as, ReadsBack item (f a) a) :
    ReadsBack (readArray item) (.array (as.map f)) as := by
  refine readsBack_of_first ?_ fun layout hlayout level after hafter => ?_
  · intro before cs hbefore
    simp only [readArray, skipSpace_append hbefore]
  cases as with
  | nil => rfl
  | cons a as =>
      have htext : write layout level (.array ((a :: as).map f)) ++ after
          = '[' :: (layout.lineBreak (level + 1) ++ (write layout (level + 1) (f a)
              ++ (writeItems layout level (as.map f) ++ after))) := by simp [write]
      rw [htext]
      show rounds (itemRound item) (List.length _ + 1) [] _ = _
      rw [rounds, itemRound_first hlayout (h a List.mem_cons_self) (hlayout.lineBreak (level + 1))
        (ends_writeItems hlayout _)]
      refine rounds_writeItems hlayout (fun b hb => h b (List.mem_cons_of_mem _ hb)) ?_
        (List.cons_ne_nil a [])
      have hlength := length_lt_writeItems layout level (as.map f)
      simp only [List.length_append, List.length_map] at hlength ⊢
      omega

end

/-! ### Whole texts -/

/-- A whole text may have white space after its value. -/
theorem ReadsBack.readWhole {α : Type} {reader : Reader α} {v : Json} {a : α}
    (h : ReadsBack reader v a) {layout : Layout} (hlayout : layout.Blank) (level : Nat)
    {after : List Char} (hafter : Spaces after) :
    readWhole? reader (write layout level v ++ after) = .ok a := by
  have hends : Ends after := by
    have hnil := hafter.ends_append ends_nil
    rwa [List.append_nil] at hnil
  have hread := h layout hlayout level [] after spaces_nil hends
  rw [List.nil_append] at hread
  simp only [readWhole?, hread, skipSpace_eq_nil hafter, bind, Except.bind]
  rfl

end Json

end SamplingProfiler
