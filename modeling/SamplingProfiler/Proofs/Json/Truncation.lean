/-
What a reader makes of a text that breaks off.

A text is cut where some of it is lost at its end (`Cut`).  Where the cut falls in a value
that has an end of its own, a string, an array or a record, the reader finds that the text
ends too early (`BreaksOff`).  A number has no such end: what is left of it is a number too,
and a smaller one.  All that can be said of a cut value in general is that its reader comes
to the end of the text, with an answer or without one (`RunsOut`).  That is enough, since
around every value there is something that is then missing.

The readers of arrays and records go through a cut text as they go through the whole one,
item by item, until they come to the cut.
-/
import SamplingProfiler.Proofs.Json.Records

namespace SamplingProfiler

namespace Json

/-! ### Cuts

A text that was put together is cut in its first part or in its second, and if in the second it
still has all of the first.  Every argument about a cut text takes the text apart in this way:
`cut_append` for two parts, `cut_cons` for a character and the rest.
-/

/-- Is this the beginning of the text, with something lost? -/
def Cut (part text : List Char) : Prop := part <+: text ∧ part ≠ text

theorem not_cut_nil {part : List Char} : ¬ Cut part [] := fun h => h.2 (List.prefix_nil.mp h.1)

theorem cut_cons {part : List Char} {c : Char} {cs : List Char} (h : Cut part (c :: cs)) :
    part = [] ∨ ∃ rest, part = c :: rest ∧ Cut rest cs := by
  cases part with
  | nil => exact .inl rfl
  | cons d rest =>
      obtain ⟨rfl, hrest⟩ := List.cons_prefix_cons.mp h.1
      exact .inr ⟨rest, rfl, hrest, fun heq => h.2 (by rw [heq])⟩

/-- A text is cut in its first part or in its second. -/
theorem cut_append {part first second : List Char} (h : Cut part (first ++ second)) :
    Cut part first ∨ ∃ rest, part = first ++ rest ∧ Cut rest second := by
  rcases List.prefix_or_prefix_of_prefix h.1 (List.prefix_append first second) with hpart | hfirst
  · by_cases heq : part = first
    · subst heq
      refine .inr ⟨[], (List.append_nil part).symm, List.nil_prefix, fun hnil => h.2 ?_⟩
      rw [← hnil, List.append_nil]
    · exact .inl ⟨hpart, heq⟩
  · obtain ⟨rest, rfl⟩ := hfirst
    exact .inr ⟨rest, rfl, (List.prefix_append_right_inj first).mp h.1,
      fun heq => h.2 (by rw [heq])⟩

theorem Cut.spaces {part text : List Char} (h : Cut part text) (hspaces : Spaces text) :
    Spaces part := fun c hc => hspaces c (h.1.subset hc)

theorem Cut.ends {part text : List Char} (h : Cut part text) (hends : Ends text) : Ends part := by
  intro c cs hpart
  obtain ⟨rest, hrest⟩ := h.1
  exact hends c (cs ++ rest) (by rw [← hrest, hpart]; rfl)

/-- What is left of white space and the character behind it is white space. -/
theorem spaces_of_cut {before part : List Char} {c : Char} (hbefore : Spaces before)
    (h : Cut part (before ++ [c])) : Spaces part := by
  rcases cut_append h with hspaces | ⟨rest, rfl, hrest⟩
  · exact hspaces.spaces hbefore
  rcases cut_cons hrest with rfl | ⟨rest, -, hnone⟩
  · rwa [List.append_nil]
  · exact absurd hnone not_cut_nil

/-! ### Readers at the end of a text -/

section

variable {α β : Type}

/-- Is the text at its end, whether or not there is an answer? -/
def AtEnd (found : Except Refusal (α × List Char)) : Prop :=
  found = .error .endsEarly ∨ ∃ a, found = .ok (a, [])

/-- Does the reader come to the end of every text that is cut within the value? -/
def RunsOut (reader : Reader α) (v : Json) : Prop :=
  ∀ layout : Layout, layout.Blank → ∀ level before part, Spaces before →
    Cut part (before ++ write layout level v) → AtEnd (reader part)

/-- Does the reader find that every text that is cut within the value ends too early? -/
def BreaksOff (reader : Reader α) (v : Json) : Prop :=
  ∀ layout : Layout, layout.Blank → ∀ level before part, Spaces before →
    Cut part (before ++ write layout level v) → reader part = .error .endsEarly

variable {reader : Reader α} {v : Json}

theorem BreaksOff.runsOut (h : BreaksOff reader v) : RunsOut reader v :=
  fun layout hlayout level before part hbefore hpart =>
    .inl (h layout hlayout level before part hbefore hpart)

/-- What is computed from an answer does not change where the text ends. -/
theorem RunsOut.map (h : RunsOut reader v) (f : α → β) :
    RunsOut (fun cs => do
      let (x, cs) ← reader cs
      return (f x, cs)) v := by
  intro layout hlayout level before part hbefore hpart
  rcases h layout hlayout level before part hbefore hpart with herror | ⟨a, hok⟩
  · exact .inl (by simp only [herror, bind, Except.bind])
  · exact .inr ⟨f a, by simp only [hok, bind, Except.bind, pure, Except.pure]⟩

/-- A reader that passes over white space need only be looked at where the value stands first
and something of it is left. -/
theorem breaksOff_of_first
    (hskip : ∀ before cs, Spaces before → reader (before ++ cs) = reader cs)
    (hnil : reader [] = .error .endsEarly)
    (hfirst : ∀ layout : Layout, layout.Blank → ∀ level part, Cut part (write layout level v) →
      part ≠ [] → reader part = .error .endsEarly) : BreaksOff reader v := by
  intro layout hlayout level before part hbefore hpart
  rcases cut_append hpart with hspaces | ⟨rest, rfl, hrest⟩
  · have hpart := hskip part [] (hspaces.spaces hbefore)
    rw [List.append_nil] at hpart
    rw [hpart, hnil]
  · rw [hskip before rest hbefore]
    by_cases hempty : rest = []
    · rw [hempty, hnil]
    · exact hfirst layout hlayout level rest hrest hempty

end

/-! ### Scalars

What is left of the digits of a number is the digits of a smaller one.  A string that is cut has
lost its closing quote at least, and if it is cut within an escape, what is left of that is too
short to be taken for another.
-/

/-- What is left of a number is a number that is not greater. -/
theorem exists_toDigits_of_prefix {part : List Char} {n : Nat} (h : part <+: Nat.toDigits 10 n)
    (hpart : part ≠ []) : ∃ m ≤ n, part = Nat.toDigits 10 m := by
  induction n using Nat.strongRecOn with
  | ind n ih =>
      rw [Nat.toDigits_eq_if (by decide)] at h
      by_cases hsmall : n < 10
      · rw [if_pos hsmall] at h
        refine ⟨n, Nat.le_refl n, ?_⟩
        rw [Nat.toDigits_eq_if (by decide), if_pos hsmall]
        rcases List.prefix_concat_iff.mp (show part <+: [] ++ [n.digitChar] from h) with hall | hnil
        · exact hall
        · exact absurd (List.prefix_nil.mp hnil) hpart
      · rw [if_neg hsmall] at h
        rcases List.prefix_concat_iff.mp h with hall | hfront
        · refine ⟨n, Nat.le_refl n, ?_⟩
          rw [Nat.toDigits_eq_if (by decide), if_neg hsmall]
          exact hall
        · obtain ⟨m, hm, hdigits⟩ := ih (n / 10) (by omega) hfront
          exact ⟨m, by omega, hdigits⟩

/-- A reader that takes back all smaller numbers comes to the end of what is left of a
number. -/
theorem runsOut_number {α : Type} {reader : Reader α} {n : Nat}
    (hspaces : ∀ cs, Spaces cs → reader cs = .error .endsEarly)
    (hread : ∀ m ≤ n, ∃ a, ReadsBack reader (.number m) a) : RunsOut reader (.number n) := by
  intro layout hlayout level before part hbefore hpart
  rcases cut_append hpart with hcut | ⟨rest, rfl, hrest⟩
  · exact .inl (hspaces part (hcut.spaces hbefore))
  by_cases hempty : rest = []
  · rw [hempty, List.append_nil]
    exact .inl (hspaces before hbefore)
  · rw [write] at hrest
    obtain ⟨m, hm, rfl⟩ := exists_toDigits_of_prefix hrest.1 hempty
    obtain ⟨a, ha⟩ := hread m hm
    have hok := ha layout hlayout level before [] hbefore ends_nil
    rw [List.append_nil, write] at hok
    exact .inr ⟨a, hok⟩

theorem runsOut_readNatural {n : Nat} (hn : n ≤ maxWord) : RunsOut readNatural (.number n) := by
  refine runsOut_number ?_ fun m hm => ⟨m, readsBack_readNatural (Nat.le_trans hm hn)⟩
  intro cs hcs
  simp only [readNatural, skipSpace_eq_nil hcs]

private theorem utf8Size_digitChar : ∀ n < 16, (Nat.digitChar n).utf8Size = 1 := by decide

/-- An escape that is a letter after a backslash. -/
private theorem readString_of_cut_letter {part : List Char} {letter : Char}
    (h : Cut part ['\\', letter]) : readString part = .error .endsEarly := by
  rcases cut_cons h with rfl | ⟨rest, rfl, hletter⟩
  · rfl
  rcases cut_cons hletter with rfl | ⟨rest, rfl, hnone⟩
  · rfl
  · exact absurd hnone not_cut_nil

/-- An escape that is four digits: fewer than four are left. -/
private theorem readString_of_cut_digits {part : List Char} {n m : Nat} (hm : m < 16)
    (h : Cut part ['\\', 'u', '0', '0', Nat.digitChar m, Nat.digitChar n]) :
    readString part = .error .endsEarly := by
  rcases cut_cons h with rfl | ⟨rest, rfl, h1⟩
  · rfl
  rcases cut_cons h1 with rfl | ⟨rest, rfl, h2⟩
  · rfl
  rcases cut_cons h2 with rfl | ⟨rest, rfl, h3⟩
  · rfl
  rcases cut_cons h3 with rfl | ⟨rest, rfl, h4⟩
  · rfl
  rcases cut_cons h4 with rfl | ⟨rest, rfl, h5⟩
  · rfl
  rcases cut_cons h5 with rfl | ⟨rest, rfl, hnone⟩
  · have hsize : hexRefusal ['0', '0', Nat.digitChar m] = .endsEarly := by
      simp only [hexRefusal, List.foldl, utf8Size_digitChar m hm]
      rfl
    exact congrArg Except.error hsize
  · exact absurd hnone not_cut_nil

/-- A character is not read from a part of how it is written. -/
theorem readString_of_cut_escapeChar {part : List Char} {c : Char} (h : Cut part (escapeChar c)) :
    readString part = .error .endsEarly := by
  unfold escapeChar at h
  split_ifs at h with _ _ _ _ _ _ _ hcontrol
  -- those with a letter of their own
  iterate 7 exact readString_of_cut_letter h
  · exact readString_of_cut_digits (by omega) h
  · rcases cut_cons h with rfl | ⟨rest, -, hnone⟩
    · rfl
    · exact absurd hnone not_cut_nil

/-- A string whose closing quote is missing ends too early, wherever it is cut. -/
theorem readString_of_cut {part s : List Char} (h : Cut part (s.flatMap escapeChar ++ ['"'])) :
    readString part = .error .endsEarly := by
  induction s generalizing part with
  | nil =>
      rcases cut_cons h with rfl | ⟨rest, -, hnone⟩
      · rfl
      · exact absurd hnone not_cut_nil
  | cons c s ih =>
      rw [List.flatMap_cons, List.append_assoc] at h
      rcases cut_append h with hchar | ⟨rest, rfl, hrest⟩
      · exact readString_of_cut_escapeChar hchar
      · rw [readString_escapeChar, ih hrest]
        rfl

/-! ### Values in a longer text

Around a value there is more text, and a cut behind the value leaves that text cut.  Then the
value is read, and the rounds go on with what is left, which is shorter.
-/

section

variable {α : Type} {reader : Reader α} {layout : Layout} {level : Nat}

/-- A text is cut within a value or behind it.  So its reader comes to the end of the text, or
reads the value and leaves what the cut has left of the text behind it. -/
theorem reads_of_cut (hlayout : layout.Blank) {v : Json} {a : α} (hread : ReadsBack reader v a)
    (hout : RunsOut reader v) {before after part : List Char} (hbefore : Spaces before)
    (hafter : Ends after) (h : Cut part (before ++ (write layout level v ++ after))) :
    AtEnd (reader part)
      ∨ ∃ rest, Cut rest after ∧ rest.length < part.length ∧ reader part = .ok (a, rest) := by
  rw [← List.append_assoc] at h
  rcases cut_append h with hvalue | ⟨rest, rfl, hrest⟩
  · exact .inl (hout layout hlayout level before part hbefore hvalue)
  · refine .inr ⟨rest, hrest, ?_, ?_⟩
    · obtain ⟨c, cs, hwrite, -⟩ := exists_cons_of_isValue (isValue_write hlayout level v)
      simp only [hwrite, List.length_append, List.length_cons]
      omega
    · rw [List.append_assoc]
      exact hread layout hlayout level before rest hbefore (hrest.ends hafter)

variable {σ : Type} {round : σ → Reader (Round σ α)} {state : σ} {text : List Char}

/-- If a round finds that the text ends too early, that is the answer. -/
private theorem rounds_of_endsEarly (fuel : Nat) (h : round state text = .error .endsEarly) :
    rounds round fuel state text = .error .endsEarly := by
  cases fuel with
  | zero => rfl
  | succ fuel => rw [rounds, h]

private theorem rounds_of_more {fuel : Nat} {next : σ} {rest : List Char}
    (h : round state text = .ok (.more next, rest))
    (hrest : rounds round fuel next rest = .error .endsEarly) :
    rounds round (fuel + 1) state text = .error .endsEarly := by
  rw [rounds, h]
  exact hrest

end

/-! ### Arrays

If the cut falls in an item, its reader may give an answer all the same.  But the array then goes
on at the end of the text, and finds neither a comma nor the bracket that closes it.
-/

section

variable {α : Type} {item : Reader α} {layout : Layout} {level : Nat}
  {before after part : List Char}

private theorem nextItem_spaces (first : Bool) (h : Spaces part) :
    nextItem first part = .error .endsEarly := by
  simp only [nextItem, skipSpace_eq_nil h]

private theorem nextItem_comma_spaces (h : Spaces part) :
    nextItem false (',' :: part) = .error .endsEarly := by
  have hcomma : isSpace ',' = false := rfl
  simp only [nextItem, skipSpace_cons hcomma, skipSpace_eq_nil h, Bool.false_eq_true, if_false]

/-- What is left of a value and the text behind it is nothing, or begins as the value does. -/
private theorem eq_nil_or_cons_of_cut (hlayout : layout.Blank) {v : Json}
    (h : Cut part (write layout level v ++ after)) :
    part = [] ∨ ∃ c cs, part = c :: cs ∧ isSpace c = false ∧ c ≠ ']' := by
  obtain ⟨c, cs, hwrite, hspace, hclose, -⟩ :=
    exists_cons_of_isValue (isValue_write hlayout level v)
  rw [hwrite, List.cons_append] at h
  rcases cut_cons h with hnil | ⟨rest, hcons, -⟩
  · exact .inl hnil
  · exact .inr ⟨c, rest, hcons, hspace, hclose⟩

/-- The way to an item that is cut, or behind which the text is: the text ends before the item,
or the item is what follows. -/
private def LeadsToCut (first : Bool) (text whole : List Char) : Prop :=
  nextItem first text = .error .endsEarly
    ∨ ∃ part, Cut part whole ∧ part.length ≤ text.length ∧ nextItem first text = .ok (true, part)

private theorem leadsToCut_first (hlayout : layout.Blank) {v : Json} (hbefore : Spaces before)
    (h : Cut part (before ++ (write layout level v ++ after))) :
    LeadsToCut true part (write layout level v ++ after) := by
  rcases cut_append h with hspaces | ⟨rest, rfl, hrest⟩
  · exact .inl (nextItem_spaces true (hspaces.spaces hbefore))
  rcases eq_nil_or_cons_of_cut hlayout hrest with rfl | ⟨c, cs, rfl, hspace, hclose⟩
  · refine .inl (nextItem_spaces true ?_)
    rwa [List.append_nil]
  · refine .inr ⟨_, hrest, ?_, nextItem_first hspace hclose hbefore⟩
    rw [List.length_append]
    omega

private theorem leadsToCut_comma (hlayout : layout.Blank) {v : Json} (hbefore : Spaces before)
    (h : Cut part (',' :: (before ++ (write layout level v ++ after)))) :
    LeadsToCut false part (write layout level v ++ after) := by
  rcases cut_cons h with rfl | ⟨rest, rfl, hrest⟩
  · exact .inl rfl
  rcases cut_append hrest with hspaces | ⟨rest, rfl, hvalue⟩
  · exact .inl (nextItem_comma_spaces (hspaces.spaces hbefore))
  rcases eq_nil_or_cons_of_cut hlayout hvalue with rfl | ⟨c, cs, rfl, hspace, hclose⟩
  · refine .inl (nextItem_comma_spaces ?_)
    rwa [List.append_nil]
  · refine .inr ⟨_, hvalue, ?_, nextItem_comma hspace hclose hbefore⟩
    simp only [List.length_cons, List.length_append]
    omega

/-- If what the cut has left behind an item ends too early, then so does the item with it. -/
private theorem rounds_of_cut_item (hlayout : layout.Blank) {v : Json} {a : α}
    (hread : ReadsBack item v a) (hout : RunsOut item v) (hafter : Ends after) {read : List α}
    {text : List Char} (h : LeadsToCut read.isEmpty text (write layout level v ++ after))
    {fuel : Nat} (hfuel : text.length < fuel + 1)
    (hrest : ∀ rest, Cut rest after → rest.length < fuel →
      rounds (itemRound item) fuel (a :: read) rest = .error .endsEarly) :
    rounds (itemRound item) (fuel + 1) read text = .error .endsEarly := by
  rcases h with hnext | ⟨part, hpart, hlength, hnext⟩
  · exact rounds_of_endsEarly _ (by simp only [itemRound, hnext, bind, Except.bind])
  rcases reads_of_cut hlayout hread hout spaces_nil hafter hpart with
    (hitem | ⟨x, hitem⟩) | ⟨rest, hcut, hless, hitem⟩
  · exact rounds_of_endsEarly _ (by simp only [itemRound, hnext, hitem, bind, Except.bind, if_true])
  · have hround : itemRound item read text = .ok (.more (x :: read), []) := by
      simp only [itemRound, hnext, hitem, bind, Except.bind, pure, Except.pure, if_true]
    exact rounds_of_more hround (rounds_of_endsEarly _ rfl)
  · have hround : itemRound item read text = .ok (.more (a :: read), rest) := by
      simp only [itemRound, hnext, hitem, bind, Except.bind, pure, Except.pure, if_true]
    exact rounds_of_more hround (hrest rest hcut (by omega))

/-- The items after the first, cut somewhere before the closing bracket. -/
private theorem rounds_of_cut_items (hlayout : layout.Blank) {f : α → Json} {as : List α}
    (hread : ∀ a ∈ as, ReadsBack item (f a) a) (hout : ∀ a ∈ as, RunsOut item (f a)) {fuel : Nat}
    (hfuel : part.length < fuel) {read : List α} (hne : read ≠ [])
    (h : Cut part (writeItems layout level (as.map f))) :
    rounds (itemRound item) fuel read part = .error .endsEarly := by
  obtain ⟨fuel, rfl⟩ := Nat.exists_eq_add_one.mpr (Nat.zero_lt_of_lt hfuel)
  induction as generalizing part fuel read with
  | nil =>
      have hspaces := spaces_of_cut (hlayout.lineBreak level) h
      refine rounds_of_endsEarly _ ?_
      simp only [itemRound, nextItem_spaces _ hspaces, bind, Except.bind]
  | cons a as ih =>
      have hlead : LeadsToCut read.isEmpty part
          (write layout (level + 1) (f a) ++ writeItems layout level (as.map f)) := by
        rw [List.isEmpty_eq_false_iff.mpr hne]
        refine leadsToCut_comma hlayout (hlayout.lineBreak (level + 1)) ?_
        simpa [writeItems] using h
      have hends : Ends (writeItems layout level (as.map f) ++ []) := ends_writeItems hlayout _
      rw [List.append_nil] at hends
      refine rounds_of_cut_item hlayout (hread a List.mem_cons_self) (hout a List.mem_cons_self)
        hends hlead hfuel fun rest hrest hless => ?_
      obtain ⟨fuel, rfl⟩ := Nat.exists_eq_add_one.mpr (Nat.zero_lt_of_lt hless)
      exact ih (fun b hb => hread b (List.mem_cons_of_mem _ hb))
        (fun b hb => hout b (List.mem_cons_of_mem _ hb)) (List.cons_ne_nil a read) hrest fuel hless

/-- An array breaks off if its items run out. -/
theorem breaksOff_readArray {f : α → Json} {as : List α}
    (hread : ∀ a ∈ as, ReadsBack item (f a) a) (hout : ∀ a ∈ as, RunsOut item (f a)) :
    BreaksOff (readArray item) (.array (as.map f)) := by
  refine breaksOff_of_first ?_ rfl fun layout hlayout level part hpart hne => ?_
  · intro before cs hbefore
    simp only [readArray, skipSpace_append hbefore]
  have hbracket : isSpace '[' = false := rfl
  cases as with
  | nil =>
      rcases cut_cons (show Cut part ['[', ']'] from hpart) with rfl | ⟨rest, rfl, hrest⟩
      · exact absurd rfl hne
      rcases cut_cons hrest with rfl | ⟨rest, -, hnone⟩
      · rfl
      · exact absurd hnone not_cut_nil
  | cons a as =>
      have htext : write layout level (.array ((a :: as).map f))
          = '[' :: (layout.lineBreak (level + 1) ++ (write layout (level + 1) (f a)
              ++ writeItems layout level (as.map f))) := by simp [write]
      rw [htext] at hpart
      rcases cut_cons hpart with rfl | ⟨rest, rfl, hrest⟩
      · exact absurd rfl hne
      have hends : Ends (writeItems layout level (as.map f) ++ []) := ends_writeItems hlayout _
      rw [List.append_nil] at hends
      have hlead : LeadsToCut ([] : List α).isEmpty rest
          (write layout (level + 1) (f a) ++ writeItems layout level (as.map f)) :=
        leadsToCut_first hlayout (hlayout.lineBreak (level + 1)) hrest
      simp only [readArray, skipSpace_cons hbracket, repeatRounds]
      refine rounds_of_cut_item hlayout (hread a List.mem_cons_self) (hout a List.mem_cons_self)
        hends hlead (Nat.lt_succ_self _) fun rest hcut hless => ?_
      exact rounds_of_cut_items hlayout (fun b hb => hread b (List.mem_cons_of_mem _ hb))
        (fun b hb => hout b (List.mem_cons_of_mem _ hb)) hless (List.cons_ne_nil a []) hcut

end

/-! ### Records

The argument is the one about arrays, with one more place for the cut to fall in: the name of a
member.  It is a string, and breaks off.
-/

section

open Record

variable {σ α : Type} {r : Record σ α} {layout : Layout} {level : Nat}
  {before after part : List Char}

private theorem nextMember_spaces (first : Bool) (h : Spaces part) :
    nextMember first part = .error .endsEarly := by
  simp only [nextMember, skipSpace_eq_nil h]

private theorem nextMember_comma_spaces (h : Spaces part) :
    nextMember false (',' :: part) = .error .endsEarly := by
  have hcomma : isSpace ',' = false := rfl
  simp only [nextMember, skipSpace_cons hcomma, skipSpace_eq_nil h, Bool.false_eq_true, if_false]

/-- The text of a member after the opening quote of its name, and what follows. -/
private def memberText (layout : Layout) (level : Nat) (name : String) (v : Json)
    (after : List Char) : List Char :=
  name.toList.flatMap escapeChar ++ '"' :: (layout.colon ++ (write layout level v ++ after))

private theorem ends_writeMembers (hlayout : layout.Blank) (members : List (String × Json)) :
    Ends (writeMembers layout level members) := by
  cases members with
  | nil =>
      rw [writeMembers]
      exact (hlayout.lineBreak level).ends_append
        (ends_cons rfl (by decide) (by decide) (by decide))
  | cons m members => exact ends_cons rfl (by decide) (by decide) (by decide)

/-- The way to the name of a member that is cut, or behind which the text is: the text ends
before the name, or the name is what follows. -/
private def LeadsToCutName (first : Bool) (text whole : List Char) : Prop :=
  nextMember first text = .error .endsEarly
    ∨ ∃ part, Cut part whole ∧ part.length ≤ text.length
      ∧ nextMember first text = .ok (true, part)

private theorem leadsToCutName_first {whole : List Char} (hbefore : Spaces before)
    (h : Cut part (before ++ '"' :: whole)) : LeadsToCutName true part whole := by
  rcases cut_append h with hspaces | ⟨rest, rfl, hrest⟩
  · exact .inl (nextMember_spaces true (hspaces.spaces hbefore))
  rcases cut_cons hrest with rfl | ⟨rest, rfl, hname⟩
  · refine .inl (nextMember_spaces true ?_)
    rwa [List.append_nil]
  · refine .inr ⟨rest, hname, ?_, nextMember_first hbefore rest⟩
    simp only [List.length_cons, List.length_append]
    omega

private theorem leadsToCutName_comma {whole : List Char} (hbefore : Spaces before)
    (h : Cut part (',' :: (before ++ '"' :: whole))) : LeadsToCutName false part whole := by
  rcases cut_cons h with rfl | ⟨rest, rfl, hrest⟩
  · exact .inl rfl
  rcases cut_append hrest with hspaces | ⟨rest, rfl, hquote⟩
  · exact .inl (nextMember_comma_spaces (hspaces.spaces hbefore))
  rcases cut_cons hquote with rfl | ⟨rest, rfl, hname⟩
  · refine .inl (nextMember_comma_spaces ?_)
    rwa [List.append_nil]
  · refine .inr ⟨rest, hname, ?_, nextMember_comma hbefore rest⟩
    simp only [List.length_cons, List.length_append]
    omega

/-- The value of a member that is cut, from the colon on. -/
private theorem readMember_of_cut (hlayout : layout.Blank) {state next : σ} {name : String}
    {v : Json} {f : Field σ} (field : r.fields.find? (·.name == name.toList) = some f)
    (first : f.known state = false) (reads : ReadsBack (f.read state) v next)
    (hout : RunsOut (f.read state) v) (hafter : Ends after)
    (h : Cut part (layout.colon ++ (write layout level v ++ after))) :
    AtEnd (r.readMember name.toList state part) ∨ ∃ rest, Cut rest after
      ∧ rest.length < part.length ∧ r.readMember name.toList state part = .ok (next, rest) := by
  obtain ⟨spaces, hspaces, hcolon⟩ := hlayout.colon
  have hmember : r.readMember name.toList state part
      = (readColon part >>= fun x => f.read state x.2) := by
    simp only [readMember, field, first, Bool.false_eq_true, if_false]
  rw [hcolon, List.cons_append] at h
  rcases cut_cons h with rfl | ⟨rest, rfl, hrest⟩
  · exact .inl (.inl hmember)
  have hread : r.readMember name.toList state (':' :: rest) = f.read state rest := hmember
  rw [hread]
  rcases reads_of_cut hlayout reads hout hspaces hafter hrest with hend | ⟨left, hcut, hless, hok⟩
  · exact .inl hend
  · refine .inr ⟨left, hcut, ?_, hok⟩
    rw [List.length_cons]
    omega

/-- If what the cut has left behind a member ends too early, then so does the member with
it. -/
private theorem rounds_of_cut_member (hlayout : layout.Blank) {state next : σ} {name : String}
    {v : Json} {f : Field σ} (field : r.fields.find? (·.name == name.toList) = some f)
    (first : f.known state = false) (reads : ReadsBack (f.read state) v next)
    (hout : RunsOut (f.read state) v) (hafter : Ends after) {b : Bool} {text : List Char}
    (h : LeadsToCutName b text (memberText layout level name v after)) {fuel : Nat}
    (hfuel : text.length < fuel + 1)
    (hrest : ∀ rest, Cut rest after → rest.length < fuel →
      rounds r.memberRound fuel (false, next) rest = .error .endsEarly) :
    rounds r.memberRound (fuel + 1) (b, state) text = .error .endsEarly := by
  rcases h with hnext | ⟨part, hpart, hlength, hnext⟩
  · exact rounds_of_endsEarly _ (by simp only [memberRound, hnext, bind, Except.bind])
  have hname : memberText layout level name v after = (name.toList.flatMap escapeChar ++ ['"'])
      ++ (layout.colon ++ (write layout level v ++ after)) := by simp [memberText]
  rw [hname] at hpart
  rcases cut_append hpart with hcut | ⟨rest, rfl, hcut⟩
  · refine rounds_of_endsEarly _ ?_
    simp only [memberRound, hnext, readString_of_cut hcut, bind, Except.bind, if_true]
  have hstring : readString ((name.toList.flatMap escapeChar ++ ['"']) ++ rest)
      = .ok (name.toList, rest) := by
    rw [List.append_assoc]
    exact readString_quote name.toList rest
  rcases readMember_of_cut hlayout field first reads hout hafter hcut with
    (hmember | ⟨x, hmember⟩) | ⟨left, hleft, hless, hmember⟩
  · refine rounds_of_endsEarly _ ?_
    simp only [memberRound, hnext, hstring, hmember, bind, Except.bind, if_true]
  · have hround : r.memberRound (b, state) text = .ok (.more (false, x), []) := by
      simp only [memberRound, hnext, hstring, hmember, bind, Except.bind, pure, Except.pure, if_true]
    exact rounds_of_more hround (rounds_of_endsEarly _ rfl)
  · have hround : r.memberRound (b, state) text = .ok (.more (false, next), left) := by
      simp only [memberRound, hnext, hstring, hmember, bind, Except.bind, pure, Except.pure, if_true]
    refine rounds_of_more hround (hrest left hleft ?_)
    rw [List.length_append] at hlength
    omega

/-- Do the readers of the fields come to the end of cut values? -/
def Record.RunsOut (r : Record σ α) (members : List (String × Json)) : Prop :=
  ∀ m ∈ members, ∃ f, r.fields.find? (·.name == m.1.toList) = some f
    ∧ ∀ state, Json.RunsOut (f.read state) m.2

theorem Record.RunsOut.field {members : List (String × Json)} (h : r.RunsOut members)
    {name : String} {v : Json} (hm : (name, v) ∈ members) {f : Field σ}
    (field : r.fields.find? (·.name == name.toList) = some f) (state : σ) :
    Json.RunsOut (f.read state) v := by
  obtain ⟨g, hg, hout⟩ := h _ hm
  obtain rfl : g = f := Option.some.inj (hg.symm.trans field)
  exact hout state

/-- The members after the first, cut somewhere before the closing bracket. -/
private theorem rounds_of_cut_members (hlayout : layout.Blank) {state last : σ}
    {members : List (String × Json)} (h : Fills r state members last) (hout : r.RunsOut members)
    {fuel : Nat} (hfuel : part.length < fuel)
    (hpart : Cut part (writeMembers layout level members)) :
    rounds r.memberRound fuel (false, state) part = .error .endsEarly := by
  obtain ⟨fuel, rfl⟩ := Nat.exists_eq_add_one.mpr (Nat.zero_lt_of_lt hfuel)
  induction h generalizing part fuel with
  | nil =>
      have hspaces := spaces_of_cut (hlayout.lineBreak level) hpart
      refine rounds_of_endsEarly _ ?_
      simp only [memberRound, nextMember_spaces _ hspaces, bind, Except.bind]
  | @cons state next last name v members f field first reads rest ih =>
      have htext : writeMembers layout level ((name, v) :: members)
          = ',' :: (layout.lineBreak (level + 1) ++ '"' :: memberText layout (level + 1) name v
              (writeMembers layout level members)) := by
        simp [writeMembers, quote, memberText]
      rw [htext] at hpart
      refine rounds_of_cut_member hlayout field first reads
        (hout.field List.mem_cons_self field state) (ends_writeMembers hlayout members)
        (leadsToCutName_comma (hlayout.lineBreak (level + 1)) hpart) hfuel
        fun left hleft hless => ?_
      obtain ⟨fuel, rfl⟩ := Nat.exists_eq_add_one.mpr (Nat.zero_lt_of_lt hless)
      exact ih (fun m hm => hout m (List.mem_cons_of_mem _ hm)) hleft fuel hless

/-- A record breaks off if the values of its members run out. -/
theorem Fills.breaksOff {members : List (String × Json)} {last : σ}
    (h : Fills r r.start members last) (hout : r.RunsOut members) :
    BreaksOff r.read (.object members) := by
  refine breaksOff_of_first ?_ rfl fun layout hlayout level part hpart hne => ?_
  · intro before cs hbefore
    simp only [Record.read, skipSpace_append hbefore]
  have hbrace : isSpace '\x7b' = false := rfl
  have hread : ∀ text, repeatRounds r.memberRound (true, r.start) text = .error .endsEarly →
      r.read ('\x7b' :: text) = .error .endsEarly := by
    intro text htext
    simp only [Record.read, skipSpace_cons hbrace, htext, bind, Except.bind]
  cases h with
  | nil =>
      rcases cut_cons (show Cut part ['\x7b', '\x7d'] from hpart) with rfl | ⟨rest, rfl, hrest⟩
      · exact absurd rfl hne
      rcases cut_cons hrest with rfl | ⟨rest, -, hnone⟩
      · exact hread [] rfl
      · exact absurd hnone not_cut_nil
  | @cons _ next _ name v members f field first reads rest =>
      have htext : write layout level (.object ((name, v) :: members))
          = '\x7b' :: (layout.lineBreak (level + 1) ++ '"' :: memberText layout (level + 1) name v
              (writeMembers layout level members)) := by
        simp [write, quote, memberText]
      rw [htext] at hpart
      rcases cut_cons hpart with rfl | ⟨text, rfl, hrest⟩
      · exact absurd rfl hne
      refine hread text (rounds_of_cut_member hlayout field first reads
        (hout.field List.mem_cons_self field _) (ends_writeMembers hlayout members)
        (leadsToCutName_first (hlayout.lineBreak (level + 1)) hrest) (Nat.lt_succ_self _)
        fun left hleft hless => ?_)
      exact rounds_of_cut_members hlayout rest (fun m hm => hout m (List.mem_cons_of_mem _ hm))
        hless hleft

end

/-! ### Whole texts -/

/-- A whole text that breaks off in its value ends too early. -/
theorem BreaksOff.readWhole {α : Type} {reader : Reader α} {v : Json} (h : BreaksOff reader v)
    {layout : Layout} (hlayout : layout.Blank) {level : Nat} {part : List Char}
    (hpart : Cut part (write layout level v)) : readWhole? reader part = .error .endsEarly := by
  have hread := h layout hlayout level [] part spaces_nil (by rwa [List.nil_append])
  simp only [readWhole?, hread, bind, Except.bind]

end Json

end SamplingProfiler
