/-
What a record is read as depends only on the members of the object.

The text of an object lists its members: each a name, which may be written in many ways, and
the text of a value.  There may be white space between all pieces (`IsObject`).  What the
record makes of a member is settled by the member and the fields read so far
(`Record.Takes`): a value that a field takes leads to a state in which the field is known, a
value that it refuses and the value of a field that is known already lead nowhere, and a
member that no field has the name of changes nothing, since its value is skipped to its
end.  The members one after the other settle what is read (`IsObject.readWhole`).
-/
import SamplingProfiler.Proofs.Json.Skipping

namespace SamplingProfiler

namespace Json

/-! ### The text of an object -/

/-- A member of an object. -/
structure Member where
  /-- The name that its string stands for. -/
  name : List Char
  /-- The text of its value. -/
  value : List Char
deriving DecidableEq

/-- The text of a member. -/
inductive IsMember (m : Member) : List Char → Prop where
  | named {before name after gap : List Char} (hbefore : Spaces before)
      (hname : Spells name m.name) (hafter : Spaces after) (hgap : Spaces gap)
      (hv : IsValue m.value) :
      IsMember m (before ++ '"' :: (name ++ '"' :: (after ++ ':' :: (gap ++ m.value))))

/-- The text of one member or more, with commas between them. -/
inductive AreMembers : List Member → List Char → Prop where
  | last {m : Member} {t gap : List Char} (h : IsMember m t) (hgap : Spaces gap) :
      AreMembers [m] (t ++ gap)
  | cons {m : Member} {members : List Member} {t gap rest : List Char} (h : IsMember m t)
      (hgap : Spaces gap) (hrest : AreMembers members rest) :
      AreMembers (m :: members) (t ++ (gap ++ ',' :: rest))

/-- The text of an object with these members, in this order. -/
inductive IsObject : List Member → List Char → Prop where
  | empty {before gap after : List Char} (hbefore : Spaces before) (hgap : Spaces gap)
      (hafter : Spaces after) : IsObject [] (before ++ '\x7b' :: (gap ++ '\x7d' :: after))
  | members {members : List Member} {before t after : List Char} (hbefore : Spaces before)
      (h : AreMembers members t) (hafter : Spaces after) :
      IsObject members (before ++ '\x7b' :: (t ++ '\x7d' :: after))

/-- The values under a name, in their order. -/
def valuesOf (name : List Char) (members : List Member) : List (List Char) :=
  (members.filter (·.name == name)).map (·.value)

section

variable {name : List Char} {m : Member} {members : List Member}

@[simp] theorem valuesOf_nil : valuesOf name [] = [] := rfl

theorem valuesOf_cons_of_eq (h : m.name = name) :
    valuesOf name (m :: members) = m.value :: valuesOf name members := by
  simp [valuesOf, h]

theorem valuesOf_cons_of_ne (h : m.name ≠ name) :
    valuesOf name (m :: members) = valuesOf name members := by
  simp [valuesOf, h]

end

private theorem AreMembers.isValue {members : List Member} {t : List Char}
    (h : AreMembers members t) : ∀ m ∈ members, IsValue m.value := by
  induction h with
  | last h _ =>
      obtain ⟨-, -, -, -, hv⟩ := h
      intro m hm
      rw [List.mem_singleton.mp hm]
      exact hv
  | cons h _ _ ih =>
      obtain ⟨-, -, -, -, hv⟩ := h
      intro m hm
      rcases List.mem_cons.mp hm with rfl | hm
      · exact hv
      · exact ih m hm

theorem IsObject.isValue {members : List Member} {text : List Char} (h : IsObject members text) :
    ∀ m ∈ members, IsValue m.value := by
  cases h with
  | empty => exact nofun
  | members _ h _ => exact h.isValue

/-! ### What a record makes of members

`Record.Takes` knows a member by its name and the text of its value.  How the name is spelled and
where there is white space it does not know, and the lemmas from `makes_readMember` on say that
neither makes a difference to the reader.
-/

section

variable {σ α : Type}

/-- What a record makes of one member. -/
inductive Record.Takes (r : Record σ α) (state : σ) (m : Member) : Option σ → Prop where
  | other (h : r.fields.find? (·.name == m.name) = none) : Takes r state m (some state)
  | again {f : Field σ} (h : r.fields.find? (·.name == m.name) = some f)
      (hknown : f.known state = true) : Takes r state m none
  | field {f : Field σ} {result : Option σ} (h : r.fields.find? (·.name == m.name) = some f)
      (hfirst : f.known state = false)
      (hmakes : ∀ gap, Spaces gap → Makes (f.read state) (gap ++ m.value) result) :
      Takes r state m result

/-- What a record makes of members one after the other. -/
inductive Record.TakesAll (r : Record σ α) : σ → List Member → Option σ → Prop where
  | nil {state : σ} : TakesAll r state [] (some state)
  | refused {state : σ} {m : Member} {members : List Member} (h : r.Takes state m none) :
      TakesAll r state (m :: members) none
  | cons {state next : σ} {m : Member} {members : List Member} {result : Option σ}
      (h : r.Takes state m (some next)) (rest : TakesAll r next members result) :
      TakesAll r state (m :: members) result

open Record

variable {r : Record σ α} {state : σ} {m : Member} {members : List Member} {t gap after : List Char}
  {result : Option σ}

private theorem readColon_append (hafter : Spaces after) (cs : List Char) :
    readColon (after ++ ':' :: cs) = .ok ((), cs) := by
  unfold readColon
  rw [skipSpace_append hafter]
  rfl

/-- A member is read from behind its name to behind its value. -/
private theorem makes_readMember (h : r.Takes state m result) (hafter : Spaces after)
    (hgap : Spaces gap) (hv : IsValue m.value) :
    Makes (r.readMember m.name state) (after ++ ':' :: (gap ++ m.value)) result := by
  intro rest hrest
  have hcolon : readColon (after ++ ':' :: (gap ++ m.value) ++ rest)
      = .ok ((), gap ++ (m.value ++ rest)) := by
    rw [List.append_assoc, List.cons_append, List.append_assoc]
    exact readColon_append hafter _
  cases h with
  | other hfind =>
      refine yields_ok ?_
      simp only [readMember, hfind, hcolon, skipValue_append hgap hv hrest, bind, Except.bind]
      rfl
  | again hfind hknown =>
      refine yields_error (e := .mismatched) ?_
      simp only [readMember, hfind, hknown, if_true]
  | field hfind hfirst hmakes =>
      refine (hmakes gap hgap rest hrest).congr ?_
      rw [List.append_assoc gap]
      simp only [readMember, hfind, hfirst, Bool.false_eq_true, if_false, hcolon, bind, Except.bind]

theorem nextMember_first {before : List Char} (hbefore : Spaces before) (cs : List Char) :
    nextMember true (before ++ '"' :: cs) = .ok (true, cs) := by
  unfold nextMember
  rw [skipSpace_append hbefore]
  rfl

theorem nextMember_comma {before : List Char} (hbefore : Spaces before) (cs : List Char) :
    nextMember false (',' :: (before ++ '"' :: cs)) = .ok (true, cs) := by
  have hcomma : isSpace ',' = false := rfl
  simp only [nextMember, skipSpace_cons hcomma, skipSpace_append hbefore]
  rfl

/-- What stands before a member: nothing before the first one, a comma before any other. -/
private def separator (first : Bool) : List Char := if first then [] else [',']

private theorem nextMember_separator (first : Bool) {before : List Char} (hbefore : Spaces before)
    (cs : List Char) :
    nextMember first (separator first ++ (before ++ '"' :: cs)) = .ok (true, cs) := by
  cases first with
  | true => exact nextMember_first hbefore cs
  | false => exact nextMember_comma hbefore cs

/-- A round reads a member. -/
private theorem makes_memberRound (first : Bool) (hm : IsMember m t) (h : r.Takes state m result) :
    Makes (r.memberRound (first, state)) (separator first ++ t)
      (result.map fun next => .more (false, next)) := by
  obtain ⟨hbefore, hname, hafter, hgap, hv⟩ := hm
  rename_i before name after gap
  intro rest hrest
  have hnext := nextMember_separator first hbefore
    (name ++ '"' :: (after ++ ':' :: (gap ++ m.value)) ++ rest)
  have hstring := readString_append hname (after ++ ':' :: (gap ++ m.value) ++ rest)
  have hread := (makes_readMember h hafter hgap hv rest hrest).andThen
    (fun next cs => .ok (Round.more (α := σ) (false, next), cs))
    (fun next => some (.more (false, next))) fun _ _ => yields_ok rfl
  rw [Option.map_eq_bind]
  refine hread.congr ?_
  simp only [List.append_assoc, List.cons_append] at hnext hstring ⊢
  simp only [memberRound, hnext, hstring, bind, Except.bind, if_true]
  rfl

private theorem rounds_taken (first : Bool) (hm : IsMember m t) {next : σ}
    (h : r.Takes state m (some next)) {rest : List Char} (hrest : Ends rest) (fuel : Nat) :
    rounds r.memberRound (fuel + 1) (first, state) (separator first ++ (t ++ rest))
      = rounds r.memberRound fuel (false, next) rest := by
  have hround : r.memberRound (first, state) (separator first ++ t ++ rest)
      = .ok (.more (false, next), rest) := makes_memberRound first hm h rest hrest
  rw [← List.append_assoc, rounds, hround]

private theorem rounds_refused (first : Bool) (hm : IsMember m t) (h : r.Takes state m none)
    {rest : List Char} (hrest : Ends rest) (fuel : Nat) (last : List Char) :
    Yields (rounds r.memberRound (fuel + 1) (first, state)) (separator first ++ (t ++ rest)) none
      last := by
  obtain ⟨e, he⟩ := makes_memberRound first hm h rest hrest
  exact yields_error (e := e) (by rw [← List.append_assoc, rounds, he])

private theorem memberRound_skipSpace (first : Bool) (hgap : Spaces gap) (cs : List Char) :
    r.memberRound (first, state) (gap ++ cs) = r.memberRound (first, state) cs := by
  simp only [memberRound, nextMember, skipSpace_append hgap]

private theorem rounds_close (first : Bool) (hgap : Spaces gap) (fuel : Nat) :
    rounds r.memberRound (fuel + 1) (first, state) (gap ++ '\x7d' :: after)
      = .ok (state, '\x7d' :: after) := by
  rw [rounds, memberRound_skipSpace first hgap]
  rfl

private theorem rounds_skipSpace (first : Bool) (hgap : Spaces gap) (fuel : Nat) (cs : List Char) :
    rounds r.memberRound fuel (first, state) (gap ++ cs)
      = rounds r.memberRound fuel (first, state) cs := by
  cases fuel with
  | zero => rfl
  | succ fuel => rw [rounds, rounds, memberRound_skipSpace first hgap]

/-- All members are read, up to the bracket that closes the object. -/
private theorem rounds_members (h : AreMembers members t) (first : Bool)
    (htakes : r.TakesAll state members result) {fuel : Nat} (hfuel : members.length < fuel) :
    Yields (rounds r.memberRound fuel (first, state)) (separator first ++ (t ++ '\x7d' :: after))
      result ('\x7d' :: after) := by
  induction h generalizing state first fuel with
  | @last m t gap hm hgap =>
      obtain ⟨fuel, rfl⟩ := Nat.exists_eq_add_one.mpr (Nat.zero_lt_of_lt hfuel)
      have hends : Ends (gap ++ '\x7d' :: after) :=
        hgap.ends_append (ends_cons rfl (by decide) (by decide) (by decide))
      rw [List.append_assoc]
      cases htakes with
      | refused h => exact rounds_refused first hm h hends fuel _
      | cons h rest =>
          cases rest
          obtain ⟨fuel, rfl⟩ := Nat.exists_eq_add_one.mpr
            (Nat.zero_lt_of_lt (Nat.lt_of_succ_lt_succ hfuel))
          exact yields_ok ((rounds_taken first hm h hends _).trans (rounds_close false hgap fuel))
  | @cons m members t gap rest hm hgap _ ih =>
      obtain ⟨fuel, rfl⟩ := Nat.exists_eq_add_one.mpr (Nat.zero_lt_of_lt hfuel)
      have hends : Ends (gap ++ ',' :: (rest ++ '\x7d' :: after)) :=
        hgap.ends_append (ends_cons rfl (by decide) (by decide) (by decide))
      rw [List.append_assoc, List.append_assoc, List.cons_append]
      cases htakes with
      | refused h => exact rounds_refused first hm h hends fuel _
      | cons h htakes =>
          refine (ih false htakes (Nat.lt_of_succ_lt_succ hfuel)).congr ?_
          rw [rounds_taken first hm h hends, rounds_skipSpace false hgap]
          rfl

/-- No object has more members than its text has characters. -/
private theorem AreMembers.length_le (h : AreMembers members t) : members.length ≤ t.length := by
  induction h with
  | last h _ =>
      obtain ⟨-, -, -, -, -⟩ := h
      simp only [List.length_append, List.length_cons, List.length_nil]
      omega
  | cons h _ _ ih =>
      simp only [List.length_append, List.length_cons]
      omega

/-! ### Objects -/

private theorem yields_read {before text : List Char} (hbefore : Spaces before)
    (hbody : Yields (repeatRounds r.memberRound (true, r.start)) text result ('\x7d' :: after)) :
    Yields r.read (before ++ '\x7b' :: text) (result.bind r.build) after := by
  have hclose : ∀ state, Yields (fun cs =>
      r.finish state >>= fun a => readClose .curly cs >>= fun x => return (a, x.2))
      ('\x7d' :: after) (r.build state) after := by
    intro state
    cases hbuild : r.build state with
    | none => exact yields_error (e := .mismatched) (by simp only [finish, hbuild]; rfl)
    | some a => exact yields_ok (by simp only [finish, hbuild]; rfl)
  refine (hbody.andThen _ r.build fun state _ => hclose state).congr ?_
  have hbrace : isSpace '\x7b' = false := rfl
  simp only [Record.read, skipSpace_append hbefore, skipSpace_cons hbrace]

/-- From an object without members a record is built as it started. -/
theorem Record.yields_empty (r : Record σ α) {before : List Char} (hbefore : Spaces before)
    (hgap : Spaces gap) (after : List Char) :
    Yields r.read (before ++ '\x7b' :: (gap ++ '\x7d' :: after)) (r.build r.start) after :=
  yields_read hbefore (yields_ok (rounds_close true hgap _))

/-- From an object a record is built if its members lead to a state to build it from. -/
theorem Record.TakesAll.yields (htakes : r.TakesAll r.start members result) {before : List Char}
    (hbefore : Spaces before) (h : AreMembers members t) (after : List Char) :
    Yields r.read (before ++ '\x7b' :: (t ++ '\x7d' :: after)) (result.bind r.build) after := by
  have hlength := h.length_le
  refine yields_read hbefore (rounds_members h true htakes ?_)
  rw [List.length_append]
  omega

/-! ### The whole text -/

/-- What is read from the text of an object is what is built from what its members come to. -/
theorem IsObject.readWhole {text : List Char} (h : IsObject members text)
    (htakes : r.TakesAll r.start members result) :
    match result.bind r.build with
    | some a => readWhole? r.read text = .ok a
    | none => ∃ e, readWhole? r.read text = .error e := by
  obtain ⟨after, hafter, hread⟩ : ∃ after, Spaces after
      ∧ Yields r.read text (result.bind r.build) after := by
    cases h with
    | @empty before gap after hbefore hgap hafter =>
        cases htakes
        exact ⟨after, hafter, r.yields_empty hbefore hgap after⟩
    | @members _ before t after hbefore h hafter =>
        exact ⟨after, hafter, htakes.yields hbefore h after⟩
  cases hresult : result.bind r.build with
  | none =>
      rw [hresult] at hread
      obtain ⟨e, he⟩ := hread
      exact ⟨e, by simp only [readWhole?, he, bind, Except.bind]⟩
  | some a =>
      rw [hresult] at hread
      have hok : r.read text = .ok (a, after) := hread
      simp only [readWhole?, hok, skipSpace_eq_nil hafter, bind, Except.bind]
      rfl

end

end Json

end SamplingProfiler
