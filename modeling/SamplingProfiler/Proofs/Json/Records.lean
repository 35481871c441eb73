/-
Records are read back from the objects they were written as.

A record is read back if the members of its object, one after the other, take it from its
start to a state that it can be built from (`Fills`): each is the value of a field that has
not been read before.  What is written is the text of an object with these members, so what
the record makes of it is settled by what it makes of them (`Record.TakesAll`).
-/
import SamplingProfiler.Proofs.Json.Objects
import SamplingProfiler.Proofs.Json.Values

namespace SamplingProfiler

namespace Json

/-! ### The members that are written -/

/-- A member of an object, as it is written at a level of nesting. -/
def writtenMember (layout : Layout) (level : Nat) (m : String × Json) : Member :=
  ⟨m.1.toList, write layout level m.2⟩

section

variable {layout : Layout}

theorem isMember_write (hlayout : layout.Blank) (level : Nat) {before : List Char}
    (hbefore : Spaces before) (name : String) (v : Json) :
    IsMember (writtenMember layout level (name, v))
      (before ++ (quote name.toList ++ (layout.colon ++ write layout level v))) := by
  obtain ⟨spaces, hspaces, hcolon⟩ := hlayout.colon
  have h := IsMember.named (m := writtenMember layout level (name, v)) hbefore
    (spells_escaped name.toList) spaces_nil hspaces (isValue_write hlayout level v)
  rw [quote_append, hcolon]
  exact h

/-- What is written between the brackets of an object, given its first member. -/
theorem areMembers_write (hlayout : layout.Blank) (level : Nat) (members : List (String × Json))
    {m : Member} {t : List Char} (hm : IsMember m t) :
    ∃ text, AreMembers (m :: members.map (writtenMember layout (level + 1))) text
      ∧ t ++ writeMembers layout level members = text ++ ['\x7d'] := by
  induction members generalizing m t with
  | nil =>
      refine ⟨_, .last hm (hlayout.lineBreak level), ?_⟩
      simp [writeMembers]
  | cons next members ih =>
      obtain ⟨name, v⟩ := next
      obtain ⟨text, htext, heq⟩ :=
        ih (isMember_write hlayout (level + 1) (hlayout.lineBreak (level + 1)) name v)
      refine ⟨_, .cons hm spaces_nil htext, ?_⟩
      rw [List.append_assoc, List.append_assoc, List.cons_append, ← heq]
      simp [writeMembers]

end

/-! ### Members that fill a record -/

/-- Read one after the other, the members take a record from one state to another. -/
inductive Fills {σ α : Type} (r : Record σ α) : σ → List (String × Json) → σ → Prop
  | nil {state : σ} : Fills r state [] state
  | cons {state next last : σ} {name : String} {v : Json} {members : List (String × Json)}
      {f : Field σ} (field : r.fields.find? (·.name == name.toList) = some f)
      (first : f.known state = false) (reads : ReadsBack (f.read state) v next)
      (rest : Fills r next members last) : Fills r state ((name, v) :: members) last

variable {σ α : Type} {r : Record σ α}

/-- The members lead the record there however they are laid out. -/
theorem Fills.takesAll {state last : σ} {members : List (String × Json)}
    (h : Fills r state members last) {layout : Layout} (hlayout : layout.Blank) (level : Nat) :
    r.TakesAll state (members.map (writtenMember layout level)) (some last) := by
  induction h with
  | nil => exact .nil
  | cons field first reads _ ih =>
      refine .cons (.field field first fun gap hgap rest hrest => yields_ok ?_) ih
      rw [List.append_assoc]
      exact reads layout hlayout level gap rest hgap hrest

/-- A record is read back if its members lead to a state that it can be built from. -/
theorem Fills.readsBack {members : List (String × Json)} (last : σ) {a : α}
    (h : Fills r r.start members last) (hbuild : r.build last = some a) :
    ReadsBack r.read (.object members) a := by
  intro layout hlayout level before after hbefore _
  have hyields : Yields r.read (before ++ (write layout level (.object members) ++ after))
      (r.build last) after := by
    cases members with
    | nil =>
        cases h
        exact r.yields_empty hbefore spaces_nil after
    | cons m members =>
        obtain ⟨name, v⟩ := m
        obtain ⟨text, htext, heq⟩ := areMembers_write hlayout level members
          (isMember_write hlayout (level + 1) (hlayout.lineBreak (level + 1)) name v)
        have hwrite : write layout level (.object ((name, v) :: members))
            = '\x7b' :: (text ++ ['\x7d']) := by
          rw [← heq]
          simp [write]
        rw [hwrite, List.cons_append, List.append_assoc]
        exact (h.takesAll hlayout (level + 1)).yields hbefore htext after
  rw [hbuild] at hyields
  exact hyields

end Json

end SamplingProfiler
