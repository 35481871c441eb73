/-
A configuration is read from the fields that are given, and from nothing else.

The text is that of an object.  The members that are not fields may be any number, have any
names and hold any values, and all members may stand in any order: each is skipped or read
to its end.  So a configuration in which every field is given once or not at all is the
default with the given fields replaced, and one that gives a field twice is refused, at
the latest where the field occurs again.
-/
import SamplingProfiler.ConfigText
import SamplingProfiler.Proofs.Json.Objects
import SamplingProfiler.Proofs.Json.Values

namespace SamplingProfiler

open Json

/-! ### Natural numbers among values

Of a field that is given twice nothing is known but that its values are values.  So it has to be
said what the reader of natural numbers makes of any value: it refuses the value or reads it to its
end.
-/

/-- The natural number that a numeral is. -/
private def natural? : Numeral → Option Nat
  | .natural n => some n
  | .other => none

/-- A value of any kind is read to its end as a natural number, or refused. -/
private theorem makes_readNatural {v : List Char} (h : IsValue v) :
    ∃ result, ∀ gap, Spaces gap → Makes readNatural (gap ++ v) result := by
  obtain ⟨c, cs, rfl, hspace, -, -⟩ := exists_cons_of_isValue h
  have hskip : ∀ {gap rest : List Char}, Spaces gap →
      readNatural (gap ++ c :: cs ++ rest) = readNatural (c :: (cs ++ rest)) := by
    intro gap rest hgap
    simp only [readNatural, List.append_assoc, skipSpace_append hgap, List.cons_append]
  by_cases hc : c = '-' ∨ c.isDigit = true
  · obtain ⟨result, hmakes⟩ := makes_readNumeral (isNumber_of_isValue h hc)
    refine ⟨result.bind natural?, fun gap hgap rest hrest => ?_⟩
    refine ((hmakes rest hrest).andThen (fun a cs =>
      (natural? a).elim (.error .mismatched) fun n => .ok (n, cs)) natural? ?_).congr ?_
    · intro a _
      cases a with
      | natural n => exact yields_ok rfl
      | other => exact yields_error rfl
    · rw [hskip hgap]
      simp only [readNatural, skipSpace_cons hspace, if_pos hc, List.cons_append]
      rcases readNumeral (c :: (cs ++ rest)) with e | ⟨_ | _, rest⟩ <;> rfl
  · refine ⟨none, fun gap hgap rest _ => yields_error (e := otherShape (c :: (cs ++ rest))) ?_⟩
    rw [hskip hgap]
    simp only [readNatural, skipSpace_cons hspace, if_neg hc]

private theorem makes_toDigits {n : Nat} (hn : n ≤ maxWord) {gap : List Char} (hgap : Spaces gap) :
    Makes readNatural (gap ++ Nat.toDigits 10 n) (some n) := by
  intro rest hrest
  have hread := readsBack_readNatural hn .compact Layout.blank_compact 0 gap rest hgap hrest
  rw [write] at hread
  rw [List.append_assoc]
  exact yields_ok hread

/-! ### The fields

The fields are read alike, and differ only in their names and in where their values go.  With a type
of fields what holds of them is said once.  They do not get in each other's way
(`known?_learn_of_ne`), and that is why their order does not matter.
-/

/-- The fields of a configuration. -/
inductive ConfigField where
  | logCapacity
  | maxStackDepth
  | allocSampleBytes
deriving DecidableEq

namespace ConfigField

/-- What the field is called in a text. -/
def name : ConfigField → List Char
  | logCapacity => "log_capacity".toList
  | maxStackDepth => "max_stack_depth".toList
  | allocSampleBytes => "alloc_sample_bytes".toList

/-- The value of the field. -/
def value (config : Config) : ConfigField → Nat
  | logCapacity => config.logCapacity
  | maxStackDepth => config.maxStackDepth
  | allocSampleBytes => config.allocSampleBytes

/-- The value that has been read. -/
def known? (state : Config.Fields) : ConfigField → Option Nat
  | logCapacity => state.logCapacity
  | maxStackDepth => state.maxStackDepth
  | allocSampleBytes => state.allocSampleBytes

/-- Takes note of the value. -/
def learn (state : Config.Fields) (n : Nat) : ConfigField → Config.Fields
  | logCapacity => { state with logCapacity := some n }
  | maxStackDepth => { state with maxStackDepth := some n }
  | allocSampleBytes => { state with allocSampleBytes := some n }

/-- How the field is read. -/
def field (f : ConfigField) : Json.Field Config.Fields :=
  ⟨f.name, fun state => (f.known? state).isSome, fun state cs => do
    let (n, cs) ← readNatural cs
    return (f.learn state n, cs)⟩

variable {f g : ConfigField} {state : Config.Fields} {n : Nat}

theorem name_ne (h : f ≠ g) : f.name ≠ g.name := by
  cases f <;> cases g <;> first | exact absurd rfl h | decide

@[simp] theorem known?_learn : f.known? (f.learn state n) = some n := by cases f <;> rfl

theorem known?_learn_of_ne (h : f ≠ g) : f.known? (g.learn state n) = f.known? state := by
  cases f <;> cases g <;> first | exact absurd rfl h | rfl

theorem value_toConfig (state : Config.Fields) (f : ConfigField) :
    f.value state.toConfig = (f.known? state).getD (f.value {}) := by
  cases f <;> rfl

theorem find?_name (f : ConfigField) :
    Config.record.fields.find? (·.name == f.name) = some f.field := by
  cases f <;> rfl

theorem find?_of_ne {name : List Char} (h : ∀ f : ConfigField, name ≠ f.name) :
    Config.record.fields.find? (·.name == name) = none := by
  have hname : ∀ f ∈ Config.record.fields, ∃ g : ConfigField, f.name = g.name := by
    intro f hf
    simp only [Config.record, List.mem_cons, List.not_mem_nil, or_false] at hf
    obtain rfl | rfl | rfl := hf
    · exact ⟨logCapacity, rfl⟩
    · exact ⟨maxStackDepth, rfl⟩
    · exact ⟨allocSampleBytes, rfl⟩
  rw [List.find?_eq_none]
  intro f hf heq
  obtain ⟨g, hg⟩ := hname f hf
  exact h g ((beq_iff_eq.mp heq).symm.trans hg)

/-- What is made of the field's value when it comes first. -/
theorem takes {m : Member} {result : Option Nat} (hname : m.name = f.name)
    (hfirst : f.known? state = none)
    (hmakes : ∀ gap, Spaces gap → Makes readNatural (gap ++ m.value) result) :
    Config.record.Takes state m (result.map (f.learn state ·)) := by
  refine .field (f := f.field) (hname ▸ find?_name f) ?_ fun gap hgap rest hrest => ?_
  · simp only [field, hfirst, Option.isSome_none]
  · rw [Option.map_eq_bind]
    exact (hmakes gap hgap rest hrest).andThen (fun n cs => .ok (f.learn state n, cs)) _
      fun n _ => yields_ok rfl

/-- A member is a field or has a name that no field has. -/
theorem eq_name_or_ne (name : List Char) :
    (∃ f : ConfigField, name = f.name) ∨ ∀ f : ConfigField, name ≠ f.name := by
  by_cases h : ∃ f : ConfigField, name = f.name
  · exact .inl h
  · exact .inr fun f hf => h ⟨f, hf⟩

end ConfigField

/-! ### Texts of configurations

Both inductions go along the members, with the fields that have been read so far as the state.  The
first goes by what is yet to be given, and the second by how often a field has been read and is yet
to come.
-/

open ConfigField

/-- Do the members give these fields and no others, each once and as a natural number of 64
bits? -/
structure Gives (members : List Member) (given : ConfigField → Option Nat) : Prop where
  values : ∀ f, valuesOf f.name members = (given f).toList.map (Nat.toDigits 10)
  word : ∀ f n, given f = some n → n ≤ maxWord

section

variable {m : Member} {members : List Member} {given : ConfigField → Option Nat} {f : ConfigField}

/-- What remains to be given after a field. -/
private def without (given : ConfigField → Option Nat) (f g : ConfigField) : Option Nat :=
  if g = f then none else given g

private theorem without_eq_some {g : ConfigField} {n : Nat} (h : without given f g = some n) :
    g ≠ f ∧ given g = some n := by
  unfold without at h
  by_cases hgf : g = f
  · simp [hgf] at h
  · exact ⟨hgf, by rwa [if_neg hgf] at h⟩

private theorem Gives.nil (h : Gives [] given) (f : ConfigField) : given f = none := by
  have hnil := h.values f
  rw [valuesOf_nil] at hnil
  cases hgiven : given f with
  | none => rfl
  | some n => simp [hgiven] at hnil

private theorem Gives.field (h : Gives (m :: members) given) (hm : m.name = f.name) :
    ∃ n ≤ maxWord, given f = some n ∧ m.value = Nat.toDigits 10 n
      ∧ Gives members (without given f) := by
  have hvalues := h.values f
  rw [valuesOf_cons_of_eq hm] at hvalues
  cases hgiven : given f with
  | none => simp [hgiven] at hvalues
  | some n =>
      rw [hgiven] at hvalues
      obtain ⟨hvalue, hrest⟩ := List.cons.inj hvalues
      refine ⟨n, h.word f n hgiven, rfl, hvalue, fun g => ?_, fun g k hg => ?_⟩
      · unfold without
        by_cases hgf : g = f
        · simp only [hgf, if_true]
          exact hrest
        · rw [if_neg hgf, ← h.values g, valuesOf_cons_of_ne (hm ▸ name_ne (Ne.symm hgf))]
      · exact h.word g k (without_eq_some hg).2

private theorem Gives.other (h : Gives (m :: members) given)
    (hm : ∀ f : ConfigField, m.name ≠ f.name) : Gives members given :=
  ⟨fun f => by rw [← h.values f, valuesOf_cons_of_ne (hm f)], h.word⟩

/-- All fields that are given are read, if they have not been before. -/
private theorem takesAll_given (state : Config.Fields) (h : Gives members given)
    (hfirst : ∀ f n, given f = some n → f.known? state = none) :
    ∃ last, Config.record.TakesAll state members (some last)
      ∧ ∀ f, f.known? last = (given f).or (f.known? state) := by
  induction members generalizing given state with
  | nil =>
      refine ⟨state, .nil, fun f => ?_⟩
      rw [h.nil f, Option.none_or]
  | cons m members ih =>
      obtain ⟨f, hf⟩ | hother := eq_name_or_ne m.name
      · obtain ⟨n, hn, hgiven, hvalue, hrest⟩ := h.field hf
        have htakes := ConfigField.takes hf (hfirst f n hgiven) fun gap hgap => by
          rw [hvalue]
          exact makes_toDigits hn hgap
        obtain ⟨last, hall, hlast⟩ := ih (f.learn state n) hrest fun g k hg => by
          obtain ⟨hgf, hg⟩ := without_eq_some hg
          rw [known?_learn_of_ne hgf]
          exact hfirst g k hg
        refine ⟨last, .cons htakes hall, fun g => ?_⟩
        rw [hlast g]
        unfold without
        by_cases hgf : g = f
        · simp [hgf, hgiven]
        · rw [if_neg hgf, known?_learn_of_ne hgf]
      · obtain ⟨last, hall, hlast⟩ := ih state (h.other hother) hfirst
        exact ⟨last, .cons (.other (find?_of_ne hother)) hall, hlast⟩

/-- A field that occurs again is refused, if nothing is before. -/
private theorem takesAll_again (state : Config.Fields) (hvalid : ∀ m ∈ members, IsValue m.value)
    (f : ConfigField)
    (htwice : 2 ≤ (f.known? state).toList.length + (valuesOf f.name members).length) :
    Config.record.TakesAll state members none := by
  induction members generalizing state with
  | nil =>
      cases hknown : f.known? state <;> simp [hknown] at htwice
  | cons m members ih =>
      have hvalid' : ∀ m ∈ members, IsValue m.value :=
        fun m hm => hvalid m (List.mem_cons_of_mem _ hm)
      obtain ⟨g, hg⟩ | hother := eq_name_or_ne m.name
      · cases hknown : g.known? state with
        | some n =>
            refine .refused (.again (f := g.field) (hg ▸ find?_name g) ?_)
            simp only [field, hknown, Option.isSome_some]
        | none =>
            obtain ⟨result, hmakes⟩ := makes_readNatural (hvalid m List.mem_cons_self)
            have htakes := ConfigField.takes hg hknown hmakes
            cases result with
            | none => exact .refused htakes
            | some n =>
                refine .cons htakes (ih _ hvalid' ?_)
                by_cases hfg : f = g
                · subst hfg
                  rw [hknown, valuesOf_cons_of_eq hg] at htwice
                  simp only [known?_learn, Option.toList_some, Option.toList_none,
                    List.length_nil, List.length_cons] at htwice ⊢
                  omega
                · rw [valuesOf_cons_of_ne (hg ▸ name_ne (Ne.symm hfg))] at htwice
                  rwa [known?_learn_of_ne hfg]
      · rw [valuesOf_cons_of_ne (hother f)] at htwice
        exact .cons (.other (find?_of_ne hother)) (ih state hvalid' htwice)

/-- A configuration depends on the fields that its text gives and on nothing else in it.  If
each field is given at most once, as a natural number of 64 bits, it has these values and
the default ones.  If a field is given twice, whatever its values, the text is refused. -/
theorem Config.ofText_of_isObject {text : List Char} (h : IsObject members text) :
    (∀ given, Gives members given →
      ∃ config, Config.ofText text = .ok config
        ∧ ∀ f : ConfigField, f.value config = (given f).getD (f.value {}))
    ∧ ∀ f : ConfigField, 2 ≤ (valuesOf f.name members).length →
      ∃ e, Config.ofText text = .error e := by
  constructor
  · intro given hgiven
    obtain ⟨last, htakes, hlast⟩ := takesAll_given {} hgiven
      fun f _ _ => by cases f <;> rfl
    refine ⟨last.toConfig, h.readWhole htakes, fun f => ?_⟩
    have hstart : f.known? {} = none := by cases f <;> rfl
    rw [value_toConfig, hlast, hstart, Option.or_none]
  · intro f htwice
    have htakes := takesAll_again {} h.isValue f (by omega)
    exact h.readWhole htakes

end

/-- For instance a depth is found behind a member that is no field, though its name is written
with an escape, and a capacity that is given twice is refused. -/
theorem Config.ofText_of_isObject_nested :
    Config.ofText
        "\x7b\"x\":[1e9,\x7b\"\\ud800\":null\x7d], \"max_stack\\u005fdepth\":4 \x7d".toList
      = .ok { maxStackDepth := 4 }
    ∧ ∃ e, Config.ofText "\x7b\"log_capacity\":null,\"log_capacity\":1\x7d".toList
      = .error e := by
  have hplain : ∀ t : List Char, t.all (fun c => decide (IsPlain c)) = true → ∀ c ∈ t, IsPlain c :=
    fun t h c hc => of_decide_eq_true (List.all_eq_true.mp h c hc)
  have hspace : Spaces [' '] := .cons rfl spaces_nil
  constructor
  · have hnumber : IsNumber ([] ++ (['1'] ++ ([] ++ ('e' :: ([] ++ ['9']))))) :=
      .parts (.inl rfl) (isWhole_toDigits 1) .none (.some (.inl rfl) (.inl rfl)
        (isWhole_toDigits 9).digits)
    have hhalf : CodeUnit ['d', '8', '0', '0'] 0xD800 :=
      .digits (.small (n := 13) (by decide)) (.small (n := 8) (by decide))
        (.small (n := 0) (by decide)) (.small (n := 0) (by decide))
    have hinner := IsPart.object (.lastMember (.quoted spaces_nil (.code hhalf .nil) spaces_nil)
      spaces_nil .null spaces_nil)
    have hx := IsMember.named (m := ⟨['x'], _⟩) spaces_nil (spells_self (hplain _ rfl)) spaces_nil
      spaces_nil (.array (.item spaces_nil (.number hnumber) spaces_nil
        (.lastItem spaces_nil hinner spaces_nil)))
    have hunder : CodeUnit ['0', '0', '5', 'f'] '_'.toNat :=
      .digits (.small (n := 0) (by decide)) (.small (n := 0) (by decide))
        (.small (n := 5) (by decide)) (.small (n := 15) (by decide))
    have hname : Spells ("max_stack".toList ++ '\\' :: 'u' :: (_ ++ "depth".toList))
        ConfigField.maxStackDepth.name :=
      .plain_append (hplain _ rfl) (.code hunder (spells_self (hplain _ rfl)))
    have hdepth := IsMember.named (m := ⟨ConfigField.maxStackDepth.name, Nat.toDigits 10 4⟩) hspace
      hname spaces_nil spaces_nil (.number (isNumber_toDigits 4))
    have hobject := IsObject.members spaces_nil (.cons hx spaces_nil (.last hdepth hspace))
      spaces_nil
    obtain ⟨config, hconfig, hvalue⟩ := (Config.ofText_of_isObject hobject).1
      (fun f => if f = ConfigField.maxStackDepth then some 4 else none)
      ⟨fun f => by cases f <;> rfl, fun f n hn => by
        cases f with
        | maxStackDepth =>
            rw [← Option.some.inj hn]
            decide
        | logCapacity => cases hn
        | allocSampleBytes => cases hn⟩
    have heq : config = { maxStackDepth := 4 } := by
      have hcapacity := hvalue ConfigField.logCapacity
      have hdepth := hvalue ConfigField.maxStackDepth
      have hbytes := hvalue ConfigField.allocSampleBytes
      cases config
      simp only [ConfigField.value, Config.mk.injEq] at *
      exact ⟨hcapacity, hdepth, hbytes⟩
    rw [heq] at hconfig
    exact hconfig
  · have hname : Spells "log_capacity".toList ConfigField.logCapacity.name :=
      spells_self (hplain _ rfl)
    have hnull := IsMember.named (m := ⟨ConfigField.logCapacity.name, _⟩) spaces_nil hname
      spaces_nil spaces_nil .null
    have hone := IsMember.named (m := ⟨ConfigField.logCapacity.name, _⟩) spaces_nil hname
      spaces_nil spaces_nil (.number (isNumber_toDigits 1))
    have hobject := IsObject.members spaces_nil (.cons hnull spaces_nil (.last hone spaces_nil))
      spaces_nil
    exact (Config.ofText_of_isObject hobject).2 ConfigField.logCapacity (by decide)

end SamplingProfiler
