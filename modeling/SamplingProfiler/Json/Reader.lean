/-
Reading JSON values: the shape that is wanted decides how the text is read.

A reader of a shape goes through the text once and refuses at the first character that
cannot belong to the shape.  Where a value of one shape is found and another is wanted, the
scalar in the way is still read to its end, so that a text with a broken scalar counts as
broken and not as mismatched; an array or an object counts as mismatched at its bracket.

Lists and records of any length are read in rounds.  Every round takes at least one
character off the text, so the length of the text bounds the rounds (`repeatRounds`).
-/
import SamplingProfiler.Json.Lexeme

namespace SamplingProfiler

namespace Json

/-! ### Rounds -/

/-- How a round ends: there is more to do, or the answer is found. -/
inductive Round (σ α : Type) where
  | more (state : σ)
  | done (answer : α)

/-- Does at most so many rounds. -/
def rounds {σ α : Type} (round : σ → Reader (Round σ α)) : Nat → σ → Reader α
  | 0, _, _ => .error .endsEarly
  | n + 1, state, cs =>
    match round state cs with
    | .error e => .error e
    | .ok (.done answer, rest) => .ok (answer, rest)
    | .ok (.more state, rest) => rounds round n state rest

/-- Does rounds until one finds the answer.  No text has more rounds than characters, but for
the round that finds the text at its end. -/
def repeatRounds {σ α : Type} (round : σ → Reader (Round σ α)) (state : σ) : Reader α :=
  fun cs => rounds round (cs.length + 1) state cs

/-! ### Skipping a value

Nobody wants the value that is passed over, so there is nothing to recurse on but text.  The
brackets that are open are kept on a stack, and each round passes over the beginning of a value or
over what stands behind one.  How closely scalars are looked at is a parameter (`Scrutiny`).
-/

/-- The two kinds of bracket. -/
inductive Bracket where
  /-- Of an array. -/
  | square
  /-- Of an object. -/
  | curly
deriving DecidableEq, Inhabited

/-- The character that closes a bracket. -/
def Bracket.close : Bracket → Char
  | square => ']'
  | curly => '\x7d'

/-- How closely the values that are passed over are looked at. -/
structure Scrutiny where
  /-- Must numbers be finite and surrogates paired? -/
  strict : Bool
  /-- How many brackets may be open at a time, if there is a limit. -/
  limit : Option Nat

/-- May one more bracket be opened? -/
def Scrutiny.allows (s : Scrutiny) (opened : List Bracket) : Bool :=
  s.limit.all (opened.length < ·)

/-- Passes over a string after its opening quote. -/
def passString (s : Scrutiny) (cs : List Char) : Except Refusal (List Char) :=
  if s.strict then (readString cs).map (·.2) else skipString cs

/-- Passes over a number. -/
def passNumeral (s : Scrutiny) (cs : List Char) : Except Refusal (List Char) :=
  if s.strict then (readNumeral cs).map (·.2) else skipNumeral cs

/-- Passes over the name of a member and the colon after it. -/
def passName (s : Scrutiny) (cs : List Char) : Except Refusal (List Char) :=
  match skipSpace cs with
  | [] => .error .endsEarly
  | '"' :: cs => do
    match skipSpace (← passString s cs) with
    | [] => .error .endsEarly
    | ':' :: cs => .ok cs
    | _ => .error .malformed
  | _ => .error .malformed

/-- Where in a value the text stands. -/
inductive Place where
  /-- Before a value. -/
  | value
  /-- After a value. -/
  | after
deriving DecidableEq, Inhabited

/-- Passes over the beginning of a value: a whole scalar, an empty array or object, or the
opening bracket and, in an object, the first name. -/
def passOpening (s : Scrutiny) (opened : List Bracket) : Reader (Place × List Bracket) :=
  fun cs =>
    match skipSpace cs with
    | [] => .error .endsEarly
    | '"' :: cs => do return ((.after, opened), ← passString s cs)
    | '[' :: cs =>
      if !s.allows opened then .error .malformed
      else match skipSpace cs with
        | [] => .error .endsEarly
        | ']' :: cs => .ok ((.after, opened), cs)
        | cs => .ok ((.value, .square :: opened), cs)
    | '\x7b' :: cs =>
      if !s.allows opened then .error .malformed
      else match skipSpace cs with
        | [] => .error .endsEarly
        | '\x7d' :: cs => .ok ((.after, opened), cs)
        | cs => do return ((.value, .curly :: opened), ← passName s cs)
    | c :: cs =>
      match literalRest c with
      | some word => do return ((.after, opened), ← readWord word cs)
      | none =>
        if c = '-' ∨ c.isDigit then do return ((.after, opened), ← passNumeral s (c :: cs))
        else .error .malformed

/-- Passes over what follows a value inside a bracket: a comma and, in an object, the next
name, or the closing bracket. -/
def passBetween (s : Scrutiny) (inner : Bracket) (outer : List Bracket) :
    Reader (Place × List Bracket) :=
  fun cs =>
    match skipSpace cs with
    | [] => .error .endsEarly
    | ',' :: cs =>
      match inner with
      | .square => .ok ((.value, inner :: outer), cs)
      | .curly => do return ((.value, inner :: outer), ← passName s cs)
    | c :: cs => if c = inner.close then .ok ((.after, outer), cs) else .error .malformed

/-- One round of passing over a value. -/
def passRound (s : Scrutiny) : Place × List Bracket → Reader (Round (Place × List Bracket) Unit)
  | (.after, []), cs => .ok (.done (), cs)
  | (.after, inner :: outer), cs => do
    let (state, rest) ← passBetween s inner outer cs
    return (.more state, rest)
  | (.value, opened), cs => do
    let (state, rest) ← passOpening s opened cs
    return (.more state, rest)

/-- Passes over one value of any depth. -/
def pass (s : Scrutiny) : Reader Unit := repeatRounds (passRound s) (.value, [])

/-- Skips a value that nobody wants. -/
def skipValue : Reader Unit := pass ⟨false, none⟩

/-! ### A value of another shape -/

/-- The refusal of the value that the text goes on with, where a value of another shape is
wanted. -/
def otherShape (cs : List Char) : Refusal :=
  let verdict : Except Refusal Unit :=
    match skipSpace cs with
    | [] => .error .endsEarly
    | '"' :: cs => (readString cs).map fun _ => ()
    | '[' :: _ => .ok ()
    | '\x7b' :: _ => .ok ()
    | c :: cs =>
      match literalRest c with
      | some word => (readWord word cs).map fun _ => ()
      | none =>
        if c = '-' ∨ c.isDigit then (readNumeral (c :: cs)).map fun _ => ()
        else .error .malformed
  match verdict with
  | .ok () => .mismatched
  | .error e => e

/-! ### Scalars -/

/-- Reads a natural number of at most 64 bits. -/
def readNatural : Reader Nat := fun cs =>
  match skipSpace cs with
  | c :: rest =>
    if c = '-' ∨ c.isDigit then
      match readNumeral (c :: rest) with
      | .ok (.natural n, rest) => .ok (n, rest)
      | .ok (.other, _) => .error .mismatched
      | .error e => .error e
    else .error (otherShape (c :: rest))
  | [] => .error .endsEarly

/-- Reads a string. -/
def readText : Reader (List Char) := fun cs =>
  match skipSpace cs with
  | '"' :: cs => readString cs
  | cs => .error (otherShape cs)

/-- Reads the null value. -/
def readNull : Reader Unit := fun cs =>
  match skipSpace cs with
  | 'n' :: cs => do return ((), ← readWord ['u', 'l', 'l'] cs)
  | cs => .error (otherShape cs)

/-- Reads a colon. -/
def readColon : Reader Unit := fun cs =>
  match skipSpace cs with
  | [] => .error .endsEarly
  | ':' :: cs => .ok ((), cs)
  | _ => .error .malformed

/-! ### Arrays -/

/-- Goes to the next item of an array: is there one?  Before an item the comma is taken off
the text; the closing bracket stays. -/
def nextItem (first : Bool) : Reader Bool := fun cs =>
  match skipSpace cs with
  | [] => .error .endsEarly
  | ']' :: cs => .ok (false, ']' :: cs)
  | ',' :: cs =>
    if first then .ok (true, ',' :: cs)
    else match skipSpace cs with
      | [] => .error .endsEarly
      | ']' :: _ => .error .malformed
      | cs => .ok (true, cs)
  | cs => if first then .ok (true, cs) else .error .malformed

/-- Takes a closing bracket off the text. -/
def readClose (b : Bracket) : Reader Unit := fun cs =>
  match skipSpace cs with
  | [] => .error .endsEarly
  | c :: cs => if c = b.close then .ok ((), cs) else .error .malformed

/-- One round of reading an array; the items read so far are kept newest first. -/
def itemRound {α : Type} (item : Reader α) : List α → Reader (Round (List α) (List α)) :=
  fun items cs => do
    let (more, cs) ← nextItem items.isEmpty cs
    if more then
      let (a, cs) ← item cs
      return (.more (a :: items), cs)
    else
      let ((), cs) ← readClose .square cs
      return (.done items.reverse, cs)

/-- Reads an array of items of one shape. -/
def readArray {α : Type} (item : Reader α) : Reader (List α) := fun cs =>
  match skipSpace cs with
  | '[' :: cs => repeatRounds (itemRound item) [] cs
  | cs => .error (otherShape cs)

/-! ### Records

A record is read into a state that begins empty.  So a field that comes twice is noticed where it
comes the second time, and one that is missing only at the end, when the record is built.
-/

/-- A field of a record that is read into a state. -/
structure Field (σ : Type) where
  /-- The name. -/
  name : List Char
  /-- Has it been read? -/
  known : σ → Bool
  /-- Reads its value. -/
  read : σ → Reader σ

/-- A record is read from an object with its fields in any order, or from an array with its
fields in their order.  Of an object, members with other names are skipped. -/
structure Record (σ α : Type) where
  /-- The fields in their order. -/
  fields : List (Field σ)
  /-- The state before any field is read. -/
  start : σ
  /-- The record, or none if a field is missing. -/
  build : σ → Option α

namespace Record

variable {σ α : Type}

/-- The record built from the fields read; a missing field is a mismatch. -/
def finish (r : Record σ α) (state : σ) : Except Refusal α :=
  match r.build state with
  | some a => .ok a
  | none => .error .mismatched

/-- Reads the fields from an array, in their order, up to its closing bracket or to the last
field. -/
def readInOrder : List (Field σ) → Bool → σ → Reader σ
  | [], _, state, cs => .ok (state, cs)
  | f :: fields, first, state, cs => do
    let (more, cs) ← nextItem first cs
    if more then
      let (state, cs) ← f.read state cs
      readInOrder fields false state cs
    else
      return (state, cs)

/-- Goes to the next member of an object: is there one?  Before a member the comma and the
opening quote of its name are taken off the text; the closing bracket stays. -/
def nextMember (first : Bool) : Reader Bool := fun cs =>
  match skipSpace cs with
  | [] => .error .endsEarly
  | '\x7d' :: cs => .ok (false, '\x7d' :: cs)
  | '"' :: cs => if first then .ok (true, cs) else .error .malformed
  | ',' :: cs =>
    if first then .error .malformed
    else match skipSpace cs with
      | [] => .error .endsEarly
      | '"' :: cs => .ok (true, cs)
      | _ => .error .malformed
  | _ => .error .malformed

/-- Reads the value of a member, or skips it if no field has its name.  A field that has been
read before is a mismatch. -/
def readMember (r : Record σ α) (name : List Char) (state : σ) : Reader σ := fun cs =>
  match r.fields.find? (·.name == name) with
  | some f =>
    if f.known state then .error .mismatched
    else do
      let ((), cs) ← readColon cs
      f.read state cs
  | none => do
    let ((), cs) ← readColon cs
    let ((), cs) ← skipValue cs
    return (state, cs)

/-- One round of reading an object. -/
def memberRound (r : Record σ α) : Bool × σ → Reader (Round (Bool × σ) σ) :=
  fun (first, state) cs => do
    let (more, cs) ← nextMember first cs
    if more then
      let (name, cs) ← readString cs
      let (state, cs) ← r.readMember name state cs
      return (.more (false, state), cs)
    else
      return (.done state, cs)

/-- Reads a record. -/
def read (r : Record σ α) : Reader α := fun cs =>
  match skipSpace cs with
  | '[' :: cs => do
    let (state, cs) ← readInOrder r.fields true r.start cs
    let a ← r.finish state
    let ((), cs) ← readClose .square cs
    return (a, cs)
  | '\x7b' :: cs => do
    let (state, cs) ← repeatRounds r.memberRound (true, r.start) cs
    let a ← r.finish state
    let ((), cs) ← readClose .curly cs
    return (a, cs)
  | cs => .error (otherShape cs)

end Record

/-! ### Whole texts -/

/-- Reads a text that holds one value and nothing else. -/
def readWhole? {α : Type} (reader : Reader α) (text : List Char) : Except Refusal α := do
  let (a, rest) ← reader text
  match skipSpace rest with
  | [] => return a
  | _ => .error .malformed

end Json

end SamplingProfiler
