/-
JSON values and their two written forms.

The compact form has no white space.  The pretty form puts every item of an array and
every member of an object on a line of its own, indented by two spaces a level; an empty
array or object stays on one line.  Both are the same walk over a value with a different
`Layout`.  Text is a list of characters, so that what is written can be compared with
what is read one character at a time.
-/

namespace SamplingProfiler

/-- A JSON value.  The numbers are those that profiles have. -/
inductive Json where
  | null
  | bool (b : Bool)
  | number (n : Nat)
  | string (s : String)
  | array (items : List Json)
  /-- An object, its members in the order they are written. -/
  | object (members : List (String × Json))
deriving Inhabited

namespace Json

/-! ### Strings -/

/-- A character inside a string.  Quotes, backslashes and control characters are escaped,
by a letter where there is one. -/
def escapeChar (c : Char) : List Char :=
  if c = '"' then ['\\', '"']
  else if c = '\\' then ['\\', '\\']
  else if c = '\x08' then ['\\', 'b']
  else if c = '\x0c' then ['\\', 'f']
  else if c = '\n' then ['\\', 'n']
  else if c = '\r' then ['\\', 'r']
  else if c = '\t' then ['\\', 't']
  else if c.toNat < 32 then
    ['\\', 'u', '0', '0', Nat.digitChar (c.toNat / 16), Nat.digitChar (c.toNat % 16)]
  else [c]

/-- A string with its quotes. -/
def quote (s : List Char) : List Char := '"' :: s.flatMap escapeChar ++ ['"']

/-! ### Values

The items behind the first are written apart from it, because a comma stands in front of each of
them; so are the members.  An empty array or object has no line breaks at all.
-/

/-- How a value is laid out. -/
structure Layout where
  /-- What stands before an item at a level, and before the bracket that closes it. -/
  lineBreak : Nat → List Char
  /-- What stands between the name and the value of a member. -/
  colon : List Char

/-- No white space. -/
def Layout.compact : Layout := ⟨fun _ => [], [':']⟩

/-- A line for each item. -/
def Layout.pretty : Layout := ⟨fun level => '\n' :: List.replicate (2 * level) ' ', [':', ' ']⟩

mutual

/-- Writes a value at a level of nesting. -/
def write (layout : Layout) (level : Nat) : Json → List Char
  | null => ['n', 'u', 'l', 'l']
  | bool true => ['t', 'r', 'u', 'e']
  | bool false => ['f', 'a', 'l', 's', 'e']
  | number n => Nat.toDigits 10 n
  | string s => quote s.toList
  | array [] => ['[', ']']
  | array (item :: rest) =>
    '[' :: layout.lineBreak (level + 1) ++ write layout (level + 1) item
      ++ writeItems layout level rest
  | object [] => ['\x7b', '\x7d']
  | object ((name, value) :: rest) =>
    '\x7b' :: layout.lineBreak (level + 1) ++ quote name.toList ++ layout.colon
      ++ write layout (level + 1) value ++ writeMembers layout level rest

/-- Writes the items after the first, and closes the array. -/
def writeItems (layout : Layout) (level : Nat) : List Json → List Char
  | [] => layout.lineBreak level ++ [']']
  | item :: rest =>
    ',' :: layout.lineBreak (level + 1) ++ write layout (level + 1) item
      ++ writeItems layout level rest

/-- Writes the members after the first, and closes the object. -/
def writeMembers (layout : Layout) (level : Nat) : List (String × Json) → List Char
  | [] => layout.lineBreak level ++ ['\x7d']
  | (name, value) :: rest =>
    ',' :: layout.lineBreak (level + 1) ++ quote name.toList ++ layout.colon
      ++ write layout (level + 1) value ++ writeMembers layout level rest

end

/-- The compact form. -/
def compact (v : Json) : List Char := write .compact 0 v

/-- The pretty form. -/
def pretty (v : Json) : List Char := write .pretty 0 v

end Json

end SamplingProfiler
