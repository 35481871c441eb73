/-
Reading the pieces of a JSON text: white space, literals, numbers and strings.

A reader takes the text that is left and gives what it read and the text after it, or a
`Refusal`.  There are three kinds of refusal, and which one comes is settled by the first
character at which the text goes wrong.  A text can end too early; it can be no JSON; or
it can be JSON of another shape than wanted.

Values that are only skipped are held to weaker rules: a number may be too large for any
type, and a string may escape half of a surrogate pair.
-/
import SamplingProfiler.Binary64
import SamplingProfiler.Weight

namespace SamplingProfiler

namespace Json

/-- Why a text is not read. -/
inductive Refusal where
  /-- It ends before its value does. -/
  | endsEarly
  /-- It is no JSON, or goes on after its value. -/
  | malformed
  /-- It is JSON of another shape. -/
  | mismatched
deriving DecidableEq, Inhabited

/-- Reads something off the front of a text. -/
abbrev Reader (α : Type) : Type := List Char → Except Refusal (α × List Char)

/-- The white space of JSON. -/
def isSpace (c : Char) : Bool := c == ' ' || c == '\t' || c == '\n' || c == '\r'

/-- The text after its leading white space. -/
def skipSpace (cs : List Char) : List Char := cs.dropWhile isSpace

/-! ### Literals -/

/-- Reads the given characters and nothing else. -/
def readWord : List Char → List Char → Except Refusal (List Char)
  | [], cs => .ok cs
  | _ :: _, [] => .error .endsEarly
  | w :: word, c :: cs => if c = w then readWord word cs else .error .malformed

/-- The letters of a literal after its first. -/
def literalRest : Char → Option (List Char)
  | 'n' => some ['u', 'l', 'l']
  | 't' => some ['r', 'u', 'e']
  | 'f' => some ['a', 'l', 's', 'e']
  | _ => none

/-! ### Numbers

The parts of a number are read first, and only then is it settled what they are worth.  A number
that is no natural number of 64 bits is of no use to any reader, but it has to be finite all the
same.  So its digits are brought together as far as they fit, and multiplied out in floating point.
-/

/-- What a number is worth to a reader. -/
inductive Numeral where
  /-- A natural number of at most 64 bits, written in digits alone. -/
  | natural (n : Nat)
  /-- Any other number: negative, fractional, with an exponent, or larger. -/
  | other
deriving DecidableEq, Inhabited

/-- Splits off the leading digits. -/
def spanDigits (cs : List Char) : List Char × List Char :=
  (cs.takeWhile Char.isDigit, cs.dropWhile Char.isDigit)

/-- The value of a digit. -/
def digitValue (c : Char) : Nat := c.toNat - 48

/-- Appends digits to a number as long as it fits 64 bits.  The answer is the number and how
many digits were left over. -/
def appendDigits (n : Nat) : List Char → Nat × Nat
  | [] => (n, 0)
  | d :: ds =>
    let next := n * 10 + digitValue d
    if next ≤ maxWord then appendDigits next ds else (n, ds.length + 1)

/-- The largest exponent of ten that is looked at. -/
def maxExponent : Nat := 0x7FFFFFFF

/-- Is `significand * 10 ^ exponent`, computed in floating point, a finite number? -/
def isFinite (significand : Nat) (exponent : Int) : Bool :=
  significand == 0 || exponent < 0
    || (exponent ≤ 308
      && !((Binary64.ofNat significand).mul (Binary64.ofNat (Nat.pow 10 exponent.toNat))).overflows)

/-- The parts of a number after its sign. -/
structure NumeralParts where
  /-- The digits before the point. -/
  whole : List Char
  /-- The digits after the point, if there is one. -/
  fraction : Option (List Char)
  /-- The sign and the digits of the exponent, if there is one. -/
  exponent : Option (Bool × List Char)

/-- Reads one digit or more. -/
def readDigits (cs : List Char) : Except Refusal (List Char × List Char) :=
  match spanDigits cs with
  | ([], []) => .error .endsEarly
  | ([], _ :: _) => .error .malformed
  | read => .ok read

/-- Reads the digits before the point: a zero alone, or digits that do not begin with one. -/
def readWhole (cs : List Char) : Except Refusal (List Char × List Char) := do
  let (digits, rest) ← readDigits cs
  match digits with
  | '0' :: _ :: _ => .error .malformed
  | _ => .ok (digits, rest)

/-- Reads a point and the digits after it, if the text goes on with a point. -/
def readFraction : List Char → Except Refusal (Option (List Char) × List Char)
  | '.' :: cs => do
    let (digits, rest) ← readDigits cs
    return (some digits, rest)
  | cs => .ok (none, cs)

/-- Splits a sign off an exponent; true stands for minus. -/
def splitSign : List Char → Bool × List Char
  | '+' :: cs => (false, cs)
  | '-' :: cs => (true, cs)
  | cs => (false, cs)

/-- Reads an exponent, if the text goes on with one. -/
def readExponent : List Char → Except Refusal (Option (Bool × List Char) × List Char)
  | c :: cs =>
    if c = 'e' ∨ c = 'E' then do
      let (negative, cs) := splitSign cs
      let (digits, rest) ← readDigits cs
      return (some (negative, digits), rest)
    else .ok (none, c :: cs)
  | [] => .ok (none, [])

/-- Reads the parts of a number after its sign. -/
def readParts (cs : List Char) : Except Refusal (NumeralParts × List Char) := do
  let (whole, cs) ← readWhole cs
  let (fraction, cs) ← readFraction cs
  let (exponent, cs) ← readExponent cs
  return (⟨whole, fraction, exponent⟩, cs)

namespace NumeralParts

/-- The significant digits of the number as one whole number of at most 64 bits, and the
power of ten it is multiplied by. -/
def scaled (p : NumeralParts) : Nat × Int :=
  let (n, excess) := appendDigits 0 p.whole
  match p.fraction with
  | none => (n, excess)
  | some digits =>
    let (m, ignored) := appendDigits n digits
    (m, (excess : Int) - (digits.length - ignored : Nat))

/-- Is the number, read as a floating-point number, finite? -/
def finite (p : NumeralParts) : Bool :=
  let (significand, power) := p.scaled
  match p.exponent with
  | none => isFinite significand power
  | some (negative, digits) =>
    let e := Nat.ofDigitChars 10 digits 0
    if e ≤ maxExponent then isFinite significand (if negative then power - e else power + e)
    else negative || significand == 0

/-- What the number is worth, if it is positive. -/
def value (p : NumeralParts) : Numeral :=
  match p.fraction, p.exponent with
  | none, none =>
    let n := Nat.ofDigitChars 10 p.whole 0
    if n ≤ maxWord then .natural n else .other
  | _, _ => .other

end NumeralParts

/-- Reads a number after its sign.  One too large for floating point is refused. -/
def readUnsigned (cs : List Char) : Except Refusal (Numeral × List Char) := do
  let (parts, rest) ← readParts cs
  match parts.value with
  | .natural n => return (.natural n, rest)
  | .other => if parts.finite then return (.other, rest) else .error .malformed

/-- Reads a number. -/
def readNumeral : Reader Numeral
  | '-' :: cs => do
    let (_, rest) ← readUnsigned cs
    return (.other, rest)
  | cs => readUnsigned cs

/-- A number that is skipped breaks off as malformed text wherever a digit is missing, also
at the end. -/
def whereDigitMissing : Refusal → Refusal
  | .endsEarly => .malformed
  | r => r

/-- Skips a number of any size. -/
def skipNumeral : List Char → Except Refusal (List Char)
  | '-' :: cs => ((readParts cs).map (·.2)).mapError whereDigitMissing
  | cs => ((readParts cs).map (·.2)).mapError whereDigitMissing

/-! ### Strings

An escape of four digits may be half a character, and the other half is looked for right behind
it.  A text that breaks off among the four digits counts as ending early if fewer than four bytes
are left, and a character that is no digit takes up bytes as well (`hexRefusal`).
-/

/-- The value of a hexadecimal digit in either case. -/
def hexValue? (c : Char) : Option Nat :=
  if c.isDigit then some (c.toNat - 48)
  else if 'a' ≤ c ∧ c ≤ 'f' then some (c.toNat - 87)
  else if 'A' ≤ c ∧ c ≤ 'F' then some (c.toNat - 55)
  else none

/-- The value of four hexadecimal digits. -/
def hexValue4? (a b c d : Char) : Option Nat := do
  return (← hexValue? a) * 4096 + (← hexValue? b) * 256 + (← hexValue? c) * 16 + (← hexValue? d)

/-- The refusal of a text that goes on with something other than four hexadecimal digits. -/
def hexRefusal (cs : List Char) : Refusal :=
  if cs.foldl (fun n c => n + c.utf8Size) 0 < 4 then .endsEarly else .malformed

/-- The character that a letter stands for after a backslash. -/
def escapeValue? : Char → Option Char
  | '"' => some '"'
  | '\\' => some '\\'
  | '/' => some '/'
  | 'b' => some '\x08'
  | 'f' => some '\x0c'
  | 'n' => some '\n'
  | 'r' => some '\r'
  | 't' => some '\t'
  | _ => none

/-- The first half of a surrogate pair. -/
def isHighSurrogate (n : Nat) : Bool := 0xD800 ≤ n && n ≤ 0xDBFF

/-- The second half of a surrogate pair. -/
def isLowSurrogate (n : Nat) : Bool := 0xDC00 ≤ n && n ≤ 0xDFFF

/-- The character that a surrogate pair stands for. -/
def pairValue (high low : Nat) : Char :=
  Char.ofNat (0x10000 + (high - 0xD800) * 0x400 + (low - 0xDC00))

/-- What is read so far in front of what is read next. -/
def consChar (c : Char) : Except Refusal (List Char × List Char) → Except Refusal (List Char × List Char)
  | .ok (s, rest) => .ok (c :: s, rest)
  | .error e => .error e

/-- Reads a string after its opening quote.  Surrogates must come in pairs. -/
def readString : Reader (List Char)
  | [] => .error .endsEarly
  | '"' :: cs => .ok ([], cs)
  | '\\' :: 'u' :: a :: b :: c :: d :: cs =>
    match hexValue4? a b c d with
    | none => .error .malformed
    | some n =>
      if isLowSurrogate n then .error .malformed
      else if isHighSurrogate n then
        match cs with
        | '\\' :: 'u' :: e :: f :: g :: h :: cs =>
          match hexValue4? e f g h with
          | none => .error .malformed
          | some m =>
            if isLowSurrogate m then consChar (pairValue n m) (readString cs)
            else .error .malformed
        | [] => .error .endsEarly
        | ['\\'] => .error .endsEarly
        | '\\' :: 'u' :: cs => .error (hexRefusal cs)
        | _ => .error .malformed
      else consChar (Char.ofNat n) (readString cs)
  | '\\' :: 'u' :: cs => .error (hexRefusal cs)
  | ['\\'] => .error .endsEarly
  | '\\' :: c :: cs =>
    match escapeValue? c with
    | some x => consChar x (readString cs)
    | none => .error .malformed
  | c :: cs => if c.toNat < 32 then .error .malformed else consChar c (readString cs)

/-- Skips a string after its opening quote. -/
def skipString : List Char → Except Refusal (List Char)
  | [] => .error .endsEarly
  | '"' :: cs => .ok cs
  | '\\' :: 'u' :: a :: b :: c :: d :: cs =>
    if (hexValue4? a b c d).isSome then skipString cs else .error .malformed
  | '\\' :: 'u' :: cs => .error (hexRefusal cs)
  | ['\\'] => .error .endsEarly
  | '\\' :: c :: cs => if (escapeValue? c).isSome then skipString cs else .error .malformed
  | c :: cs => if c.toNat < 32 then .error .malformed else skipString cs

end Json

end SamplingProfiler
