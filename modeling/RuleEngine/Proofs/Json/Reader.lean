import RuleEngine.Json.Text
import RuleEngine.Number.Literal
import RuleEngine.Text.Digits

/-! A reader of JSON texts that knows nothing about how they were written. It takes the whole
language, with white space and every escape, and gives what a text says: a number by its digits, an
object by all its members in their order.
-/

namespace RuleEngine

/-- What a JSON text says. -/
inductive Reading where
  | null
  | bool (b : Bool)
  | number (negative : Bool) (d : Decimal)
  | string (s : String)
  | array (items : List Reading)
  | object (members : List (String × Reading))

instance : Inhabited Reading := ⟨.null⟩

namespace Reading

def natural (n : Nat) : Reading := number false ⟨n, 0⟩

open Text (digitsValue spanDigits)

def isSpace (c : Char) : Bool := c = ' ' || c = '\n' || c = '\r' || c = '\t'

def skip (s : List Char) : List Char := s.dropWhile isSpace

-- --------------------------------------------------------------------------------------
-- Numbers
-- --------------------------------------------------------------------------------------

/-- The digits before the point: at least one, and no zero in front of others. -/
def whole? (s : List Char) : Option (List Char × List Char) :=
  match spanDigits s with
  | ([], _) => none
  | ('0' :: _ :: _, _) => none
  | (digits, rest) => some (digits, rest)

/-- The digits after the point, at least one if there is a point. -/
def fraction? : List Char → Option (List Char × List Char)
  | '.' :: s =>
    match spanDigits s with
    | ([], _) => none
    | (digits, rest) => some (digits, rest)
  | s => some ([], s)

/-- The exponent, at least one digit if there is a mark. -/
def exponent? : List Char → Option (Int × List Char)
  | [] => some (0, [])
  | mark :: s =>
    if mark = 'e' ∨ mark = 'E' then
      let (negative, s) := Number.Literal.dropSign s
      match spanDigits s with
      | ([], _) => none
      | (digits, rest) =>
        some (if negative then -(digitsValue digits : Int) else digitsValue digits, rest)
    else some (0, mark :: s)

/-- A number without its sign. -/
def decimal? (s : List Char) : Option (Decimal × List Char) := do
  let (whole, rest) ← whole? s
  let (fraction, rest) ← fraction? rest
  let (exponent, rest) ← exponent? rest
  return (⟨digitsValue (whole ++ fraction), exponent - fraction.length⟩, rest)

def number? : List Char → Option (Reading × List Char)
  | '-' :: s => (decimal? s).map fun (d, rest) => (number true d, rest)
  | s => (decimal? s).map fun (d, rest) => (number false d, rest)

-- --------------------------------------------------------------------------------------
-- Strings
-- --------------------------------------------------------------------------------------

def hexDigit? (c : Char) : Option Nat :=
  if '0' ≤ c ∧ c ≤ '9' then some (c.toNat - '0'.toNat)
  else if 'a' ≤ c ∧ c ≤ 'f' then some (c.toNat - 'a'.toNat + 10)
  else if 'A' ≤ c ∧ c ≤ 'F' then some (c.toNat - 'A'.toNat + 10)
  else none

/-- A number of four hexadecimal digits. -/
def unit? : List Char → Option (Nat × List Char)
  | a :: b :: c :: d :: rest => do
    let a ← hexDigit? a
    let b ← hexDigit? b
    let c ← hexDigit? c
    let d ← hexDigit? d
    return (((a * 16 + b) * 16 + c) * 16 + d, rest)
  | _ => none

/-- A character by its number, or by a pair of surrogates if the number is too large. -/
def unicode? (s : List Char) : Option (Char × List Char) := do
  let (unit, rest) ← unit? s
  if unit < 0xD800 || 0xE000 ≤ unit then return (.ofNat unit, rest)
  else
    match rest with
    | '\\' :: 'u' :: rest =>
      let (low, rest) ← unit? rest
      if unit < 0xDC00 && 0xDC00 ≤ low && low < 0xE000 then
        return (.ofNat (0x10000 + (unit - 0xD800) * 0x400 + (low - 0xDC00)), rest)
      else none
    | _ => none

/-- What stands behind a backslash. -/
def escape? : List Char → Option (Char × List Char)
  | '"' :: rest => some ('"', rest)
  | '\\' :: rest => some ('\\', rest)
  | '/' :: rest => some ('/', rest)
  | 'b' :: rest => some ('\x08', rest)
  | 'f' :: rest => some ('\x0c', rest)
  | 'n' :: rest => some ('\n', rest)
  | 'r' :: rest => some ('\r', rest)
  | 't' :: rest => some ('\t', rest)
  | 'u' :: rest => unicode? rest
  | _ => none

/-- A character of a string, which may be escaped. -/
def char? : List Char → Option (Char × List Char)
  | [] => none
  | '\\' :: rest => escape? rest
  | c :: rest => if c.toNat < 0x20 then none else some (c, rest)

/-- The characters of a string up to its closing quote, fewer than `fuel`. -/
def chars? : Nat → List Char → Option (List Char × List Char)
  | 0, _ => none
  | _ + 1, '"' :: rest => some ([], rest)
  | fuel + 1, s => do
    let (c, rest) ← char? s
    let (cs, rest) ← chars? fuel rest
    return (c :: cs, rest)

/-- A string behind its opening quote. -/
def string? (s : List Char) : Option (String × List Char) :=
  (chars? s.length s).map fun (cs, rest) => (.ofList cs, rest)

-- --------------------------------------------------------------------------------------
-- Documents
-- --------------------------------------------------------------------------------------

def word? : List Char → Option (Reading × List Char)
  | 'n' :: 'u' :: 'l' :: 'l' :: rest => some (null, rest)
  | 't' :: 'r' :: 'u' :: 'e' :: rest => some (bool true, rest)
  | 'f' :: 'a' :: 'l' :: 's' :: 'e' :: rest => some (bool false, rest)
  | _ => none

mutual

/-- One document at the front of a text. The fuel bounds the nesting and the number of parts. -/
def value? : Nat → List Char → Option (Reading × List Char)
  | 0, _ => none
  | _ + 1, '"' :: rest => (string? rest).map fun (s, rest) => (string s, rest)
  | fuel + 1, '[' :: rest =>
    match skip rest with
    | ']' :: rest => some (array [], rest)
    | s => (items? fuel s).map fun (items, rest) => (array items, rest)
  | fuel + 1, '\x7b' :: rest =>
    match skip rest with
    | '\x7d' :: rest => some (object [], rest)
    | s => (members? fuel s).map fun (members, rest) => (object members, rest)
  | _ + 1, s => (word? s).or (number? s)

/-- The items of an array, at least one, and its end. -/
def items? : Nat → List Char → Option (List Reading × List Char)
  | 0, _ => none
  | fuel + 1, s => do
    let (item, rest) ← value? fuel s
    match skip rest with
    | ']' :: rest => return ([item], rest)
    | ',' :: rest =>
      let (more, rest) ← items? fuel (skip rest)
      return (item :: more, rest)
    | _ => none

/-- The members of an object, at least one, and its end. -/
def members? : Nat → List Char → Option (List (String × Reading) × List Char)
  | 0, _ => none
  | fuel + 1, '"' :: s => do
    let (key, rest) ← string? s
    match skip rest with
    | ':' :: rest =>
      let (value, rest) ← value? fuel (skip rest)
      match skip rest with
      | '\x7d' :: rest => return ([(key, value)], rest)
      | ',' :: rest =>
        let (more, rest) ← members? fuel (skip rest)
        return ((key, value) :: more, rest)
      | _ => none
    | _ => none
  | _ + 1, _ => none

end

/-- What a whole text says, if it is one JSON document. -/
def parse? (text : String) : Option Reading := do
  let s := text.toList
  let (reading, rest) ← value? (2 * s.length + 1) (skip s)
  if (skip rest).isEmpty then return reading else none

/-- White space, exponents and surrogate pairs are read. -/
example
    : (parse? "[ -2.50e1,\n\"\\ud83d\\ude00\" ]").any fun
      | array [number true d, string s] => d = ⟨250, -1⟩ && s = "😀"
      | _ => false := by
  decide +kernel

/-- A last comma, a leading zero, a raw control character and a second document are refused. -/
example : ["[1,]", "01", "\"\t\"", "1 2"].all fun s => (parse? s).isNone := by decide +kernel

end Reading

end RuleEngine
