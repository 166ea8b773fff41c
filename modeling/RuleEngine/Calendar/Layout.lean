import RuleEngine.Calendar.Instant
import RuleEngine.Text.Blank

/-! Layouts of dates and times of day: lists of directives, each of which reads one part from the
front of a text. Whether the parts name an instant is decided when all of them are read.
-/

namespace RuleEngine

namespace Calendar

/-- The parts of a date and a time of day as they were read. -/
structure Parts where
  year : Int := 1970
  month : Nat := 1
  day : Nat := 1
  hour : Nat := 0
  minute : Nat := 0
  second : Nat := 0
  nanos : Nat := 0
  weekday : Option Nat := none
deriving DecidableEq

namespace Parts

def date (p : Parts) : Date := ⟨p.year, p.month, p.day⟩

/-- Whether the parts agree with each other and lie in their ranges. Second 60, a leap second,
is taken in any minute.
-/
def isConsistent (p : Parts) : Bool :=
  p.date.isValid && p.hour < 24 && p.minute < 60 && p.second ≤ 60 &&
    p.weekday.all (· == p.date.weekday)

/-- The instant that the parts name, taken as universal time. -/
def instant? (p : Parts) : Option Instant :=
  if p.isConsistent then
    let clock := 3600 * p.hour + 60 * p.minute
    if p.second = 60 then some (.ofDate p.date (clock + 59) (1000000000 + p.nanos))
    else some (.ofDate p.date (clock + p.second) p.nanos)
  else none

end Parts

/-- A part that is written as a number without a sign. -/
inductive Count where
  | month
  | day
  | hour
  | minute
  | second

def Count.store (c : Count) (p : Parts) (n : Nat) : Parts :=
  match c with
  | .month => { p with month := n }
  | .day => { p with day := n }
  | .hour => { p with hour := n }
  | .minute => { p with minute := n }
  | .second => { p with second := n }

inductive Directive where
  /-- A year: up to four digits, or after a sign any number of them. -/
  | year
  | fullYear
  /-- A year of two or more digits: two stand for 1950 to 2049, and three count from 1900. -/
  | mailYear
  /-- One or two digits, white space allowed before them. -/
  | count (part : Count)
  | twoDigits (part : Count)
  /-- Nothing, or a point and digits, of which the first nine count. -/
  | fraction
  /-- The name of a month in full or its first three letters. -/
  | monthName
  | monthLetters
  | weekday
  | literal (c : Char)
  | oneOf (choices : List Char)
  | space
  /-- Some white space. -/
  | gap

abbrev Layout := List Directive

-- --------------------------------------------------------------------------------------
-- Names
-- --------------------------------------------------------------------------------------

/-- Month names in lower case, split after the third letter. -/
def monthNames : List (String × String) :=
  [("jan", "uary"), ("feb", "ruary"), ("mar", "ch"), ("apr", "il"), ("may", ""), ("jun", "e"),
    ("jul", "y"), ("aug", "ust"), ("sep", "tember"), ("oct", "ober"), ("nov", "ember"),
    ("dec", "ember")]

/-- The first three letters of the days of the week in lower case, Monday first. -/
def weekdayNames : List String := ["mon", "tue", "wed", "thu", "fri", "sat", "sun"]

/-- Drops a word at the front, whatever its case. The word is given in lower case. -/
def dropWord? (word : String) (s : List Char) : Option (List Char) :=
  if (s.take word.length).map Char.toLower = word.toList then some (s.drop word.length) else none

/-- The position of the first of the words that stands at the front, and what follows it. -/
def oneOfWords? (words : List String) (s : List Char) : Option (Nat × List Char) :=
  words.zipIdx.findSome? fun (word, i) => (dropWord? word s).map (i, ·)

-- --------------------------------------------------------------------------------------
-- Reading
-- --------------------------------------------------------------------------------------

/-- A year as it stands in mail: two digits stand for 1950 to 2049, three count from 1900. -/
def mailYearValue (digits : List Char) : Int :=
  let n := Text.digitsValue digits
  if digits.length = 2 then if n < 50 then 2000 + n else 1900 + n
  else if digits.length = 3 then 1900 + n
  else n

/-- The nanoseconds of the digits after a point. -/
def nanosValue (digits : List Char) : Nat :=
  Text.digitsValue digits * Nat.pow 10 (9 - digits.length)

def Directive.read? (d : Directive) (p : Parts) (s : List Char) : Option (Parts × List Char) :=
  match d with
  | .year =>
    match Text.trimStart s with
    | '-' :: s => (Text.digits? 1 s.length s).map fun (ds, s) =>
        ({ p with year := -(Text.digitsValue ds : Int) }, s)
    | '+' :: s => (Text.digits? 1 s.length s).map fun (ds, s) =>
        ({ p with year := Text.digitsValue ds }, s)
    | s => (Text.digits? 1 4 s).map fun (ds, s) => ({ p with year := Text.digitsValue ds }, s)
  | .fullYear =>
    (Text.digits? 4 4 s).map fun (ds, s) => ({ p with year := Text.digitsValue ds }, s)
  | .mailYear =>
    (Text.digits? 2 s.length s).map fun (ds, s) => ({ p with year := mailYearValue ds }, s)
  | .count part =>
    (Text.digits? 1 2 (Text.trimStart s)).map fun (ds, s) => (part.store p (Text.digitsValue ds), s)
  | .twoDigits part =>
    (Text.digits? 2 2 s).map fun (ds, s) => (part.store p (Text.digitsValue ds), s)
  | .fraction =>
    match s with
    | '.' :: s => (Text.digits? 1 9 s).map fun (ds, s) =>
        ({ p with nanos := nanosValue ds }, s.dropWhile Char.isDigit)
    | s => some (p, s)
  | .monthName =>
    (oneOfWords? (monthNames.map (·.1)) s).map fun (i, s) =>
      let ending := ((monthNames[i]?).map (·.2)).getD ""
      ({ p with month := i + 1 }, (dropWord? ending s).getD s)
  | .monthLetters =>
    (oneOfWords? (monthNames.map (·.1)) s).map fun (i, s) => ({ p with month := i + 1 }, s)
  | .weekday =>
    (oneOfWords? weekdayNames s).map fun (i, s) => ({ p with weekday := some i }, s)
  | .literal c =>
    match s with
    | c' :: s => if c' = c then some (p, s) else none
    | [] => none
  | .oneOf choices =>
    match s with
    | c :: s => if choices.contains c then some (p, s) else none
    | [] => none
  | .space => some (p, Text.trimStart s)
  | .gap => if (s.head?.any Text.isBlank) then some (p, Text.trimStart s) else none

/-- Reads the parts of a layout, one after the other, from the front of a text. -/
def Layout.read? : Layout → Parts → List Char → Option (Parts × List Char)
  | [], p, s => some (p, s)
  | d :: rest, p, s => (d.read? p s).bind fun (p, s) => Layout.read? rest p s

/-- The instant that a whole text names in a layout. -/
def Layout.instant? (layout : Layout) (s : List Char) : Option Instant :=
  match layout.read? {} s with
  | some (p, []) => p.instant?
  | _ => none

end Calendar

end RuleEngine
