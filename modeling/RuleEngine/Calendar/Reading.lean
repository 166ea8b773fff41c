import RuleEngine.Calendar.Layout

/-! Dates in texts: the internet date format, the date format of mail, and common layouts, tried
in this order. Without a zone a time of day is universal time, and without a time of day it is
midnight.
-/

namespace RuleEngine

namespace Calendar

-- --------------------------------------------------------------------------------------
-- Zones
-- --------------------------------------------------------------------------------------

/-- The instant of local parts in a zone that is some seconds ahead of universal time. -/
def Parts.instantAt? (p : Parts) (offset : Int) : Option Instant :=
  if -Instant.secondsPerDay < offset ∧ offset < Instant.secondsPerDay then
    p.instant?.bind fun i =>
      let shifted : Instant := { i with seconds := i.seconds - offset }
      if shifted.isSupported then some shifted else none
  else none

/-- Hours and minutes, two digits each, behind a sign; `colon` tells whether a colon must stand
between them. The result is in seconds.
-/
def signedOffset? (signs : List (Char × Int)) (colon : Bool) (s : List Char)
    : Option (Int × List Char) :=
  match s with
  | [] => none
  | c :: s => do
    let sign ← signs.lookup c
    let (hours, s) ← Text.digits? 2 2 s
    let s ← if colon then (match s with | ':' :: s => some s | _ => none) else some s
    let (minutes, s) ← Text.digits? 2 2 s
    let minutes := Text.digitsValue minutes
    if minutes < 60 then
      some (sign * (3600 * Text.digitsValue hours + 60 * minutes : Nat), s)
    else none

/-- The zone of the internet date format: the letter Z, or an offset with a colon. -/
def internetZone? (s : List Char) : Option (Int × List Char) :=
  match s with
  | 'Z' :: s | 'z' :: s => some (0, s)
  | s => signedOffset? [('+', 1), ('-', -1), ('−', -1)] true s

/-- Zone names of mail and the hours that they are ahead of universal time. -/
def zoneNames : List (String × Int) :=
  [("gmt", 0), ("ut", 0), ("z", 0), ("edt", -4), ("est", -5), ("cdt", -5), ("cst", -6),
    ("mdt", -6), ("mst", -7), ("pdt", -7), ("pst", -8)]

/-- The offset in hours of a zone name in lower case. Any single letter but j stands for
universal time.
-/
def namedZone? (name : List Char) : Option Int :=
  match zoneNames.lookup (String.ofList name), name with
  | some hours, _ => some hours
  | none, [c] => if c = 'j' then none else some 0
  | none, _ => none

/-- The zone of the mail date format: a name, or an offset without a colon. -/
def mailZone? (s : List Char) : Option (Int × List Char) :=
  match s.takeWhile Char.isAlpha with
  | [] => signedOffset? [('+', 1), ('-', -1)] false s
  | name =>
    (namedZone? (name.map Char.toLower)).map fun hours => (3600 * hours, s.drop name.length)

-- --------------------------------------------------------------------------------------
-- Formats
-- --------------------------------------------------------------------------------------

/-- Date and time of day of the internet date format. -/
def internetLayout : Layout :=
  [.fullYear, .literal '-', .twoDigits .month, .literal '-', .twoDigits .day,
    .oneOf ['T', 't', ' '], .twoDigits .hour, .literal ':', .twoDigits .minute, .literal ':',
    .twoDigits .second, .fraction]

def internet? (s : List Char) : Option Instant := do
  let (parts, s) ← internetLayout.read? {} s
  match ← internetZone? s with
  | (offset, []) => parts.instantAt? offset
  | _ => none

/-- Whether a text is a sequence of comments in parentheses. They nest to a `depth`, and a
backslash takes away the meaning of the next character.
-/
def areComments : (depth : Nat) → (escaped : Bool) → List Char → Bool
  | depth, _, [] => depth == 0
  | depth + 1, true, _ :: s => areComments (depth + 1) false s
  | 0, _, c :: s =>
    if c = '(' then areComments 1 false s else Text.isBlank c && areComments 0 false s
  | depth + 1, false, c :: s =>
    if c = '\\' then areComments (depth + 1) true s
    else if c = '(' then areComments (depth + 2) false s
    else if c = ')' then areComments depth false s
    else areComments (depth + 1) false s

/-- The day of the week of the mail date format, which a comma must follow. Where no day of the
week stands, nothing is read.
-/
def mailWeekday? (s : List Char) : Option (Parts × List Char) :=
  match Directive.weekday.read? {} s with
  | some (p, ',' :: s) => some (p, s)
  | some _ => none
  | none => some ({}, s)

def mailLayout : Layout :=
  [.space, .count .day, .gap, .monthLetters, .gap, .mailYear, .gap, .twoDigits .hour, .space,
    .literal ':', .space, .twoDigits .minute]

/-- The seconds of the mail date format, which may be missing. -/
def mailSeconds? (p : Parts) (s : List Char) : Option (Parts × List Char) :=
  match Text.trimStart s with
  | ':' :: s => (Directive.twoDigits .second).read? p s
  | _ => some (p, s)

def mail? (s : List Char) : Option Instant := do
  let (p, s) ← mailWeekday? (Text.trimStart s)
  let (p, s) ← mailLayout.read? p s
  let (p, s) ← mailSeconds? p s
  let (p, s) ← Directive.gap.read? p s
  let (offset, s) ← mailZone? s
  if areComments 0 false s then p.instantAt? offset else none

-- --------------------------------------------------------------------------------------
-- Common layouts
-- --------------------------------------------------------------------------------------

def dashed : Layout := [.year, .literal '-', .count .month, .literal '-', .count .day]

def yearFirst : Layout := [.year, .literal '/', .count .month, .literal '/', .count .day]

def monthFirst : Layout := [.count .month, .literal '/', .count .day, .literal '/', .year]

/-- The name of the month, the day, a comma and the year. -/
def spelled : Layout := [.monthName, .space, .count .day, .literal ',', .space, .year]

def spelledPlain : Layout := [.monthName, .space, .count .day, .space, .year]

def dayFirst : Layout := [.count .day, .space, .monthName, .space, .year]

def hourMinute : Layout := [.count .hour, .literal ':', .count .minute]

def clock : Layout := hourMinute ++ [.literal ':', .count .second]

def fineClock : Layout := clock ++ [.fraction]

/-- Layouts of a date with a time of day, in the order in which they are tried. -/
def dateTimeLayouts : List Layout :=
  [dashed ++ [.literal 'T'] ++ fineClock,
    dashed ++ [.space] ++ fineClock,
    dashed ++ [.space] ++ hourMinute,
    yearFirst ++ [.space] ++ clock,
    yearFirst ++ [.space] ++ hourMinute,
    monthFirst ++ [.space] ++ clock,
    monthFirst ++ [.space] ++ hourMinute,
    spelled ++ [.space] ++ clock,
    spelled ++ [.space] ++ hourMinute]

/-- Layouts of a date alone, in the order in which they are tried. -/
def dateLayouts : List Layout :=
  [dashed, yearFirst, monthFirst, spelled, spelledPlain, dayFirst,
    [.weekday, .space] ++ spelledPlain,
    [.weekday, .literal ',', .space] ++ dayFirst]

end Calendar

/-- The instant that a text names in the first format that reads it. White space around it does
not count.
-/
def Instant.ofText? (text : String) : Option Instant :=
  let s := Text.trim text.toList
  (Calendar.internet? s).orElse fun _ =>
    (Calendar.mail? s).orElse fun _ =>
      (Calendar.dateTimeLayouts ++ Calendar.dateLayouts).findSome? (·.instant? s)

end RuleEngine
