import RuleEngine.Proofs.Json.Reader
import RuleEngine.Proofs.Number.Spelling

/-! The grammar of JSON by its productions, each with what its texts denote. The reader reads every
text of the grammar as what it denotes.
-/

namespace RuleEngine

namespace Reading

open Text (digitsValue spanDigits)

-- --------------------------------------------------------------------------------------
-- Productions
-- --------------------------------------------------------------------------------------

def Blank (s : List Char) : Prop := ∀ c ∈ s, isSpace c

/-- At least one digit. -/
structure IsDigits (s : List Char) : Prop where
  some? : s ≠ []
  digits : ∀ c ∈ s, c.isDigit

/-- The digits before the point, which begin with a zero only if that is all of them. -/
structure IsWhole (s : List Char) : Prop extends IsDigits s where
  leading : s.head? = some '0' → s = ['0']

/-- The point and the digits after it, or neither. -/
inductive SpellsFraction : List Char → List Char → Prop where
  | absent : SpellsFraction [] []
  | present {digits : List Char} (fraction : IsDigits digits)
    : SpellsFraction ('.' :: digits) digits

/-- The sign of an exponent, and whether it is a minus. -/
inductive SpellsSign : List Char → Bool → Prop where
  | absent : SpellsSign [] false
  | plus : SpellsSign ['+'] false
  | minus : SpellsSign ['-'] true

inductive SpellsExponent : List Char → Int → Prop where
  | absent : SpellsExponent [] 0
  | present {mark : Char} {sign digits : List Char} {negative : Bool}
    (marked : mark = 'e' ∨ mark = 'E') (signed : SpellsSign sign negative)
    (exponent : IsDigits digits)
    : SpellsExponent (mark :: (sign ++ digits))
        (if negative then -(digitsValue digits : Int) else digitsValue digits)

/-- A number without its sign. -/
inductive SpellsDecimal : List Char → Decimal → Prop where
  | mk {whole point fraction power : List Char} {exponent : Int} (before : IsWhole whole)
    (after : SpellsFraction point fraction) (scaled : SpellsExponent power exponent)
    : SpellsDecimal (whole ++ (point ++ power))
        ⟨digitsValue (whole ++ fraction), exponent - fraction.length⟩

/-- Four hexadecimal digits. -/
inductive SpellsUnit : List Char → Nat → Prop where
  | mk {a b c d : Char} {a' b' c' d' : Nat} (first : hexDigit? a = some a')
    (second : hexDigit? b = some b') (third : hexDigit? c = some c')
    (fourth : hexDigit? d = some d')
    : SpellsUnit [a, b, c, d] (((a' * 16 + b') * 16 + c') * 16 + d')

/-- What stands behind a backslash, and what it is read as. -/
def escapes : List (Char × Char) :=
  [('"', '"'), ('\\', '\\'), ('/', '/'), ('b', '\x08'), ('f', '\x0c'), ('n', '\n'), ('r', '\r'),
    ('t', '\t')]

/-- A character of a string: as it is, escaped, or by its number, which may take two surrogates. -/
inductive SpellsChar : List Char → Char → Prop where
  | plain {c : Char} (large : 0x20 ≤ c.toNat) (quote : c ≠ '"') (backslash : c ≠ '\\')
    : SpellsChar [c] c
  | escape {mark c : Char} (known : (mark, c) ∈ escapes) : SpellsChar ['\\', mark] c
  | unit {digits : List Char} {n : Nat} (number : SpellsUnit digits n)
    (scalar : n < 0xD800 ∨ 0xE000 ≤ n)
    : SpellsChar ('\\' :: 'u' :: digits) (.ofNat n)
  | pair {first second : List Char} {high low : Nat} (leads : SpellsUnit first high)
    (trails : SpellsUnit second low) (isHigh : 0xD800 ≤ high ∧ high < 0xDC00)
    (isLow : 0xDC00 ≤ low ∧ low < 0xE000)
    : SpellsChar ('\\' :: 'u' :: (first ++ '\\' :: 'u' :: second))
        (.ofNat (0x10000 + (high - 0xD800) * 0x400 + (low - 0xDC00)))

inductive SpellsChars : List Char → List Char → Prop where
  | nil : SpellsChars [] []
  | cons {text more : List Char} {c : Char} {cs : List Char} (first : SpellsChar text c)
    (later : SpellsChars more cs)
    : SpellsChars (text ++ more) (c :: cs)

/-- A string between its quotes. -/
inductive SpellsString : List Char → String → Prop where
  | mk {text cs : List Char} (chars : SpellsChars text cs)
    : SpellsString ('"' :: (text ++ ['"'])) (.ofList cs)

mutual

/-- A document without white space around it. -/
inductive Spells : List Char → Reading → Prop where
  | null : Spells ['n', 'u', 'l', 'l'] .null
  | yes : Spells ['t', 'r', 'u', 'e'] (.bool true)
  | no : Spells ['f', 'a', 'l', 's', 'e'] (.bool false)
  | number {text : List Char} {d : Decimal} (decimal : SpellsDecimal text d)
    : Spells text (.number false d)
  | negative {text : List Char} {d : Decimal} (decimal : SpellsDecimal text d)
    : Spells ('-' :: text) (.number true d)
  | string {text : List Char} {s : String} (quoted : SpellsString text s) : Spells text (.string s)
  | emptyArray {gap : List Char} (blank : Blank gap) : Spells ('[' :: (gap ++ [']'])) (.array [])
  | array {gap text : List Char} {items : List Reading} (blank : Blank gap)
    (inside : SpellsItems text items)
    : Spells ('[' :: (gap ++ (text ++ [']']))) (.array items)
  | emptyObject {gap : List Char} (blank : Blank gap)
    : Spells ('\x7b' :: (gap ++ ['\x7d'])) (.object [])
  | object {gap text : List Char} {members : List (String × Reading)} (blank : Blank gap)
    (inside : SpellsMembers text members)
    : Spells ('\x7b' :: (gap ++ (text ++ ['\x7d']))) (.object members)

/-- Items of an array, at least one, with commas between them and white space behind each. -/
inductive SpellsItems : List Char → List Reading → Prop where
  | last {text gap : List Char} {item : Reading} (value : Spells text item) (blank : Blank gap)
    : SpellsItems (text ++ gap) [item]
  | cons {text gap gap' more : List Char} {item : Reading} {items : List Reading}
    (value : Spells text item) (blank : Blank gap) (blank' : Blank gap')
    (later : SpellsItems more items)
    : SpellsItems (text ++ (gap ++ ',' :: (gap' ++ more))) (item :: items)

/-- A member of an object with white space behind it. -/
inductive SpellsMember : List Char → String × Reading → Prop where
  | mk {name gap gap' text gap'' : List Char} {key : String} {reading : Reading}
    (named : SpellsString name key) (blank : Blank gap) (blank' : Blank gap')
    (value : Spells text reading) (blank'' : Blank gap'')
    : SpellsMember (name ++ (gap ++ ':' :: (gap' ++ (text ++ gap'')))) (key, reading)

/-- Members of an object, at least one, with commas between them. -/
inductive SpellsMembers : List Char → List (String × Reading) → Prop where
  | last {text : List Char} {member : String × Reading} (only : SpellsMember text member)
    : SpellsMembers text [member]
  | cons {text gap more : List Char} {member : String × Reading}
    {members : List (String × Reading)} (first : SpellsMember text member) (blank : Blank gap)
    (later : SpellsMembers more members)
    : SpellsMembers (text ++ ',' :: (gap ++ more)) (member :: members)

end

/-- A text is one document, with white space around it. -/
inductive Denotes : String → Reading → Prop where
  | mk {gap text gap' : List Char} {reading : Reading} (blank : Blank gap)
    (spells : Spells text reading) (blank' : Blank gap')
    : Denotes (.ofList (gap ++ (text ++ gap'))) reading

-- --------------------------------------------------------------------------------------
-- Numbers and strings of the grammar are read
-- --------------------------------------------------------------------------------------

/-- A number ends before such a text. -/
def EndsNumber (rest : List Char) : Prop :=
  ∀ c ∈ rest.head?, c.isDigit = false ∧ c ≠ '.' ∧ c ≠ 'e' ∧ c ≠ 'E'

theorem EndsNumber.nil : EndsNumber [] := nofun

theorem EndsNumber.cons {c : Char} {rest : List Char}
    (other : c.isDigit = false ∧ c ≠ '.' ∧ c ≠ 'e' ∧ c ≠ 'E')
    : EndsNumber (c :: rest) :=
  fun _ same => Option.some.inj same ▸ other

/-- White space ends a number, or there is none. -/
theorem EndsNumber.append {gap rest : List Char} (blank : Blank gap) (ends : EndsNumber rest)
    : EndsNumber (gap ++ rest) := by
  cases gap with
  | nil => exact ends
  | cons space gap =>
    have visible := blank space (by simp)
    refine .cons ?_
    simp only [isSpace, Bool.or_eq_true, decide_eq_true_eq] at visible
    rcases visible with ((rfl | rfl) | rfl) | rfl <;> decide

/-- Neither an exponent nor what ends a number goes on with digits or has a point. -/
theorem SpellsExponent.ends {text rest : List Char} {exponent : Int}
    (production : SpellsExponent text exponent) (ends : EndsNumber rest)
    : ∀ c ∈ (text ++ rest).head?, c.isDigit = false ∧ c ≠ '.' := by
  cases production with
  | absent => exact fun c first => ⟨(ends c first).1, (ends c first).2.1⟩
  | present marked => rcases marked with rfl | rfl <;> simp

theorem SpellsFraction.ends {text digits rest : List Char} (production : SpellsFraction text digits)
    (ends : ∀ c ∈ rest.head?, c.isDigit = false)
    : ∀ c ∈ (text ++ rest).head?, c.isDigit = false := by
  cases production with
  | absent => exact ends
  | present => simp

theorem whole?_append {whole rest : List Char} (production : IsWhole whole)
    (ends : ∀ c ∈ rest.head?, c.isDigit = false)
    : whole? (whole ++ rest) = some (whole, rest) := by
  unfold whole?
  rw [Text.spanDigits_append production.digits ends]
  split
  · rename_i same
    exact absurd (Prod.mk.inj same).1 production.some?
  · rename_i same
    obtain ⟨rfl, -⟩ := Prod.mk.inj same
    cases production.leading rfl
  · rename_i same
    obtain ⟨rfl, rfl⟩ := Prod.mk.inj same
    rfl

theorem fraction?_append {text digits rest : List Char} (production : SpellsFraction text digits)
    (ends : ∀ c ∈ rest.head?, c.isDigit = false ∧ c ≠ '.')
    : fraction? (text ++ rest) = some (digits, rest) := by
  cases production with
  | absent =>
    cases rest with
    | nil => rfl
    | cons c rest => simp [fraction?, (ends c rfl).2]
  | present fraction =>
    obtain ⟨c, more, rfl⟩ := List.exists_cons_of_ne_nil fraction.some?
    have span := Text.spanDigits_append fraction.digits fun c first => (ends c first).1
    simp only [List.cons_append] at span ⊢
    simp only [fraction?, span]

/-- A sign is dropped in front of digits, which have none of their own. -/
theorem dropSign_append {sign digits : List Char} {negative : Bool}
    (production : SpellsSign sign negative) (run : IsDigits digits) (rest : List Char)
    : Number.Literal.dropSign (sign ++ (digits ++ rest)) = (negative, digits ++ rest) := by
  cases production with
  | plus | minus => rfl
  | absent =>
    obtain ⟨c, more, rfl⟩ := List.exists_cons_of_ne_nil run.some?
    have digit := run.digits c (by simp)
    have plus : c ≠ '+' := fun same => by simp [same] at digit
    have minus : c ≠ '-' := fun same => by simp [same] at digit
    simp [Number.Literal.dropSign, plus, minus]

theorem exponent?_append {text rest : List Char} {exponent : Int}
    (production : SpellsExponent text exponent) (ends : EndsNumber rest)
    : exponent? (text ++ rest) = some (exponent, rest) := by
  cases production with
  | absent =>
    cases rest with
    | nil => rfl
    | cons c rest =>
      obtain ⟨-, -, small, large⟩ := ends c rfl
      simp [exponent?, small, large]
  | present marked signed exponent =>
    have span := Text.spanDigits_append exponent.digits fun c first => (ends c first).1
    have dropped := dropSign_append signed exponent rest
    obtain ⟨c, more, rfl⟩ := List.exists_cons_of_ne_nil exponent.some?
    simp only [List.cons_append, List.append_assoc] at span dropped ⊢
    simp [exponent?, marked, dropped, span]

theorem decimal?_append {text rest : List Char} {d : Decimal} (production : SpellsDecimal text d)
    (ends : EndsNumber rest)
    : decimal? (text ++ rest) = some (d, rest) := by
  obtain ⟨before, after, scaled⟩ := production
  have stops := scaled.ends ends
  have wholes := whole?_append before (after.ends fun c first => (stops c first).1)
  have fractions := fraction?_append after stops
  simp [decimal?, wholes, fractions, exponent?_append scaled ends]

theorem unit?_append {digits : List Char} {n : Nat} (production : SpellsUnit digits n)
    (rest : List Char)
    : unit? (digits ++ rest) = some (n, rest) := by
  obtain ⟨first, second, third, fourth⟩ := production
  simp [unit?, first, second, third, fourth]

theorem escape?_cons {mark c : Char} (known : (mark, c) ∈ escapes) (rest : List Char)
    : escape? (mark :: rest) = some (c, rest) := by
  simp only [escapes, List.mem_cons, Prod.mk.injEq, List.not_mem_nil, or_false] at known
  rcases known with
    ⟨rfl, rfl⟩ | ⟨rfl, rfl⟩ | ⟨rfl, rfl⟩ | ⟨rfl, rfl⟩ | ⟨rfl, rfl⟩ | ⟨rfl, rfl⟩ | ⟨rfl, rfl⟩
      | ⟨rfl, rfl⟩
  all_goals rfl

theorem char?_append {text : List Char} {c : Char} (production : SpellsChar text c)
    (rest : List Char)
    : char? (text ++ rest) = some (c, rest) := by
  cases production with
  | plain large quote backslash => simp [char?, large]
  | escape known => exact escape?_cons known rest
  | unit number scalar => simp [char?, escape?, unicode?, unit?_append number, scalar]
  | @pair first second high low leads trails isHigh isLow =>
    have surrogate : ¬(high < 0xD800 ∨ 0xE000 ≤ high) := by omega
    simp [char?, escape?, unicode?, unit?_append leads, unit?_append trails, surrogate, isHigh,
      isLow]

/-- No character looks like the end of a string. -/
theorem SpellsChar.ne_quote {text : List Char} {c : Char} (production : SpellsChar text c)
    (rest more : List Char)
    : text ++ rest ≠ '"' :: more := by
  cases production with
  | plain large quote => simp [quote]
  | escape | unit | pair => simp

theorem SpellsChar.length_pos {text : List Char} {c : Char} (production : SpellsChar text c)
    : 0 < text.length := by
  cases production <;> simp

/-- By induction on the characters. -/
theorem chars?_append {text cs : List Char} (production : SpellsChars text cs) (rest : List Char)
    {fuel : Nat} (enough : text.length < fuel)
    : chars? fuel (text ++ '"' :: rest) = some (cs, rest) := by
  induction production generalizing fuel with
  | nil =>
    obtain ⟨fuel, rfl⟩ := Nat.exists_eq_succ_of_ne_zero (Nat.ne_zero_of_lt enough)
    rfl
  | @cons text more c cs first later ih =>
    obtain ⟨fuel, rfl⟩ := Nat.exists_eq_succ_of_ne_zero (Nat.ne_zero_of_lt enough)
    have positive := first.length_pos
    rw [List.length_append] at enough
    rw [List.append_assoc, chars?]
    · simp [char?_append first, ih (by omega : more.length < fuel)]
    · exact fun _ => first.ne_quote _ _

theorem string?_append {text cs : List Char} (production : SpellsChars text cs) (rest : List Char)
    : string? (text ++ '"' :: rest) = some (.ofList cs, rest) := by
  rw [string?, chars?_append production rest (by simp)]
  rfl

-- --------------------------------------------------------------------------------------
-- Documents of the grammar are read
-- --------------------------------------------------------------------------------------

/-- A text begins with something visible, which does not end an array. -/
def Begins (s : List Char) : Prop := ∃ c more, s = c :: more ∧ isSpace c = false ∧ c ≠ ']'

theorem Begins.append {s : List Char} (begins : Begins s) (rest : List Char)
    : Begins (s ++ rest) := by
  obtain ⟨c, more, rfl, visible, other⟩ := begins
  exact ⟨c, more ++ rest, rfl, visible, other⟩

theorem skip_cons {c : Char} (visible : isSpace c = false) (s : List Char)
    : skip (c :: s) = c :: s := by
  simp [skip, visible]

/-- White space is skipped up to what is visible. -/
theorem skip_blank {gap : List Char} (blank : Blank gap) (s : List Char)
    : skip (gap ++ s) = skip s :=
  List.dropWhile_append_of_pos blank

theorem skip_blank_cons {gap : List Char} (blank : Blank gap) {c : Char}
    (visible : isSpace c = false) (s : List Char)
    : skip (gap ++ c :: s) = c :: s := by
  rw [skip_blank blank, skip_cons visible]

theorem skip_blank_append {gap s : List Char} (blank : Blank gap) (begins : Begins s)
    (rest : List Char)
    : skip (gap ++ (s ++ rest)) = s ++ rest := by
  obtain ⟨c, more, rfl, visible, -⟩ := begins
  exact skip_blank_cons blank visible _

/-- A text is read as one document wherever it stands in a longer text, with as much fuel as it is
long twice over: every part costs one unit, and one more for the list in which it stands.
-/
structure ReadAs (s : List Char) (reading : Reading) : Prop where
  begins : Begins s
  reads : ∀ fuel rest, 2 * s.length ≤ fuel → EndsNumber rest →
    value? fuel (s ++ rest) = some (reading, rest)

/-- A text is read as the items of an array up to its end. -/
structure ItemsReadAs (s : List Char) (items : List Reading) : Prop where
  begins : Begins s
  reads : ∀ fuel rest, 2 * s.length < fuel →
    items? fuel (s ++ ']' :: rest) = some (items, rest)

/-- A text is read as a member of an object, of which it is the last one or not. -/
structure MemberReadAs (s : List Char) (member : String × Reading) : Prop where
  begins : ∃ more, s = '"' :: more
  last : ∀ fuel rest, 2 * s.length ≤ fuel →
    members? (fuel + 1) (s ++ '\x7d' :: rest) = some ([member], rest)
  cons : ∀ fuel rest, 2 * s.length ≤ fuel →
    members? (fuel + 1) (s ++ ',' :: rest)
      = (members? fuel (skip rest)).map fun (more, rest) => (member :: more, rest)

/-- A text is read as the members of an object up to its end. -/
structure MembersReadAs (s : List Char) (members : List (String × Reading)) : Prop where
  begins : ∃ more, s = '"' :: more
  reads : ∀ fuel rest, 2 * s.length < fuel →
    members? fuel (s ++ '\x7d' :: rest) = some (members, rest)

/-- Characters that numbers begin with. -/
def BeginsNumber (c : Char) : Prop := c = '-' ∨ c.isDigit

theorem BeginsNumber.ne {c : Char} (begins : BeginsNumber c) {other : Char}
    (noSign : other ≠ '-') (noDigit : other.isDigit = false)
    : c ≠ other := by
  rintro rfl
  rcases begins with sign | digit
  · exact noSign sign
  · exact Bool.noConfusion (digit.symm.trans noDigit)

theorem SpellsDecimal.exists_digit {text : List Char} {d : Decimal}
    (production : SpellsDecimal text d)
    : ∃ c more, text = c :: more ∧ c.isDigit := by
  obtain ⟨before, -, -⟩ := production
  obtain ⟨c, more, rfl⟩ := List.exists_cons_of_ne_nil before.some?
  exact ⟨c, _, rfl, before.digits c (by simp)⟩

/-- A document that begins like a number is read as one. -/
theorem value?_cons_of_begins {c : Char} (begins : BeginsNumber c) (s : List Char) (fuel : Nat)
    : value? (fuel + 1) (c :: s) = number? (c :: s) := by
  have noWord : word? (c :: s) = none := by
    unfold word?
    split <;> rename_i same
    · exact absurd (List.cons.inj same).1 (begins.ne (by decide) (by decide))
    · exact absurd (List.cons.inj same).1 (begins.ne (by decide) (by decide))
    · exact absurd (List.cons.inj same).1 (begins.ne (by decide) (by decide))
    · rfl
  rw [value?, noWord, Option.none_or]
  all_goals exact fun _ same => begins.ne (by decide) (by decide) (List.cons.inj same).1

namespace ReadAs

theorem word {c : Char} {more : List Char} {reading : Reading} (visible : isSpace c = false)
    (other : c ≠ ']' ∧ c ≠ '"' ∧ c ≠ '[' ∧ c ≠ '\x7b')
    (read : ∀ rest, word? (c :: more ++ rest) = some (reading, rest))
    : ReadAs (c :: more) reading where
  begins := ⟨c, more, rfl, visible, other.1⟩
  reads fuel rest enough _ := by
    rw [List.length_cons] at enough
    obtain ⟨fuel, rfl⟩ : ∃ before, fuel = before + 1 := ⟨fuel - 1, by omega⟩
    have words := read rest
    rw [List.cons_append] at words ⊢
    rw [value?, words, Option.some_or]
    · exact fun _ same => other.2.1 (List.cons.inj same).1
    · exact fun _ same => other.2.2.1 (List.cons.inj same).1
    · exact fun _ same => other.2.2.2 (List.cons.inj same).1

theorem of_begins {c : Char} (begins : BeginsNumber c) {more : List Char} {reading : Reading}
    (read : ∀ rest, EndsNumber rest → number? (c :: more ++ rest) = some (reading, rest))
    : ReadAs (c :: more) reading where
  begins := by
    refine ⟨c, more, rfl, ?_, begins.ne (by decide) (by decide)⟩
    simp only [isSpace, begins.ne (show ' ' ≠ '-' by decide) (by decide),
      begins.ne (show '\n' ≠ '-' by decide) (by decide),
      begins.ne (show '\r' ≠ '-' by decide) (by decide),
      begins.ne (show '\t' ≠ '-' by decide) (by decide), decide_false, Bool.or_self]
  reads fuel rest enough ends := by
    rw [List.length_cons] at enough
    obtain ⟨fuel, rfl⟩ : ∃ before, fuel = before + 1 := ⟨fuel - 1, by omega⟩
    exact (value?_cons_of_begins begins _ fuel).trans (read rest ends)

theorem number {text : List Char} {d : Decimal} (decimal : SpellsDecimal text d)
    : ReadAs text (.number false d) := by
  obtain ⟨c, more, rfl, digit⟩ := decimal.exists_digit
  have noSign : c ≠ '-' := fun sign => by simp [sign] at digit
  refine .of_begins (.inr digit) fun rest ends => ?_
  have read := decimal?_append decimal ends
  rw [List.cons_append] at read ⊢
  simp [number?, noSign, read]

theorem negative {text : List Char} {d : Decimal} (decimal : SpellsDecimal text d)
    : ReadAs ('-' :: text) (.number true d) :=
  .of_begins (.inl rfl) fun rest ends => by simp [number?, decimal?_append decimal ends]

theorem string {text : List Char} {s : String} (quoted : SpellsString text s)
    : ReadAs text (.string s) := by
  obtain ⟨chars⟩ := quoted
  refine ⟨⟨_, _, rfl, by decide, by decide⟩, fun fuel rest enough _ => ?_⟩
  rw [List.length_cons] at enough
  obtain ⟨fuel, rfl⟩ : ∃ before, fuel = before + 1 := ⟨fuel - 1, by omega⟩
  simp [value?, string?_append chars]

variable {gap text : List Char} (blank : Blank gap)

include blank

theorem emptyArray : ReadAs ('[' :: (gap ++ [']'])) (.array []) where
  begins := ⟨_, _, rfl, by decide, by decide⟩
  reads fuel rest enough _ := by
    rw [List.length_cons] at enough
    obtain ⟨fuel, rfl⟩ : ∃ before, fuel = before + 1 := ⟨fuel - 1, by omega⟩
    have stop := skip_blank_cons blank (show isSpace ']' = false by decide) rest
    simp [value?, stop]

theorem array {items : List Reading} (inside : ItemsReadAs text items)
    : ReadAs ('[' :: (gap ++ (text ++ [']']))) (.array items) where
  begins := ⟨_, _, rfl, by decide, by decide⟩
  reads fuel rest enough _ := by
    simp only [List.length_cons, List.length_append] at enough
    obtain ⟨fuel, rfl⟩ : ∃ before, fuel = before + 1 := ⟨fuel - 1, by omega⟩
    have read := inside.reads fuel rest (by omega)
    have start := skip_blank_append blank inside.begins (']' :: rest)
    obtain ⟨c, more, rfl, -, other⟩ := inside.begins
    simp only [List.cons_append, List.append_assoc, List.nil_append] at read start ⊢
    simp [value?, start, other, read]

theorem emptyObject : ReadAs ('\x7b' :: (gap ++ ['\x7d'])) (.object []) where
  begins := ⟨_, _, rfl, by decide, by decide⟩
  reads fuel rest enough _ := by
    rw [List.length_cons] at enough
    obtain ⟨fuel, rfl⟩ : ∃ before, fuel = before + 1 := ⟨fuel - 1, by omega⟩
    have stop := skip_blank_cons blank (show isSpace '\x7d' = false by decide) rest
    simp [value?, stop]

theorem object {members : List (String × Reading)} (inside : MembersReadAs text members)
    : ReadAs ('\x7b' :: (gap ++ (text ++ ['\x7d']))) (.object members) where
  begins := ⟨_, _, rfl, by decide, by decide⟩
  reads fuel rest enough _ := by
    simp only [List.length_cons, List.length_append] at enough
    obtain ⟨fuel, rfl⟩ : ∃ before, fuel = before + 1 := ⟨fuel - 1, by omega⟩
    have read := inside.reads fuel rest (by omega)
    obtain ⟨more, rfl⟩ := inside.begins
    simp only [List.cons_append, List.append_assoc, List.nil_append] at read ⊢
    simp [value?, skip_blank_cons blank (show isSpace '"' = false by decide), read]

end ReadAs

section

variable {text gap gap' more : List Char}

theorem ItemsReadAs.last {item : Reading} (value : ReadAs text item) (blank : Blank gap)
    : ItemsReadAs (text ++ gap) [item] where
  begins := value.begins.append gap
  reads fuel rest enough := by
    rw [List.length_append] at enough
    obtain ⟨fuel, rfl⟩ : ∃ before, fuel = before + 1 := ⟨fuel - 1, by omega⟩
    have read := value.reads fuel (gap ++ ']' :: rest) (by omega)
      (.append blank (.cons (by decide)))
    have stop := skip_blank_cons blank (show isSpace ']' = false by decide) rest
    simp [items?, read, stop]

theorem ItemsReadAs.cons {item : Reading} {items : List Reading} (value : ReadAs text item)
    (blank : Blank gap) (blank' : Blank gap') (later : ItemsReadAs more items)
    : ItemsReadAs (text ++ (gap ++ ',' :: (gap' ++ more))) (item :: items) where
  begins := value.begins.append _
  reads fuel rest enough := by
    simp only [List.length_append, List.length_cons] at enough
    obtain ⟨fuel, rfl⟩ : ∃ before, fuel = before + 1 := ⟨fuel - 1, by omega⟩
    have read := value.reads fuel (gap ++ ',' :: (gap' ++ (more ++ ']' :: rest))) (by omega)
      (.append blank (.cons (by decide)))
    have onward := skip_blank_cons blank (show isSpace ',' = false by decide)
      (gap' ++ (more ++ ']' :: rest))
    have start := skip_blank_append blank' later.begins (']' :: rest)
    have others := later.reads fuel rest (by omega)
    simp [items?, read, onward, start, others]

theorem MemberReadAs.mk_value {name gap'' : List Char} {key : String} {reading : Reading}
    (named : SpellsString name key) (blank : Blank gap) (blank' : Blank gap')
    (value : ReadAs text reading) (blank'' : Blank gap'')
    : MemberReadAs (name ++ (gap ++ ':' :: (gap' ++ (text ++ gap'')))) (key, reading) := by
  obtain ⟨chars⟩ := named
  have colon := skip_blank_cons blank (show isSpace ':' = false by decide)
  have start := skip_blank_append blank' value.begins
  refine ⟨⟨_, rfl⟩, fun fuel rest enough => ?_, fun fuel rest enough => ?_⟩
  · simp only [List.length_append, List.length_cons] at enough
    have read := value.reads fuel (gap'' ++ '\x7d' :: rest) (by omega)
      (.append blank'' (.cons (by decide)))
    have stop := skip_blank_cons blank'' (show isSpace '\x7d' = false by decide) rest
    simp [members?, string?_append chars, colon, start, read, stop]
  · simp only [List.length_append, List.length_cons] at enough
    have read := value.reads fuel (gap'' ++ ',' :: rest) (by omega)
      (.append blank'' (.cons (by decide)))
    have stop := skip_blank_cons blank'' (show isSpace ',' = false by decide) rest
    cases onward : members? fuel (skip rest) <;>
      simp [members?, string?_append chars, colon, start, read, stop, onward]

theorem MembersReadAs.last {member : String × Reading} (only : MemberReadAs text member)
    : MembersReadAs text [member] where
  begins := only.begins
  reads fuel rest enough := by
    obtain ⟨fuel, rfl⟩ : ∃ before, fuel = before + 1 := ⟨fuel - 1, by omega⟩
    exact only.last fuel rest (by omega)

theorem MembersReadAs.cons {member : String × Reading} {members : List (String × Reading)}
    (first : MemberReadAs text member) (blank : Blank gap) (later : MembersReadAs more members)
    : MembersReadAs (text ++ ',' :: (gap ++ more)) (member :: members) where
  begins := by
    obtain ⟨others, rfl⟩ := first.begins
    exact ⟨_, rfl⟩
  reads fuel rest enough := by
    simp only [List.length_append, List.length_cons] at enough
    obtain ⟨fuel, rfl⟩ : ∃ before, fuel = before + 1 := ⟨fuel - 1, by omega⟩
    have others := later.reads fuel rest (by omega)
    obtain ⟨onward, rfl⟩ := later.begins
    have start := skip_blank_cons blank (show isSpace '"' = false by decide)
      (onward ++ '\x7d' :: rest)
    rw [List.cons_append] at others
    simp [first.cons fuel _ (by omega), start, others]

end

mutual

/-- What is spelled by the grammar is read, by recursion on the derivation. -/
theorem Spells.readAs : ∀ {text : List Char} {r : Reading}, Spells text r → ReadAs text r
  | _, _, .null => .word rfl (by decide) fun _ => rfl
  | _, _, .yes => .word rfl (by decide) fun _ => rfl
  | _, _, .no => .word rfl (by decide) fun _ => rfl
  | _, _, .number decimal => .number decimal
  | _, _, .negative decimal => .negative decimal
  | _, _, .string quoted => .string quoted
  | _, _, .emptyArray blank => .emptyArray blank
  | _, _, .array blank inside => .array blank inside.readAs
  | _, _, .emptyObject blank => .emptyObject blank
  | _, _, .object blank inside => .object blank inside.readAs

theorem SpellsItems.readAs : ∀ {text : List Char} {items : List Reading},
    SpellsItems text items → ItemsReadAs text items
  | _, _, .last value blank => .last value.readAs blank
  | _, _, .cons value blank blank' later => .cons value.readAs blank blank' later.readAs

theorem SpellsMember.readAs : ∀ {text : List Char} {member : String × Reading},
    SpellsMember text member → MemberReadAs text member
  | _, _, .mk named blank blank' value blank'' =>
    .mk_value named blank blank' value.readAs blank''

theorem SpellsMembers.readAs : ∀ {text : List Char} {members : List (String × Reading)},
    SpellsMembers text members → MembersReadAs text members
  | _, _, .last only => .last only.readAs
  | _, _, .cons first blank later => .cons first.readAs blank later.readAs

end

theorem parse?_of_denotes {text : String} {r : Reading} (denotes : Denotes text r)
    : parse? text = some r := by
  obtain @⟨gap, s, gap', r, blank, spells, blank'⟩ := denotes
  have readAs := spells.readAs
  have start := skip_blank_append blank readAs.begins gap'
  have ends : EndsNumber gap' := by simpa using EndsNumber.append blank' .nil
  have stop : skip gap' = [] := by simpa [skip] using skip_blank blank' []
  have read := readAs.reads (2 * (gap ++ (s ++ gap')).length + 1) gap' (by simp; omega) ends
  simp only [parse?, String.toList_ofList, start, read]
  simp [stop]

theorem denotes_of_spells {text : String} {r : Reading} (spells : Spells text.toList r)
    : Denotes text r := by
  have alone := @Denotes.mk [] _ [] _ nofun spells nofun
  simpa using alone

end Reading

end RuleEngine
