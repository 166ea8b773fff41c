import RuleEngine.Proofs.Json.Recognition

/-! Documents as they are written. The text of a document spells what the document says, with every
string unescaped, every member in its place, and every number by its digits. So it is read back.
-/

namespace RuleEngine

namespace Reading

-- --------------------------------------------------------------------------------------
-- Numbers
-- --------------------------------------------------------------------------------------

theorem spellsDecimal_text (d : Decimal) : SpellsDecimal d.text.toList d.spelled := by
  obtain ⟨whole, fraction, spelling, text⟩ := d.exists_spelling
  have before : IsWhole whole :=
    ⟨⟨spelling.some?, fun c member => spelling.digits c (List.mem_append_left _ member)⟩,
      spelling.leading⟩
  have after : SpellsFraction (Decimal.point fraction) fraction := by
    cases fraction with
    | nil => exact .absent
    | cons c more =>
      exact .present
        ⟨by simp, fun c' member => spelling.digits c' (List.mem_append_right _ member)⟩
  have production := SpellsDecimal.mk before after .absent
  rw [text]
  simpa [spelling.value] using production

/-- The spelling of a finite number is its sign and its shortest decimal. -/
theorem toList_plain {n : Number} (finite : n.isFinite)
    : n.plain.toList
      = if n.isNegative then '-' :: n.shortest.text.toList else n.shortest.text.toList := by
  simp only [Number.isFinite, decide_eq_true_eq] at finite
  have noNaN : n.isNaN = false := decide_eq_false (Nat.lt_asymm finite)
  have bounded : n.isInfinite = false := beq_eq_false_iff_ne.mpr (Nat.ne_of_lt finite)
  cases negative : n.isNegative <;> simp [Number.plain, noNaN, bounded, Number.signText, negative]

/-- A finite number is spelled by its sign and its digits. -/
theorem Spells.plain {n : Number} (finite : n.isFinite)
    : Spells n.plain.toList (.number n.isNegative n.shortest.spelled) := by
  rw [toList_plain finite]
  cases n.isNegative with
  | true => exact .negative (spellsDecimal_text n.shortest)
  | false => exact .number (spellsDecimal_text n.shortest)

theorem Spells.natural (n : Nat) : Spells (toString n).toList (natural n) := by
  have text : (⟨n, 0⟩ : Decimal).text = toString n := by simp [Decimal.text]
  have spelled : (⟨n, 0⟩ : Decimal).spelled = ⟨n, 0⟩ := by simp [Decimal.spelled]
  have production := spellsDecimal_text ⟨n, 0⟩
  rw [text, spelled] at production
  exact .number production

-- --------------------------------------------------------------------------------------
-- Strings
-- --------------------------------------------------------------------------------------

/-- A control character is spelled by its four digits. -/
theorem spellsUnit_hexFour {n : Nat} (small : n < 160)
    : SpellsUnit (Json.hexFour n).toList n := by
  have all : ∀ n < 160, unit? (List.replicate (4 - (Nat.toDigits 16 n).length) '0'
      ++ Nat.toDigits 16 n) = some (n, []) := by
    decide +kernel
  obtain ⟨digits, same, production⟩ := spells_of_unit? (all n small)
  simpa [Json.hexFour, same] using production

/-- An escaped character spells what it was before. -/
theorem spellsChar_escapedChar (c : Char) : SpellsChar (Json.escapedChar c).toList c := by
  unfold Json.escapedChar
  split_ifs with quote backslash newline carriage tab control
  · simpa [quote] using SpellsChar.escape (show ('"', '"') ∈ escapes by simp [escapes])
  · simpa [backslash] using SpellsChar.escape (show ('\\', '\\') ∈ escapes by simp [escapes])
  · simpa [newline] using SpellsChar.escape (show ('n', '\n') ∈ escapes by simp [escapes])
  · simpa [carriage] using SpellsChar.escape (show ('r', '\r') ∈ escapes by simp [escapes])
  · simpa [tab] using SpellsChar.escape (show ('t', '\t') ∈ escapes by simp [escapes])
  · have small : c.toNat < 160 := by
      simp only [Json.isControl, Bool.or_eq_true, Bool.and_eq_true, decide_eq_true_eq] at control
      omega
    have unit := SpellsChar.unit (spellsUnit_hexFour small) (.inl (by omega))
    simpa [Char.ofNat_toNat] using unit
  · have large : ¬c.toNat < 0x20 := by
      simp only [Json.isControl, Bool.or_eq_true, decide_eq_true_eq, not_or] at control
      exact control.1
    simpa using SpellsChar.plain (by omega) quote backslash

/-- By induction on the characters. -/
theorem spellsChars_escaped (cs : List Char)
    : SpellsChars (cs.flatMap fun c => (Json.escapedChar c).toList) cs := by
  induction cs with
  | nil => exact .nil
  | cons c cs ih => exact .cons (spellsChar_escapedChar c) ih

/-- An escaped string spells what it was before. -/
theorem spellsString_escaped (s : String) : SpellsString (Json.escaped s).toList s := by
  have production := SpellsString.mk (spellsChars_escaped s.toList)
  simpa [Json.escaped, List.flatMap_map] using production

-- --------------------------------------------------------------------------------------
-- Documents
-- --------------------------------------------------------------------------------------

theorem Blank.nil : Blank [] := nofun

theorem Blank.append {gap gap' : List Char} (blank : Blank gap) (blank' : Blank gap')
    : Blank (gap ++ gap') :=
  List.forall_mem_append.mpr ⟨blank, blank'⟩

section

variable {gap close : List Char} (blank : Blank gap) (blank' : Blank close)

include blank blank'

/-- Items joined by commas are items of an array, with white space behind each comma and before the
end; by induction on the items.
-/
theorem SpellsItems.joined {parts : List (List Char)} {readings : List Reading}
    (spell : List.Forall₂ Spells parts readings) (some? : parts ≠ [])
    : SpellsItems ((',' :: gap).intercalate parts ++ close) readings := by
  induction spell with
  | nil => exact absurd rfl some?
  | cons first later ih =>
    cases later with
    | nil => simpa using SpellsItems.last first blank'
    | cons second later =>
      have others := ih (by simp)
      simpa [List.intercalate_cons_cons] using SpellsItems.cons first .nil blank others

/-- Items between brackets spell an array, with white space also behind the opening bracket. -/
theorem Spells.array_joined {start : List Char} (blankStart : Blank start)
    {parts : List (List Char)} {readings : List Reading}
    (spell : List.Forall₂ Spells parts readings)
    : Spells ('[' :: (start ++ ((',' :: gap).intercalate parts ++ (close ++ [']']))))
        (.array readings) := by
  cases spell with
  | nil => simpa using Spells.emptyArray (blankStart.append blank')
  | cons first later =>
    have items := SpellsItems.joined blank blank' (.cons first later) (by simp)
    simpa using Spells.array blankStart items

end

/-- Items between brackets spell an array without any white space. -/
theorem Spells.array_compact {parts : List (List Char)} {readings : List Reading}
    (spell : List.Forall₂ Spells parts readings)
    : Spells ('[' :: ([','].intercalate parts ++ [']'])) (.array readings) := by
  simpa using Spells.array_joined .nil .nil .nil spell

/-- Members joined by commas are members of an object, by induction on the members. -/
theorem SpellsMembers.joined {parts : List (List Char)} {members : List (String × Reading)}
    (spell : List.Forall₂ SpellsMember parts members) (some? : parts ≠ [])
    : SpellsMembers ([','].intercalate parts) members := by
  induction spell with
  | nil => exact absurd rfl some?
  | cons first later ih =>
    cases later with
    | nil => simpa using SpellsMembers.last first
    | cons second later =>
      have others := ih (by simp)
      simpa [List.intercalate_cons_cons] using SpellsMembers.cons first .nil others

/-- Members between braces spell an object. -/
theorem Spells.object_compact {parts : List (List Char)} {members : List (String × Reading)}
    (spell : List.Forall₂ SpellsMember parts members)
    : Spells ('\x7b' :: ([','].intercalate parts ++ ['\x7d'])) (.object members) := by
  cases spell with
  | nil => exact .emptyObject .nil
  | cons first later =>
    exact .object .nil (SpellsMembers.joined (.cons first later) (by simp))

/-- A whole text is read as what it spells. -/
theorem parse?_of_spells {text : String} {reading : Reading}
    (spells : Spells text.toList reading)
    : parse? text = some reading :=
  parse?_of_denotes (denotes_of_spells spells)

end Reading

-- --------------------------------------------------------------------------------------
-- What a document says
-- --------------------------------------------------------------------------------------

namespace Json

mutual

/-- What the text of a document says. -/
def reading : Json → Reading
  | null => .null
  | bool b => .bool b
  | number n => .number n.isNegative n.shortest.spelled
  | nat n => .natural n
  | string s => .string s
  | array items => .array (readingItems items)
  | object members => .object (readingMembers members)

def readingItems : List Json → List Reading
  | [] => []
  | item :: items => item.reading :: readingItems items

def readingMembers : List (String × Json) → List (String × Reading)
  | [] => []
  | (key, value) :: members => (key, value.reading) :: readingMembers members

end

mutual

/-- All numbers of a document are finite. -/
def IsFinite : Json → Prop
  | number n => n.isFinite
  | array items => AreFinite items
  | object members => HasFinite members
  | null | bool _ | nat _ | string _ => True

def AreFinite : List Json → Prop
  | [] => True
  | item :: items => item.IsFinite ∧ AreFinite items

def HasFinite : List (String × Json) → Prop
  | [] => True
  | (_, value) :: members => value.IsFinite ∧ HasFinite members

end

open Reading (Spells SpellsMember SpellsMembers Blank)

mutual

/-- The text of a document spells what the document says, by recursion on the document. -/
theorem spells_text : ∀ {j : Json}, j.IsFinite → Spells j.text.toList j.reading
  | null, _ => .null
  | bool true, _ => .yes
  | bool false, _ => .no
  | number _, finite => .plain finite
  | nat n, _ => .natural n
  | string s, _ => .string (Reading.spellsString_escaped s)
  | array items, finite => by
    have spells := Spells.array_compact (spells_items finite)
    simpa [text, reading] using spells
  | object members, finite => by
    have spells := Spells.object_compact (spells_members finite)
    simpa [text, reading] using spells

theorem spells_items : ∀ {items : List Json}, AreFinite items →
    List.Forall₂ Spells ((textItems items).map (·.toList)) (readingItems items)
  | [], _ => .nil
  | _ :: _, finite => .cons (spells_text finite.1) (spells_items finite.2)

theorem spells_members : ∀ {members : List (String × Json)}, HasFinite members →
    List.Forall₂ SpellsMember ((textMembers members).map (·.toList)) (readingMembers members)
  | [], _ => .nil
  | (key, _) :: _, finite => by
    have member := SpellsMember.mk (Reading.spellsString_escaped key) .nil .nil
      (spells_text finite.1) .nil
    refine .cons ?_ (spells_members finite.2)
    simpa using member

end

theorem parse?_text {j : Json} (finite : j.IsFinite) : Reading.parse? j.text = some j.reading :=
  Reading.parse?_of_spells (spells_text finite)

/-- The text of a document denotes what the document says, and nothing else. -/
theorem denotes_text_iff {j : Json} (finite : j.IsFinite) {r : Reading}
    : Reading.Denotes j.text r ↔ r = j.reading := by
  rw [← Reading.parse?_eq_some_iff, parse?_text finite, Option.some.injEq, eq_comm]

-- --------------------------------------------------------------------------------------
-- Parts of documents
-- --------------------------------------------------------------------------------------

theorem areFinite_iff {items : List Json} : AreFinite items ↔ ∀ j ∈ items, j.IsFinite := by
  induction items with
  | nil => simp [AreFinite]
  | cons item items ih => simp [AreFinite, ih]

theorem hasFinite_iff {members : List (String × Json)}
    : HasFinite members ↔ ∀ m ∈ members, m.2.IsFinite := by
  induction members with
  | nil => simp [HasFinite]
  | cons member members ih => simp [HasFinite, ih]

theorem readingItems_eq_map (items : List Json) : readingItems items = items.map reading := by
  induction items with
  | nil => rfl
  | cons item items ih => simp [readingItems, ih]

theorem readingMembers_eq_map (members : List (String × Json))
    : readingMembers members = members.map fun m => (m.1, m.2.reading) := by
  induction members with
  | nil => rfl
  | cons member members ih => simp [readingMembers, ih]

end Json

end RuleEngine
