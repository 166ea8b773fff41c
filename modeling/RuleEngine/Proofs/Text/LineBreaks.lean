import Mathlib.Data.List.Basic
import RuleEngine.Proofs.Number.Spelling
import RuleEngine.Value.Text

/-! The line breaks of texts. A text that is put together from others has the line breaks of its
parts. Digits and quoted texts have none, so numbers and dates have none either, and all that can
break the source text of a value are the kinds of the facts in it, which are not quoted.
-/

namespace RuleEngine

namespace Text

/-- The code points at which a line ends: line feed, vertical tab, form feed, carriage return, next
line, and the separators of lines and of paragraphs.
-/
def lineBreaks : List Nat := [0x0A, 0x0B, 0x0C, 0x0D, 0x85, 0x2028, 0x2029]

def isLineBreak (c : Char) : Bool := lineBreaks.contains c.toNat

/-- The line breaks of a text, in order. -/
def breaks (s : String) : List Char := s.toList.filter isLineBreak

/-- The lines of a text that line feeds divide. -/
def linesOf (s : String) : List String := (s.toList.splitOn '\n').map String.ofList

-- --------------------------------------------------------------------------------------
-- Texts put together
-- --------------------------------------------------------------------------------------

@[simp]
theorem breaks_append (s t : String) : breaks (s ++ t) = breaks s ++ breaks t := by
  simp [breaks]

theorem breaks_eq_nil_iff {s : String} : breaks s = [] ↔ ∀ c ∈ s.toList, isLineBreak c = false := by
  simp [breaks]

/-- A form in which texts that are written out are evaluated while a goal is simplified. -/
theorem breaks_of_isEmpty {s : String} (unbroken : (breaks s).isEmpty) : breaks s = [] :=
  List.isEmpty_iff.mp unbroken

theorem breaks_ofList {cs : List Char} (unbroken : ∀ c ∈ cs, isLineBreak c = false)
    : breaks (String.ofList cs) = [] :=
  breaks_eq_nil_iff.mpr (by simpa using unbroken)

theorem breaks_join (parts : List String) : breaks (String.join parts) = parts.flatMap breaks := by
  induction parts with
  | nil => rfl
  | cons part parts ih => simp [String.join_cons, ih]

/-- A separator without line breaks adds none, by induction on the parts. -/
theorem breaks_intercalate {separator : String} (unbroken : breaks separator = [])
    (parts : List String)
    : breaks (separator.intercalate parts) = parts.flatMap breaks := by
  induction parts with
  | nil => rfl
  | cons part parts ih =>
    cases parts with
    | nil => simp
    | cons next parts =>
      rw [String.intercalate_cons_cons]
      simp [unbroken, ih]

@[simp]
theorem breaks_list (items : List String) : breaks (list items) = items.flatMap breaks := by
  simp (disch := decide) [list, breaks_intercalate, breaks_of_isEmpty]

@[simp]
theorem breaks_entries (pairs : List (String × String))
    : breaks (entries pairs) = pairs.flatMap fun pair => breaks pair.1 ++ breaks pair.2 := by
  simp (disch := decide) [entries, breaks_intercalate, breaks_of_isEmpty, List.flatMap_map]

-- --------------------------------------------------------------------------------------
-- Lines
-- --------------------------------------------------------------------------------------

theorem lineFeed_mem_breaks {s : String} : '\n' ∈ breaks s ↔ '\n' ∈ s.toList := by
  simp [breaks, show isLineBreak '\n' from rfl]

theorem count_breaks (s : String) : (breaks s).count '\n' = s.toList.count '\n' :=
  List.count_filter rfl

/-- There is one line more than there are line feeds, by induction on the characters. -/
theorem length_linesOf (s : String) : (linesOf s).length = s.toList.count '\n' + 1 := by
  rw [linesOf, List.length_map]
  induction s.toList with
  | nil => rfl
  | cons c cs ih =>
    rw [List.splitOn_eq_splitOnP] at ih ⊢
    rw [List.splitOnP_cons_eq_if_modifyHead, List.count_cons]
    split <;> simp [ih]

/-- Parts joined by line feeds have the line feeds between them and their own, by induction on the
parts.
-/
theorem count_intercalate {parts : List String} (nonempty : parts ≠ [])
    : ("\n".intercalate parts).toList.count '\n' + 1
      = parts.length + (parts.flatMap breaks).count '\n' := by
  induction parts with
  | nil => exact absurd rfl nonempty
  | cons part parts ih =>
    cases parts with
    | nil => simp [count_breaks, Nat.add_comm]
    | cons next parts =>
      have others := ih (by simp)
      rw [String.intercalate_cons_cons]
      simp only [String.toList_append, List.count_append, List.flatMap_cons, List.length_cons,
        count_breaks] at others ⊢
      have own : "\n".toList.count '\n' = 1 := by decide
      omega

/-- Parts joined by line feeds are the lines of what they are joined to exactly if they hold no line
feed themselves: each one that they hold makes a line more.
-/
theorem linesOf_intercalate_iff {parts : List String} (nonempty : parts ≠ [])
    : linesOf ("\n".intercalate parts) = parts ↔ ∀ part ∈ parts, '\n' ∉ part.toList := by
  constructor
  · intro same part member
    have counts : parts.length = parts.length + (parts.flatMap breaks).count '\n' := by
      rw [← count_intercalate nonempty, ← length_linesOf, same]
    have noFeeds : '\n' ∉ parts.flatMap breaks := List.count_eq_zero.mp (by omega)
    exact fun here => noFeeds (List.mem_flatMap.mpr ⟨part, member, lineFeed_mem_breaks.mpr here⟩)
  · intro noFeeds
    have split : (['\n'].intercalate (parts.map String.toList)).splitOn '\n'
        = parts.map String.toList :=
      List.splitOn_intercalate '\n' (by simpa using noFeeds) (by simpa using nonempty)
    rw [linesOf, String.toList_intercalate]
    simp [split]

-- --------------------------------------------------------------------------------------
-- Digits
-- --------------------------------------------------------------------------------------

theorem isLineBreak_digitChar : ∀ n < 16, isLineBreak n.digitChar = false := by
  decide

/-- Digits up to hexadecimal ones are no line breaks, by induction on the number. -/
theorem isLineBreak_of_mem_toDigits {b n : Nat} (base : 1 < b) (most : b ≤ 16) {c : Char}
    (member : c ∈ Nat.toDigits b n)
    : isLineBreak c = false := by
  induction n using Nat.strongRecOn with
  | ind n ih =>
    rw [Nat.toDigits_eq_if base] at member
    split at member
    · rw [List.mem_singleton.mp member]
      exact isLineBreak_digitChar n (by omega)
    · rcases List.mem_append.mp member with front | last
      · exact ih (n / b) (Nat.div_lt_self (by omega) base) front
      · have below : n % b < b := Nat.mod_lt n (by omega)
        rw [List.mem_singleton.mp last]
        exact isLineBreak_digitChar (n % b) (by omega)

@[simp]
theorem breaks_repr (n : Nat) : breaks n.repr = [] :=
  breaks_eq_nil_iff.mpr fun c member =>
    isLineBreak_of_mem_toDigits (b := 10) (by decide) (by decide) (by simpa using member)

@[simp]
theorem breaks_zeroPadded (width n : Nat) : breaks (zeroPadded width n) = [] := by
  refine breaks_ofList fun c member => ?_
  rcases List.mem_append.mp member with zero | digit
  · rw [List.eq_of_mem_replicate zero]
    rfl
  · exact isLineBreak_of_mem_toDigits (by decide) (by decide) digit

-- --------------------------------------------------------------------------------------
-- Quoted texts
-- --------------------------------------------------------------------------------------

theorem isLineBreak_of_isPrintable {c : Char} (printable : isPrintable c)
    : isLineBreak c = false := by
  have hidden : ∀ n ∈ lineBreaks,
      (if n < 0x7F then decide (0x20 ≤ n)
        else !hiddenRanges.any fun range => range.1 ≤ n && n ≤ range.2) = false := by
    simp only [← Array.any_toList]
    decide +kernel
  refine Bool.eq_false_iff.mpr fun lineBreak => ?_
  rw [isPrintable, hidden c.toNat (List.contains_iff_mem.mp lineBreak)] at printable
  cases printable

theorem breaks_codePoint (c : Char) : breaks (codePoint c) = [] := by
  have digits : breaks (String.ofList (Nat.toDigits 16 c.toNat)) = [] :=
    breaks_ofList fun _ => isLineBreak_of_mem_toDigits (by decide) (by decide)
  simp (disch := decide) [codePoint, digits, breaks_of_isEmpty]

/-- What a quoted text shows as it is are no line breaks. -/
theorem breaks_quotedChar (c : Char) : breaks (quotedChar c) = [] := by
  unfold quotedChar
  split_ifs with _ _ _ _ _ _ printable
  · decide
  · decide
  · decide
  · decide
  · decide
  · decide
  · simpa [breaks_eq_nil_iff] using isLineBreak_of_isPrintable printable
  · exact breaks_codePoint c

@[simp]
theorem breaks_quoted (s : String) : breaks (quoted s) = [] := by
  simp (disch := decide) [quoted, breaks_join, breaks_quotedChar, breaks_of_isEmpty]

end Text

open Text

-- --------------------------------------------------------------------------------------
-- Numbers and dates
-- --------------------------------------------------------------------------------------

@[simp]
theorem Decimal.breaks_pointed (digits places : Nat) : breaks (pointed digits places) = [] := by
  unfold pointed
  split
  · exact breaks_repr digits
  · refine breaks_ofList fun c member => ?_
    have among : c = '.' ∨ c = '0' ∨ c ∈ Nat.toDigits 10 digits := by
      rcases List.mem_append.mp member with front | back
      · have padded := List.mem_append.mp (List.mem_of_mem_take front)
        exact .inr (padded.imp_left List.eq_of_mem_replicate)
      · refine (List.mem_cons.mp back).imp_right fun back => ?_
        exact (List.mem_append.mp (List.mem_of_mem_drop back)).imp_left List.eq_of_mem_replicate
    rcases among with rfl | rfl | digit
    · decide
    · decide
    · exact isLineBreak_of_mem_toDigits (by decide) (by decide) digit

@[simp]
theorem Decimal.breaks_text (d : Decimal) : breaks d.text = [] := by
  unfold Decimal.text
  split
  · exact breaks_repr _
  · exact breaks_pointed _ _

namespace Number

@[simp]
theorem breaks_signText (n : Number) : breaks n.signText = [] := by
  unfold signText
  split <;> decide

theorem breaks_plain (n : Number) : breaks n.plain = [] := by
  unfold plain
  split_ifs <;> simp (disch := decide) [breaks_of_isEmpty]

@[simp]
theorem breaks_text (n : Number) : breaks n.text = [] := by
  unfold text
  split_ifs <;> simp (disch := decide) [breaks_of_isEmpty, breaks_plain]

@[simp]
theorem breaks_fixed (n : Number) (places : Nat) : breaks (n.fixed places) = [] := by
  simp [fixed]

end Number

namespace Instant

theorem breaks_yearText (year : Int) : breaks (yearText year) = [] := by
  unfold yearText
  split_ifs <;> simp (disch := decide) [breaks_of_isEmpty]

theorem breaks_fractionText (precision : Precision) (nanos : Nat)
    : breaks (fractionText precision nanos) = [] := by
  unfold fractionText
  cases precision with
  | millis => simp (disch := decide) [breaks_of_isEmpty]
  | least => dsimp only; split_ifs <;> simp (disch := decide) [breaks_of_isEmpty]

@[simp]
theorem breaks_text (i : Instant) (precision : Precision) : breaks (i.text precision) = [] := by
  simp (disch := decide) [text, breaks_yearText, breaks_fractionText, breaks_of_isEmpty]

end Instant

-- --------------------------------------------------------------------------------------
-- Values
-- --------------------------------------------------------------------------------------

@[simp]
theorem FactId.breaks_text (id : FactId) : breaks id.text = [] := by
  simp (disch := decide) [FactId.text, breaks_of_isEmpty]

namespace Value

mutual

/-- The kinds of the facts in a value, in the order of its source text. -/
def kinds : Value → List String
  | list items => kindsItems items
  | map fields => kindsFields fields
  | fact f => kindsFact f
  | undefined | null | bool _ | number _ | string _ | date _ => []

def kindsItems : List Value → List String
  | [] => []
  | item :: rest => item.kinds ++ kindsItems rest

def kindsFields {bound : Option String} : Fields bound → List String
  | .nil => []
  | .cons _ _ value rest => value.kinds ++ kindsFields rest

def kindsFact : Fact → List String
  | ⟨_, kind, fields⟩ => kind :: kindsFields fields

end

mutual

/-- The source text of a value is broken by nothing but the kinds of the facts in it. -/
theorem breaks_source : ∀ v : Value, breaks v.source = v.kinds.flatMap breaks
  | .undefined | .null => by simp (disch := decide) [source, kinds, breaks_of_isEmpty]
  | .bool b => by cases b <;> simp (disch := decide) [source, kinds, Text.flag, breaks_of_isEmpty]
  | .number _ | .string _ | .date _ => by simp [source, kinds]
  | .list items => by simp [source, kinds, breaks_sourceItems items]
  | .map fields => by simp [source, kinds, breaks_sourceEntries fields]
  | .fact f => by simp [source, kinds, breaks_sourceFact f]

theorem breaks_sourceItems
    : ∀ items : List Value, (sourceItems items).flatMap breaks = (kindsItems items).flatMap breaks
  | [] => rfl
  | item :: rest => by
    simp [sourceItems, kindsItems, breaks_source item, breaks_sourceItems rest]

theorem breaks_sourceEntries {bound : Option String}
    : ∀ fields : Fields bound,
      ((sourceEntries fields).flatMap fun pair => breaks pair.1 ++ breaks pair.2)
        = (kindsFields fields).flatMap breaks
  | .nil => rfl
  | .cons _ _ value rest => by
    simp [sourceEntries, kindsFields, breaks_source value, breaks_sourceEntries rest]

theorem breaks_sourceFact : ∀ f : Fact, breaks (sourceFact f) = (kindsFact f).flatMap breaks
  | ⟨_, _, fields⟩ => by
    simp (disch := decide) [sourceFact, kindsFact, breaks_sourceEntries fields, breaks_of_isEmpty]

end

end Value

end RuleEngine
