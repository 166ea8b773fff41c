import Mathlib.Data.List.TakeWhile
import RuleEngine.Proofs.Json.Grammar

/-! What is read is a text of the grammar: the reader accepts nothing else. So a text is read
exactly as what it denotes, and no text denotes two things.
-/

namespace RuleEngine

namespace Reading

open Text (digitsValue spanDigits)

-- --------------------------------------------------------------------------------------
-- Numbers and strings
-- --------------------------------------------------------------------------------------

theorem exists_blank (s : List Char) : ∃ gap, Blank gap ∧ s = gap ++ skip s :=
  ⟨s.takeWhile isSpace, fun _ => List.mem_takeWhile_imp, List.takeWhile_append_dropWhile.symm⟩

theorem digits_of_spanDigits {s digits rest : List Char} (span : spanDigits s = (digits, rest))
    : s = digits ++ rest ∧ ∀ c ∈ digits, c.isDigit := by
  obtain ⟨rfl, rfl⟩ := Prod.mk.inj span
  exact ⟨List.takeWhile_append_dropWhile.symm, fun _ => List.mem_takeWhile_imp⟩

theorem isWhole_of_whole? {s digits rest : List Char} (read : whole? s = some (digits, rest))
    : s = digits ++ rest ∧ IsWhole digits := by
  unfold whole? at read
  split at read
  · cases read
  · cases read
  · rename_i some? leading span
    cases read
    obtain ⟨parts, run⟩ := digits_of_spanDigits span
    refine ⟨parts, ⟨some?, run⟩, fun zero => ?_⟩
    cases digits with
    | nil => cases zero
    | cons c more =>
      cases Option.some.inj zero
      cases more with
      | nil => rfl
      | cons c more => exact absurd rfl (leading c more)

theorem spells_of_fraction? {s digits rest : List Char} (read : fraction? s = some (digits, rest))
    : ∃ text, s = text ++ rest ∧ SpellsFraction text digits := by
  unfold fraction? at read
  split at read
  · split at read
    · cases read
    · rename_i some? span
      cases read
      obtain ⟨rfl, run⟩ := digits_of_spanDigits span
      exact ⟨_, rfl, .present ⟨some?, run⟩⟩
  · cases read
    exact ⟨[], rfl, .absent⟩

theorem spells_of_dropSign (s : List Char)
    : ∃ text, s = text ++ (Number.Literal.dropSign s).2
        ∧ SpellsSign text (Number.Literal.dropSign s).1 := by
  unfold Number.Literal.dropSign
  split
  · exact ⟨_, rfl, .plus⟩
  · exact ⟨_, rfl, .minus⟩
  · exact ⟨[], rfl, .absent⟩

theorem spells_of_exponent? {s rest : List Char} {exponent : Int}
    (read : exponent? s = some (exponent, rest))
    : ∃ text, s = text ++ rest ∧ SpellsExponent text exponent := by
  unfold exponent? at read
  split at read
  · cases read
    exact ⟨[], rfl, .absent⟩
  · rename_i mark s
    split at read
    · rename_i marked
      obtain ⟨sign, parts, signed⟩ := spells_of_dropSign s
      simp only at read
      split at read
      · cases read
      · rename_i some? span
        cases read
        obtain ⟨parts', run⟩ := digits_of_spanDigits span
        rw [parts'] at parts
        exact ⟨_, by simp [parts], .present marked signed ⟨some?, run⟩⟩
    · cases read
      exact ⟨[], rfl, .absent⟩

theorem spells_of_decimal? {s rest : List Char} {d : Decimal} (read : decimal? s = some (d, rest))
    : ∃ text, s = text ++ rest ∧ SpellsDecimal text d := by
  simp only [decimal?, Option.bind_eq_bind, Option.bind_eq_some_iff, Option.pure_def,
    Option.some.injEq, Prod.mk.injEq, Prod.exists] at read
  obtain ⟨whole, r, wholes, fraction, r', fractions, exponent, rest', scaled, rfl, rfl⟩ := read
  obtain ⟨rfl, before⟩ := isWhole_of_whole? wholes
  obtain ⟨point, rfl, after⟩ := spells_of_fraction? fractions
  obtain ⟨power, rfl, scale⟩ := spells_of_exponent? scaled
  exact ⟨_, by simp, .mk before after scale⟩

theorem spells_of_number? {s rest : List Char} {r : Reading} (read : number? s = some (r, rest))
    : ∃ text, s = text ++ rest ∧ Spells text r := by
  unfold number? at read
  split at read
  · obtain ⟨⟨d, rest'⟩, decimal, same⟩ := Option.map_eq_some_iff.mp read
    cases same
    obtain ⟨text, rfl, production⟩ := spells_of_decimal? decimal
    exact ⟨_, rfl, .negative production⟩
  · obtain ⟨⟨d, rest'⟩, decimal, same⟩ := Option.map_eq_some_iff.mp read
    cases same
    obtain ⟨text, rfl, production⟩ := spells_of_decimal? decimal
    exact ⟨_, rfl, .number production⟩

theorem spells_of_unit? {s rest : List Char} {n : Nat} (read : unit? s = some (n, rest))
    : ∃ text, s = text ++ rest ∧ SpellsUnit text n := by
  unfold unit? at read
  split at read
  · simp only [Option.bind_eq_bind, Option.bind_eq_some_iff, Option.pure_def, Option.some.injEq,
      Prod.mk.injEq] at read
    obtain ⟨a', first, b', second, c', third, d', fourth, rfl, rfl⟩ := read
    exact ⟨_, rfl, .mk first second third fourth⟩
  · cases read

theorem spells_of_unicode? {s rest : List Char} {c : Char} (read : unicode? s = some (c, rest))
    : ∃ text, s = text ++ rest ∧ SpellsChar ('\\' :: 'u' :: text) c := by
  simp only [unicode?, Option.bind_eq_bind, Option.bind_eq_some_iff, Prod.exists] at read
  obtain ⟨high, r, leads, read⟩ := read
  obtain ⟨first, rfl, number⟩ := spells_of_unit? leads
  split at read
  · rename_i scalar
    cases read
    exact ⟨first, rfl, .unit number (by simpa using scalar)⟩
  · rename_i surrogate
    split at read
    · simp only [Option.bind_eq_some_iff, Prod.exists] at read
      obtain ⟨low, r', trails, read⟩ := read
      obtain ⟨second, rfl, number'⟩ := spells_of_unit? trails
      split at read
      · rename_i isPair
        obtain ⟨rfl, rfl⟩ := Prod.mk.inj (Option.some.inj read)
        simp only [Bool.or_eq_true, Bool.and_eq_true, decide_eq_true_eq, not_or]
          at surrogate isPair
        exact ⟨_, by simp, .pair number number' (by omega) (by omega)⟩
      · cases read
    · cases read

theorem spells_of_escape? {s rest : List Char} {c : Char} (read : escape? s = some (c, rest))
    : ∃ text, s = text ++ rest ∧ SpellsChar ('\\' :: text) c := by
  unfold escape? at read
  split at read
  -- Eight marks stand for one character each, the ninth for a number, and others for nothing.
  case h_9 =>
    obtain ⟨text, rfl, production⟩ := spells_of_unicode? read
    exact ⟨_, rfl, production⟩
  case h_10 => cases read
  all_goals
    cases read
    exact ⟨[_], rfl, .escape (by simp [escapes])⟩

theorem spells_of_char? {s rest : List Char} {c : Char} (read : char? s = some (c, rest))
    (noQuote : ∀ more, s ≠ '"' :: more)
    : ∃ text, s = text ++ rest ∧ SpellsChar text c := by
  unfold char? at read
  split at read
  · cases read
  · obtain ⟨text, rfl, production⟩ := spells_of_escape? read
    exact ⟨_, rfl, production⟩
  · rename_i backslash
    split at read
    · cases read
    · cases read
      have quote : c ≠ '"' := fun same => noQuote rest (same ▸ rfl)
      exact ⟨[c], rfl, .plain (by omega) quote backslash⟩

/-- By induction on the fuel, which bounds the characters. -/
theorem spells_of_chars? {fuel : Nat} {s cs rest : List Char}
    (read : chars? fuel s = some (cs, rest))
    : ∃ text, s = text ++ '"' :: rest ∧ SpellsChars text cs := by
  induction fuel generalizing s cs with
  | zero => cases read
  | succ fuel ih =>
    unfold chars? at read
    split at read
    · cases read
    · cases read
      exact ⟨[], rfl, .nil⟩
    · rename_i same noQuote
      cases same
      simp only [Option.bind_eq_bind, Option.bind_eq_some_iff, Option.pure_def, Option.some.injEq,
        Prod.mk.injEq, Prod.exists] at read
      obtain ⟨c, r, first, cs, r', later, rfl, rfl⟩ := read
      obtain ⟨text, rfl, char⟩ := spells_of_char? first fun _ => noQuote _
      obtain ⟨more, rfl, chars⟩ := ih later
      exact ⟨_, by simp, .cons char chars⟩

theorem spells_of_string? {s rest : List Char} {value : String}
    (read : string? s = some (value, rest))
    : ∃ text, '"' :: s = text ++ rest ∧ SpellsString text value := by
  obtain ⟨⟨cs, r⟩, chars, same⟩ := Option.map_eq_some_iff.mp read
  cases same
  obtain ⟨text, rfl, production⟩ := spells_of_chars? chars
  exact ⟨_, by simp, .mk production⟩

theorem spells_of_word? {s rest : List Char} {r : Reading} (read : word? s = some (r, rest))
    : ∃ text, s = text ++ rest ∧ Spells text r := by
  unfold word? at read
  split at read
  · cases read
    exact ⟨_, rfl, .null⟩
  · cases read
    exact ⟨_, rfl, .yes⟩
  · cases read
    exact ⟨_, rfl, .no⟩
  · cases read

-- --------------------------------------------------------------------------------------
-- Documents
-- --------------------------------------------------------------------------------------

/-- With so much fuel nothing is read but texts of the grammar. -/
structure ReadsTexts (fuel : Nat) : Prop where
  value : ∀ {s rest : List Char} {r : Reading}, value? fuel s = some (r, rest) →
    ∃ text, s = text ++ rest ∧ Spells text r
  items : ∀ {s rest : List Char} {items : List Reading}, items? fuel s = some (items, rest) →
    ∃ text, s = text ++ ']' :: rest ∧ SpellsItems text items
  members : ∀ {s rest : List Char} {members : List (String × Reading)},
    members? fuel s = some (members, rest) →
    ∃ text, s = text ++ '\x7d' :: rest ∧ SpellsMembers text members

namespace ReadsTexts

variable {fuel : Nat} {s rest : List Char}

theorem value_succ (reads : ReadsTexts fuel) {r : Reading}
    (read : value? (fuel + 1) s = some (r, rest))
    : ∃ text, s = text ++ rest ∧ Spells text r := by
  unfold value? at read
  split at read
  · cases read
  · obtain ⟨⟨string, r⟩, quoted, same⟩ := Option.map_eq_some_iff.mp read
    cases same
    obtain ⟨text, parts, production⟩ := spells_of_string? quoted
    exact ⟨text, parts, .string production⟩
  · rename_i inside same
    cases same
    obtain ⟨gap, blank, parts⟩ := exists_blank inside
    split at read
    · rename_i stop
      cases read
      exact ⟨_, by rw [parts, stop]; simp, .emptyArray blank⟩
    · obtain ⟨⟨items, r⟩, several, same⟩ := Option.map_eq_some_iff.mp read
      cases same
      obtain ⟨text, parts', production⟩ := reads.items several
      exact ⟨_, by rw [parts, parts']; simp, .array blank production⟩
  · rename_i inside same
    cases same
    obtain ⟨gap, blank, parts⟩ := exists_blank inside
    split at read
    · rename_i stop
      cases read
      exact ⟨_, by rw [parts, stop]; simp, .emptyObject blank⟩
    · obtain ⟨⟨members, r⟩, several, same⟩ := Option.map_eq_some_iff.mp read
      cases same
      obtain ⟨text, parts', production⟩ := reads.members several
      exact ⟨_, by rw [parts, parts']; simp, .object blank production⟩
  · rcases Option.or_eq_some_iff.mp read with word | ⟨-, number⟩
    · exact spells_of_word? word
    · exact spells_of_number? number

theorem items_succ (reads : ReadsTexts fuel) {items : List Reading}
    (read : items? (fuel + 1) s = some (items, rest))
    : ∃ text, s = text ++ ']' :: rest ∧ SpellsItems text items := by
  simp only [items?, Option.bind_eq_bind, Option.bind_eq_some_iff, Prod.exists] at read
  obtain ⟨item, r, first, read⟩ := read
  obtain ⟨text, rfl, value⟩ := reads.value first
  obtain ⟨gap, blank, parts⟩ := exists_blank r
  split at read
  · rename_i stop
    cases read
    exact ⟨_, by rw [parts, stop]; simp, .last value blank⟩
  · rename_i onward comma
    simp only [Option.bind_eq_some_iff, Option.pure_def, Option.some.injEq, Prod.mk.injEq,
      Prod.exists] at read
    obtain ⟨items, r', later, rfl, rfl⟩ := read
    obtain ⟨gap', blank', parts'⟩ := exists_blank onward
    obtain ⟨more, parts'', others⟩ := reads.items later
    exact ⟨_, by rw [parts, comma, parts', parts'']; simp, .cons value blank blank' others⟩
  · cases read

/-- A key, a colon and a value are a member, with the white space behind them. -/
theorem member (reads : ReadsTexts fuel) {key : String} {r : Reading} {after inside : List Char}
    (name : string? s = some (key, after)) (colon : skip after = ':' :: inside)
    (value : value? fuel (skip inside) = some (r, rest))
    : ∃ text, '"' :: s = text ++ skip rest ∧ SpellsMember text (key, r) := by
  obtain ⟨quoted, parts, named⟩ := spells_of_string? name
  obtain ⟨gap, blank, before⟩ := exists_blank after
  obtain ⟨gap', blank', behind⟩ := exists_blank inside
  obtain ⟨text, document, production⟩ := reads.value value
  obtain ⟨gap'', blank'', onward⟩ := exists_blank rest
  refine ⟨_, ?_, .mk named blank blank' production blank''⟩
  rw [parts, before, colon, behind, document]
  simp [← onward]

theorem members_succ (reads : ReadsTexts fuel) {members : List (String × Reading)}
    (read : members? (fuel + 1) s = some (members, rest))
    : ∃ text, s = text ++ '\x7d' :: rest ∧ SpellsMembers text members := by
  unfold members? at read
  split at read
  · cases read
  · rename_i same
    cases same
    simp only [Option.bind_eq_bind, Option.bind_eq_some_iff, Prod.exists] at read
    obtain ⟨key, after, name, read⟩ := read
    split at read
    · rename_i inside colon
      simp only [Option.bind_eq_some_iff, Prod.exists] at read
      obtain ⟨value, r, document, read⟩ := read
      obtain ⟨text, parts, production⟩ := reads.member name colon document
      split at read
      · rename_i stop
        cases read
        exact ⟨text, by rw [parts, stop], .last production⟩
      · rename_i onward comma
        simp only [Option.bind_eq_some_iff, Option.pure_def, Option.some.injEq, Prod.mk.injEq,
          Prod.exists] at read
        obtain ⟨members, r', later, rfl, rfl⟩ := read
        obtain ⟨gap, blank, parts'⟩ := exists_blank onward
        obtain ⟨more, parts'', others⟩ := reads.members later
        exact ⟨_, by rw [parts, comma, parts', parts'']; simp, .cons production blank others⟩
      · cases read
    · cases read
  · cases read

end ReadsTexts

/-- By induction on the fuel: what it is spent on is read with less of it. -/
theorem readsTexts (fuel : Nat) : ReadsTexts fuel := by
  induction fuel with
  | zero => exact ⟨nofun, nofun, nofun⟩
  | succ fuel ih => exact ⟨ih.value_succ, ih.items_succ, ih.members_succ⟩

-- --------------------------------------------------------------------------------------
-- Whole texts
-- --------------------------------------------------------------------------------------

theorem denotes_of_parse? {text : String} {r : Reading} (read : parse? text = some r)
    : Denotes text r := by
  simp only [parse?, Option.bind_eq_bind, Option.bind_eq_some_iff, Prod.exists] at read
  obtain ⟨r', rest, value, read⟩ := read
  obtain ⟨gap, blank, before⟩ := exists_blank text.toList
  obtain ⟨gap', blank', behind⟩ := exists_blank rest
  obtain ⟨s, parts, spells⟩ := (readsTexts _).value value
  split at read
  · rename_i all
    cases read
    have whole : text.toList = gap ++ (s ++ gap') := by
      rw [before, parts, behind, List.isEmpty_iff.mp all, List.append_nil]
    rw [← String.ofList_toList (s := text), whole]
    exact .mk blank spells blank'
  · cases read

/-- A text is read exactly if it is one of the grammar, and then as what it denotes. -/
theorem parse?_eq_some_iff {text : String} {r : Reading} : parse? text = some r ↔ Denotes text r :=
  ⟨denotes_of_parse?, parse?_of_denotes⟩

end Reading

end RuleEngine
