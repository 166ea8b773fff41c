import RuleEngine.Value.Basic

/-! Laws of records: what each operation does to the look-up of a key, and that records which agree
on every look-up are the same. Values and records come with induction principles that leave the
nesting of one in the other aside.
-/

namespace RuleEngine

namespace Fields

/-- Induction on records: the rest of a record lies above its first key. -/
@[elab_as_elim, induction_eliminator]
theorem induction {motive : {bound : Option String} → Fields bound → Prop}
    (nil : ∀ {bound : Option String}, motive (@nil bound))
    (cons : ∀ {bound : Option String} (key : String) (above : KeyAbove bound key) (value : Value)
      (rest : Fields (some key)), motive rest → motive (cons key above value rest))
    : ∀ {bound : Option String} (r : Fields bound), motive r
  | _, .nil => nil
  | _, .cons key above value rest => cons key above value rest (induction nil cons rest)

variable {bound : Option String}

-- --------------------------------------------------------------------------------------
-- Bounds
-- --------------------------------------------------------------------------------------

theorem keyAbove_of_mem_keys {name : String} (r : Fields bound) (member : name ∈ r.keys)
    : KeyAbove bound name := by
  induction r with
  | nil => simp [keys, toList] at member
  | cons key above value rest ih =>
    rcases List.mem_cons.mp member with rfl | later
    · exact above
    · exact keyAbove_trans above (ih later)

theorem pairwise_keys (r : Fields bound) : r.keys.Pairwise (· < ·) := by
  induction r with
  | nil => exact .nil
  | cons key above value rest ih => exact .cons (fun _ => keyAbove_of_mem_keys rest) ih

-- --------------------------------------------------------------------------------------
-- Looking up
-- --------------------------------------------------------------------------------------

/-- An entry is in the list of entries exactly if its key is looked up with its value. -/
theorem mem_toList_iff {name : String} {value : Value} (r : Fields bound)
    : (name, value) ∈ r.toList ↔ r.get? name = some value := by
  induction r with
  | nil => simp [toList, get?]
  | cons key above value' rest ih =>
    by_cases same : name = key
    · subst same
      have absent (v : Value) : (name, v) ∉ rest.toList := fun member =>
        String.lt_irrefl name (keyAbove_of_mem_keys rest (List.mem_map_of_mem member))
      simp [toList, get?, absent, eq_comm]
    · simp [toList, get?, same, ih]

/-- A key that does not lie above the bound of a record is not among its keys. -/
theorem get?_eq_none_of_not_keyAbove {name : String} (r : Fields bound)
    (outside : ¬KeyAbove bound name)
    : r.get? name = none :=
  Option.eq_none_iff_forall_ne_some.mpr fun _ found =>
    outside (keyAbove_of_mem_keys r (List.mem_map_of_mem ((mem_toList_iff r).mpr found)))

@[simp]
theorem get?_empty (name : String) : empty.get? name = none := rfl

@[simp]
theorem get?_weaken {key : String} (above : KeyAbove bound key) (r : Fields (some key))
    (name : String)
    : (r.weaken above).get? name = r.get? name := by
  cases r <;> rfl

theorem get?_insertAbove {key : String} (r : Fields bound) (above : KeyAbove bound key)
    (value : Value) (name : String)
    : (r.insertAbove key above value).get? name
      = if name = key then some value else r.get? name := by
  induction r with
  | nil => rfl
  | cons key' above' value' rest ih =>
    unfold insertAbove
    by_cases differ : key = key'
    · subst differ
      by_cases same : name = key <;> simp [get?, same]
    · by_cases below : key < key'
      · simp [get?, differ, below]
      · rw [dif_neg differ, dif_neg below, get?, get?, ih]
        by_cases same : name = key'
        · subst same
          simp [Ne.symm differ]
        · simp [same]

/-- Setting an entry changes the look-up of its key alone. -/
@[simp]
theorem get?_insert (r : Record) (key : String) (value : Value) (name : String)
    : (r.insert key value).get? name = if name = key then some value else r.get? name :=
  get?_insertAbove r (keyAbove_none key) value name

@[simp]
theorem get?_erase (r : Fields bound) (key name : String)
    : (r.erase key).get? name = if name = key then none else r.get? name := by
  induction r with
  | nil => simp [erase, get?]
  | cons key' above value rest ih =>
    unfold erase
    by_cases same : key = key'
    · subst same
      have absent := get?_eq_none_of_not_keyAbove rest (String.lt_irrefl key)
      by_cases here : name = key <;> simp [get?, here, absent]
    · by_cases here : name = key'
      · subst here
        simp [get?, same, Ne.symm same]
      · simp [get?, same, here, ih]

/-- A filter keeps the entries that its test accepts. -/
@[simp]
theorem get?_filter (test : String → Value → Bool) (r : Fields bound) (name : String)
    : (r.filter test).get? name = (r.get? name).filter (test name) := by
  induction r with
  | nil => rfl
  | cons key above value rest ih =>
    have absent := get?_eq_none_of_not_keyAbove rest (String.lt_irrefl key)
    unfold filter
    by_cases here : name = key
    · subst here
      by_cases accepted : test name value <;> simp [get?, accepted, ih, absent, Option.filter]
    · by_cases accepted : test key value <;> simp [get?, accepted, ih, here]

-- --------------------------------------------------------------------------------------
-- Extensionality
-- --------------------------------------------------------------------------------------

/-- Records that agree on every look-up are the same; by induction, since the least key of either
is the least key of the other.
-/
theorem ext_get? {r s : Fields bound} (agree : ∀ name, r.get? name = s.get? name) : r = s := by
  induction r with
  | nil =>
    cases s with
    | nil => rfl
    | cons key above value rest => simpa [get?] using agree key
  | cons key above value rest ih =>
    cases s with
    | nil => simpa [get?] using agree key
    | cons key' above' value' rest' =>
      have least : key = key' := by
        apply Classical.byContradiction
        intro differ
        have here := agree key
        have there := agree key'
        simp only [get?, if_pos, differ, Ne.symm differ, if_false] at here there
        have below : key' < key := keyAbove_of_mem_keys rest'
          (List.mem_map_of_mem ((mem_toList_iff rest').mpr here.symm))
        have notBelow : key < key' := keyAbove_of_mem_keys rest
          (List.mem_map_of_mem ((mem_toList_iff rest).mpr there))
        exact String.lt_irrefl _ (String.lt_trans below notBelow)
      subst least
      have same : value = value' := by simpa [get?] using agree key
      subst same
      congr 1
      apply ih
      intro name
      by_cases here : name = key
      · subst here
        rw [get?_eq_none_of_not_keyAbove rest (String.lt_irrefl name),
          get?_eq_none_of_not_keyAbove rest' (String.lt_irrefl name)]
      · simpa [get?, here] using agree name

/-- Setting entries whose keys ascend gives each key its value. -/
theorem get?_insertMany_toList (upper : Fields bound) (r : Record) (name : String)
    : (r.insertMany upper.toList).get? name = (upper.get? name).or (r.get? name) := by
  induction upper generalizing r with
  | nil => simp [insertMany, toList, get?]
  | cons key above value rest ih =>
    have absent := get?_eq_none_of_not_keyAbove rest (String.lt_irrefl key)
    have step := ih (r.insert key value)
    by_cases here : name = key
    · subst here
      simpa [insertMany, toList, get?, absent] using step
    · simpa [insertMany, toList, get?, here] using step

/-- An overlay is looked up in the upper record first. -/
@[simp]
theorem get?_overlay (r : Record) (upper : Fields bound) (name : String)
    : (r.overlay upper).get? name = (upper.get? name).or (r.get? name) :=
  get?_insertMany_toList upper r name

theorem ofList_toList (r : Record) : ofList r.toList = r := by
  apply ext_get?
  intro name
  simp [ofList, get?_insertMany_toList]

end Fields

namespace Value

/-- Induction on values: what holds of the parts of lists, maps and facts holds of them. -/
@[elab_as_elim]
theorem induction {motive : Value → Prop} (undefined : motive undefined) (null : motive null)
    (bool : ∀ b, motive (bool b)) (number : ∀ n, motive (number n))
    (string : ∀ s, motive (string s)) (date : ∀ i, motive (date i))
    (list : ∀ items, (∀ v ∈ items, motive v) → motive (list items))
    (map : ∀ fields : Record, (∀ v ∈ fields.values, motive v) → motive (map fields))
    (fact : ∀ f : Fact, (∀ v ∈ f.fields.values, motive v) → motive (fact f))
    : ∀ v, motive v := by
  intro v
  apply @Value.rec motive (fun f => ∀ v ∈ f.fields.values, motive v)
    (fun _ r => ∀ v ∈ r.values, motive v) (fun items => ∀ v ∈ items, motive v)
  case undefined => exact undefined
  case null => exact null
  case bool => exact bool
  case number => exact number
  case string => exact string
  case date => exact date
  case list => exact list
  case map => exact map
  case fact => exact fact
  case mk => exact fun _ _ _ ih => ih
  case nil => simp [Fields.values, Fields.toList]
  case cons =>
    intro _ _ _ value rest here there v member
    rcases List.mem_cons.mp member with rfl | later
    · exact here
    · exact there v later
  all_goals simp_all

section

variable {v : Value}

theorem isUndefined_iff : v.isUndefined = true ↔ v = undefined := by
  cases v <;> simp [isUndefined]

theorem string?_eq_some_iff {s : String} : v.string? = some s ↔ v = string s := by
  cases v <;> simp [string?]

theorem list?_eq_some_iff {items : List Value} : v.list? = some items ↔ v = list items := by
  cases v <;> simp [list?]

end

end Value

end RuleEngine
