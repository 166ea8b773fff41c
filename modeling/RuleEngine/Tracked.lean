import RuleEngine.Store.Basic

/-! What is kept of an activation that was fired: the facts that it consumed, and those that it
justifies.
-/

namespace RuleEngine

/-- A set of identities, ascending. -/
abbrev FactIds := List FactId

namespace FactIds

def insert (id : FactId) : FactIds → FactIds
  | [] => [id]
  | id' :: rest =>
    if id.number < id'.number then id :: id' :: rest
    else if id = id' then id' :: rest
    else id' :: insert id rest

def ofList (ids : List FactId) : FactIds := ids.foldl (fun set id => insert id set) []

@[simp]
theorem mem_insert {id id' : FactId} {ids : FactIds}
    : id' ∈ insert id ids ↔ id' = id ∨ id' ∈ ids := by
  induction ids with
  | nil => simp [insert]
  | cons first rest ih =>
    unfold insert
    split
    · simp
    · split
      · rename_i same
        simp [same]
      · simp [ih, or_left_comm]

@[simp]
theorem mem_ofList {id : FactId} {ids : List FactId} : id ∈ ofList ids ↔ id ∈ ids := by
  suffices general : ∀ set : FactIds,
      id ∈ ids.foldl (fun set id => insert id set) set ↔ id ∈ set ∨ id ∈ ids by
    simpa [ofList] using general []
  induction ids with
  | nil => simp
  | cons first rest ih =>
    intro set
    simp [ih, or_assoc, or_left_comm]

end FactIds

/-- An activation that was fired, as long as it may have to be taken back. -/
structure Tracked where
  id : ActivationId
  rule : String
  consumed : FactIds
  produced : FactIds

end RuleEngine
