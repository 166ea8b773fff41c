import RuleEngine.Proofs.Engine.History

/-! The order of definitions. A definition that replaces another takes its place, a new one comes
last, and one that is removed leaves the others in their order; no two have the same identity.
-/

namespace RuleEngine

namespace Engine

variable {ν : Type} {d : Definition ν} {definitions : List (Definition ν)}

-- --------------------------------------------------------------------------------------
-- Setting and removing
-- --------------------------------------------------------------------------------------

/-- A definition whose identity is new comes last. -/
theorem setDefinition_of_notMem (fresh : d.id ∉ definitions.map (·.id))
    : setDefinition d definitions = definitions ++ [d] := by
  induction definitions with
  | nil => rfl
  | cons first rest ih =>
    simp only [List.map_cons, List.mem_cons, not_or] at fresh
    simp [setDefinition, Ne.symm fresh.1, ih fresh.2]

/-- A definition whose identity is taken stands in place of the one that has it. -/
theorem setDefinition_of_mem (distinct : (definitions.map (·.id)).Nodup)
    (taken : d.id ∈ definitions.map (·.id))
    : setDefinition d definitions = definitions.map fun d' => if d'.id = d.id then d else d' := by
  induction definitions with
  | nil => cases taken
  | cons first rest ih =>
    obtain ⟨apart, distinct'⟩ := List.nodup_cons.mp distinct
    by_cases same : first.id = d.id
    · have others : rest.map (fun d' => if d'.id = d.id then d else d') = rest := by
        refine (List.map_congr_left fun d' member => if_neg fun again => ?_).trans (List.map_id _)
        exact apart (List.mem_map.mpr ⟨d', member, again.trans same.symm⟩)
      simp [setDefinition, same, others]
    · have later : d.id ∈ rest.map (·.id) := by simpa [Ne.symm same] using taken
      simp [setDefinition, same, ih distinct' later]

/-- Identities stay distinct when a definition is set, because it replaces the one that has its
own.
-/
theorem nodup_setDefinition (distinct : (definitions.map (·.id)).Nodup)
    : ((setDefinition d definitions).map (·.id)).Nodup := by
  by_cases taken : d.id ∈ definitions.map (·.id)
  · have same : (setDefinition d definitions).map (·.id) = definitions.map (·.id) := by
      rw [setDefinition_of_mem distinct taken, List.map_map]
      refine List.map_congr_left fun d' _ => ?_
      by_cases here : d'.id = d.id <;> simp [here]
    exact same ▸ distinct
  · rw [setDefinition_of_notMem taken, List.map_append]
    refine List.nodup_append.mpr ⟨distinct, by simp, ?_⟩
    intro id old id' new same
    obtain rfl : id' = d.id := List.mem_singleton.mp new
    exact taken (same ▸ old)

/-- The definition with an identity is the only one that is removed. -/
theorem eraseP_eq_filter (distinct : (definitions.map (·.id)).Nodup) (id : String)
    : definitions.eraseP (·.id == id) = definitions.filter (·.id != id) := by
  induction definitions with
  | nil => rfl
  | cons first rest ih =>
    obtain ⟨apart, distinct'⟩ := List.nodup_cons.mp distinct
    by_cases same : first.id = id
    · have others : rest.filter (·.id != id) = rest := by
        refine List.filter_eq_self.mpr fun d' member => ?_
        have differ : d'.id ≠ id := fun again =>
          apart (List.mem_map.mpr ⟨d', member, again.trans same.symm⟩)
        simpa using differ
      simp [same, others]
    · simp [same, ih distinct']

theorem definitions_define (e : Engine ν) (d : Definition ν)
    : ((define d).run e).engine.definitions
      = if Text.isAllBlank d.id then e.definitions else setDefinition d e.definitions := by
  unfold define
  split <;> rfl

theorem definitions_undefine (e : Engine ν) (id : String)
    : ((undefine id).run e).engine.definitions = e.definitions.eraseP (·.id == id) := by
  unfold undefine
  cases found : e.definitions.find? (·.id == id) with
  | none =>
    have absent : ∀ d ∈ e.definitions, ¬d.id == id := by simpa using found
    simp [found, List.eraseP_of_forall_not absent]
  | some d => simp [found]

-- --------------------------------------------------------------------------------------
-- Histories
-- --------------------------------------------------------------------------------------

/-- Definitions are ordered by when they were defined: one that replaces another keeps its place,
and one that is removed and defined again moves to the end.
-/
structure DefinitionsOrdered (e : Engine ν) : Prop where
  distinct : (e.definitions.map (·.id)).Nodup
  replaced : ∀ d : Definition ν, Text.isAllBlank d.id = false →
    d.id ∈ e.definitions.map (·.id) →
      ((define d).run e).engine.definitions
        = e.definitions.map fun d' => if d'.id = d.id then d else d'
  added : ∀ d : Definition ν, Text.isAllBlank d.id = false → d.id ∉ e.definitions.map (·.id) →
    ((define d).run e).engine.definitions = e.definitions ++ [d]
  removed : ∀ id, ((undefine id).run e).engine.definitions = e.definitions.filter (·.id != id)
  readded : ∀ d : Definition ν, Text.isAllBlank d.id = false →
    ((define d).run ((undefine d.id).run e).engine).engine.definitions
      = e.definitions.filter (·.id != d.id) ++ [d]

/-- Definitions with distinct identities are ordered by when they were defined. -/
theorem definitionsOrdered_of_distinct {e : Engine ν}
    (distinct : (e.definitions.map (·.id)).Nodup)
    : e.DefinitionsOrdered where
  distinct := distinct
  replaced d named taken := by
    rw [definitions_define, named]
    exact setDefinition_of_mem distinct taken
  added d named fresh := by
    rw [definitions_define, named]
    exact setDefinition_of_notMem fresh
  removed id := by rw [definitions_undefine, eraseP_eq_filter distinct]
  readded d named := by
    rw [definitions_define, named, definitions_undefine, eraseP_eq_filter distinct]
    refine setDefinition_of_notMem fun member => ?_
    obtain ⟨d', kept, same⟩ := List.mem_map.mp member
    simpa [same] using (List.mem_filter.mp kept).2

/-- The identities of definitions stay distinct. -/
def KeepsDistinct (e : Engine ν) (_ : List (Output ν)) (e' : Engine ν) : Prop :=
  (e.definitions.map (·.id)).Nodup → (e'.definitions.map (·.id)).Nodup

theorem keepsDistinct_allowsSilence : AllowsSilence (KeepsDistinct (ν := ν)) where
  refl _ distinct := distinct
  trans first rest distinct := rest (first distinct)
  silent _ _ _ same distinct := same ▸ distinct

/-- Only defining and undefining change definitions, and both keep identities distinct. -/
theorem Edit.keepsDistinct {author : Option ActivationId} {e e' : Engine ν}
    {out : List (Output ν)} (edit : Edit author e out e')
    : KeepsDistinct e out e' := by
  intro distinct
  cases edit with
  | report | note | registry | assert | retract => exact distinct
  | define d => exact nodup_setDefinition distinct
  | undefine id => exact distinct.sublist ((List.eraseP_sublist ..).map _)

/-- Definitions are ordered at every point of a history, by induction on the history. -/
theorem definitionsOrdered_of_history {e : Engine ν} {out : List (Output ν)} {done : List Task}
    (history : History e out done)
    : e.DefinitionsOrdered := by
  apply definitionsOrdered_of_distinct
  induction history with
  | created config => exact .nil
  | reset _ ih => exact ih
  | operated _ op ih =>
    exact (op.perform_editsBy _).lift keepsDistinct_allowsSilence.toComposes Edit.keepsDistinct ih
  | processed _ _ dealt ih =>
    exact process_obeys keepsDistinct_allowsSilence Edit.keepsDistinct dealt ih
  | halted _ _ dealt ih =>
    obtain ⟨rfl, -⟩ := process_halted dealt
    exact ih

end Engine

end RuleEngine
