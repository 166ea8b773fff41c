import RuleEngine.Store.Basic

/-! The index of facts by kind: filing a fact and taking it out change its own kind alone and
keep the index in order, and an index in order is determined by the facts that it files.
-/

namespace RuleEngine

namespace KindIndex

/-- The facts that are filed under a kind. -/
def factsOf (index : KindIndex) (kind : String) : List Fact := (index.lookup kind).getD []

/-- An index in order: kinds ascend, and none of them is empty. -/
structure Ordered (index : KindIndex) : Prop where
  ascending : index.Pairwise (·.1 < ·.1)
  inhabited : ∀ shelf ∈ index, shelf.2 ≠ []

/-- The order of an index passes to what follows its first kind. -/
theorem Ordered.tail {shelf : String × List Fact} {rest : KindIndex}
    (ordered : Ordered (shelf :: rest))
    : Ordered rest :=
  ⟨(List.pairwise_cons.mp ordered.ascending).2,
    fun _ member => ordered.inhabited _ (List.mem_cons_of_mem _ member)⟩

/-- A kind that comes before all others of an index has no facts in it. -/
theorem factsOf_eq_nil_of_lt {index : KindIndex} {kind : String}
    (before : ∀ shelf ∈ index, kind < shelf.1)
    : index.factsOf kind = [] := by
  have absent : index.lookup kind = none := by
    apply List.lookup_eq_none_iff.mpr
    intro shelf member
    have differ : kind ≠ shelf.1 := fun same =>
      String.lt_irrefl _ (same ▸ before shelf member)
    simpa using differ
  simp [factsOf, absent]

@[simp]
theorem factsOf_nil (kind : String) : factsOf [] kind = [] := rfl

theorem factsOf_cons (shelf : String × List Fact) (rest : KindIndex) (kind : String)
    : factsOf (shelf :: rest) kind = if kind = shelf.1 then shelf.2 else factsOf rest kind := by
  obtain ⟨name, facts⟩ := shelf
  by_cases same : kind = name
  · simp [factsOf, same]
  · simp [factsOf, same, List.lookup_cons, beq_eq_false_iff_ne.mpr same]

/-- Filing touches the kinds that stood there and the kind of the fact. -/
theorem mem_file {f : Fact} {index : KindIndex} {shelf : String × List Fact}
    (member : shelf ∈ file f index)
    : shelf.1 = f.kind ∧ shelf.2 ≠ [] ∨ shelf ∈ index := by
  induction index with
  | nil =>
    obtain rfl := List.mem_singleton.mp member
    exact .inl ⟨rfl, by simp⟩
  | cons first rest ih =>
    obtain ⟨name, facts⟩ := first
    unfold file at member
    split at member
    · rename_i same
      rcases List.mem_cons.mp member with rfl | later
      · exact .inl ⟨same.symm, by simp⟩
      · exact .inr (List.mem_cons_of_mem _ later)
    · split at member
      · rcases List.mem_cons.mp member with rfl | later
        · exact .inl ⟨rfl, by simp⟩
        · exact .inr later
      · rcases List.mem_cons.mp member with rfl | later
        · exact .inr List.mem_cons_self
        · exact (ih later).imp_right (List.mem_cons_of_mem _)

/-- Filing keeps an index in order. -/
theorem Ordered.file {index : KindIndex} (ordered : Ordered index) (f : Fact)
    : Ordered (file f index) := by
  induction index with
  | nil => exact ⟨by simp [KindIndex.file], by simp [KindIndex.file]⟩
  | cons first rest ih =>
    obtain ⟨name, facts⟩ := first
    obtain ⟨above, ascending⟩ := List.pairwise_cons.mp ordered.ascending
    unfold KindIndex.file
    split
    · refine ⟨List.pairwise_cons.mpr ⟨above, ascending⟩, ?_⟩
      intro shelf member
      rcases List.mem_cons.mp member with rfl | later
      · simp
      · exact ordered.inhabited shelf (List.mem_cons_of_mem _ later)
    · split
      · rename_i before
        refine ⟨List.pairwise_cons.mpr ⟨?_, ordered.ascending⟩, ?_⟩
        · intro shelf member
          rcases List.mem_cons.mp member with rfl | later
          · exact before
          · exact String.lt_trans before (above shelf later)
        · intro shelf member
          rcases List.mem_cons.mp member with rfl | later
          · simp
          · exact ordered.inhabited shelf later
      · rename_i differ notBefore
        have after : name < f.kind :=
          Std.lt_of_le_of_ne (String.not_lt.mp notBefore) (Ne.symm differ)
        have filed := ih ordered.tail
        refine ⟨List.pairwise_cons.mpr ⟨?_, filed.ascending⟩, ?_⟩
        · intro shelf member
          rcases mem_file member with ⟨same, _⟩ | old
          · exact same ▸ after
          · exact above shelf old
        · intro shelf member
          rcases List.mem_cons.mp member with rfl | later
          · exact ordered.inhabited _ List.mem_cons_self
          · exact filed.inhabited shelf later

/-- Filing appends a fact to its kind and leaves the other kinds alone. -/
theorem factsOf_file {index : KindIndex} (ordered : Ordered index) (f : Fact) (kind : String)
    : (file f index).factsOf kind
      = if kind = f.kind then index.factsOf kind ++ [f] else index.factsOf kind := by
  induction index with
  | nil => by_cases same : kind = f.kind <;> simp [file, factsOf_cons, same]
  | cons first rest ih =>
    obtain ⟨name, facts⟩ := first
    have above := (List.pairwise_cons.mp ordered.ascending).1
    unfold file
    split
    · rename_i here
      subst here
      by_cases same : kind = f.kind <;> simp [factsOf_cons, same]
    · rename_i differ
      split
      · rename_i before
        have absent : factsOf ((name, facts) :: rest) f.kind = [] := by
          apply factsOf_eq_nil_of_lt
          intro shelf member
          rcases List.mem_cons.mp member with rfl | later
          · exact before
          · exact String.lt_trans before (above shelf later)
        by_cases same : kind = f.kind
        · subst same
          rw [absent]
          simp [factsOf_cons]
        · simp [factsOf_cons, same]
      · rw [factsOf_cons, factsOf_cons, ih ordered.tail]
        by_cases here : kind = name
        · subst here
          simp [Ne.symm differ]
        · simp [here]

/-- What is left after a fact is taken out stood in the index, or is the rest of its kind. -/
theorem mem_unfile {f : Fact} {index : KindIndex} {shelf : String × List Fact}
    (member : shelf ∈ unfile f index)
    : ∃ old ∈ index, shelf.1 = old.1 ∧ (shelf.2 ≠ [] ∨ shelf = old) := by
  induction index with
  | nil => simp [unfile] at member
  | cons first rest ih =>
    obtain ⟨name, facts⟩ := first
    unfold unfile at member
    split at member
    · split at member
      · exact ⟨shelf, List.mem_cons_of_mem _ member, rfl, .inr rfl⟩
      · rename_i left inhabited
        rcases List.mem_cons.mp member with rfl | later
        · exact ⟨(name, facts), List.mem_cons_self, rfl, .inl (by simpa using inhabited)⟩
        · exact ⟨shelf, List.mem_cons_of_mem _ later, rfl, .inr rfl⟩
    · rcases List.mem_cons.mp member with rfl | later
      · exact ⟨(name, facts), List.mem_cons_self, rfl, .inr rfl⟩
      · obtain ⟨old, oldMember, facts⟩ := ih later
        exact ⟨old, List.mem_cons_of_mem _ oldMember, facts⟩

/-- Taking a fact out keeps an index in order. -/
theorem Ordered.unfile {index : KindIndex} (ordered : Ordered index) (f : Fact)
    : Ordered (unfile f index) := by
  constructor
  · induction index with
    | nil => exact .nil
    | cons first rest ih =>
      obtain ⟨name, facts⟩ := first
      obtain ⟨above, ascending⟩ := List.pairwise_cons.mp ordered.ascending
      unfold KindIndex.unfile
      split
      · split
        · exact ascending
        · exact List.pairwise_cons.mpr ⟨above, ascending⟩
      · refine List.pairwise_cons.mpr ⟨?_, ih ordered.tail⟩
        intro shelf member
        obtain ⟨old, oldMember, same, _⟩ := mem_unfile member
        exact same ▸ above old oldMember
  · intro shelf member
    obtain ⟨old, oldMember, _, inhabited | rfl⟩ := mem_unfile member
    · exact inhabited
    · exact ordered.inhabited _ oldMember

/-- Taking a fact out removes its identity from its kind and leaves the other kinds alone. -/
theorem factsOf_unfile {index : KindIndex} (ordered : Ordered index) (f : Fact) (kind : String)
    : (unfile f index).factsOf kind
      = if kind = f.kind then (index.factsOf kind).filter (·.id != f.id)
        else index.factsOf kind := by
  induction index with
  | nil => simp [unfile]
  | cons first rest ih =>
    obtain ⟨name, facts⟩ := first
    have above := (List.pairwise_cons.mp ordered.ascending).1
    unfold unfile
    split
    · rename_i here
      subst here
      split
      · rename_i emptied
        by_cases same : kind = f.kind
        · subst same
          simp [factsOf_cons, emptied, factsOf_eq_nil_of_lt above]
        · simp [factsOf_cons, same]
      · by_cases same : kind = f.kind <;> simp [factsOf_cons, same]
    · rename_i differ
      rw [factsOf_cons, factsOf_cons, ih ordered.tail]
      by_cases here : kind = name
      · subst here
        simp [Ne.symm differ]
      · simp [here]

/-- An index in order holds the kinds that have facts, each with its facts; by induction, since the
first kind comes before all others.
-/
theorem Ordered.mem_iff {index : KindIndex} (ordered : Ordered index) {kind : String}
    {facts : List Fact}
    : (kind, facts) ∈ index ↔ facts = index.factsOf kind ∧ facts ≠ [] := by
  induction index with
  | nil => simp
  | cons first rest ih =>
    obtain ⟨name, shelf⟩ := first
    have above := (List.pairwise_cons.mp ordered.ascending).1
    rw [List.mem_cons, Prod.mk.injEq, factsOf_cons]
    by_cases here : kind = name
    · subst here
      have notLater : (kind, facts) ∉ rest := fun later =>
        String.lt_irrefl kind (above _ later)
      have inhabited : shelf ≠ [] := ordered.inhabited (kind, shelf) List.mem_cons_self
      constructor
      · rintro (⟨-, rfl⟩ | later)
        · exact ⟨by simp, inhabited⟩
        · exact absurd later notLater
      · rintro ⟨same, -⟩
        exact .inl ⟨rfl, by simpa using same⟩
    · simpa [here] using ih ordered.tail

/-- Indices in order that file the same facts are the same; by induction, since the first kind of
either is the first kind of the other.
-/
theorem Ordered.ext {index other : KindIndex} (ordered : Ordered index)
    (ordered' : Ordered other) (agree : ∀ kind, index.factsOf kind = other.factsOf kind)
    : index = other := by
  induction index generalizing other with
  | nil =>
    cases other with
    | nil => rfl
    | cons first rest =>
      have empty := agree first.1
      simp only [factsOf_nil, factsOf_cons, if_pos] at empty
      exact absurd empty.symm (ordered'.inhabited first List.mem_cons_self)
  | cons first rest ih =>
    have above := (List.pairwise_cons.mp ordered.ascending).1
    cases other with
    | nil =>
      have empty := agree first.1
      simp only [factsOf_nil, factsOf_cons, if_pos] at empty
      exact absurd empty (ordered.inhabited first List.mem_cons_self)
    | cons first' rest' =>
      have above' := (List.pairwise_cons.mp ordered'.ascending).1
      have least : first.1 = first'.1 := by
        apply Classical.byContradiction
        intro differ
        have here := agree first.1
        have there := agree first'.1
        simp only [factsOf_cons, if_pos, differ, Ne.symm differ, if_false] at here there
        by_cases before : first.1 < first'.1
        · rw [factsOf_eq_nil_of_lt fun shelf member => String.lt_trans before (above' shelf member)]
            at here
          exact ordered.inhabited first List.mem_cons_self here
        · have after : first'.1 < first.1 :=
            Std.lt_of_le_of_ne (String.not_lt.mp before) (Ne.symm differ)
          rw [factsOf_eq_nil_of_lt fun shelf member => String.lt_trans after (above shelf member)]
            at there
          exact ordered'.inhabited first' List.mem_cons_self there.symm
      have same : first = first' := by
        have facts := agree first.1
        simp only [factsOf_cons, if_pos, least] at facts
        exact Prod.ext least facts
      subst same
      congr 1
      apply ih ordered.tail ordered'.tail
      intro kind
      by_cases here : kind = first.1
      · subst here
        rw [factsOf_eq_nil_of_lt above, factsOf_eq_nil_of_lt above']
      · simpa [factsOf_cons, here] using agree kind

end KindIndex

end RuleEngine
