import RuleEngine.Pattern.Basic
import RuleEngine.Proofs.Pattern.Parts
import RuleEngine.Value.Size

/-! Nodes of values, and the texts among them, which may be read as patterns. Parts have fewer nodes
and no other texts.
-/

namespace RuleEngine

namespace Value

theorem nodes_pos (v : Value) : 0 < v.nodes := by
  cases v <;> simp only [nodes] <;> omega

theorem nodes_le_nodesItems {v : Value} {vs : List Value} (member : v ∈ vs)
    : v.nodes ≤ nodesItems vs := by
  induction vs with
  | nil => cases member
  | cons first rest ih =>
    simp only [nodesItems]
    rcases List.mem_cons.mp member with rfl | later
    · omega
    · have below := ih later
      omega

/-- Items have fewer nodes than their list. -/
theorem nodes_lt_of_mem {v : Value} {vs : List Value} (member : v ∈ vs)
    : v.nodes < (list vs).nodes := by
  have below := nodes_le_nodesItems member
  simp only [nodes]
  omega

theorem nodes_le_nodesFields {bound : Option String} {r : Fields bound} {name : String} {v : Value}
    (found : r.get? name = some v)
    : v.nodes ≤ nodesFields r := by
  induction r with
  | nil => cases found
  | cons key above first rest ih =>
    simp only [nodesFields]
    simp only [Fields.get?] at found
    split at found
    · obtain rfl := Option.some.inj found
      omega
    · have below := ih found
      omega

/-- Fields have fewer nodes than the map or the fact that they are fields of. -/
theorem nodes_lt_of_field {v w : Value} {r : Record} {name : String} (record : v.record? = some r)
    (found : r.get? name = some w)
    : w.nodes < v.nodes := by
  have below := nodes_le_nodesFields found
  cases v with
  | map fields =>
    obtain rfl := Option.some.inj record
    simp only [nodes]
    omega
  | fact f =>
    obtain ⟨_, _, fields⟩ := f
    obtain rfl := Option.some.inj record
    simp only [nodes, nodesFact]
    exact Nat.lt_of_le_of_lt below (Nat.lt_add_of_pos_left Nat.one_pos)
  | _ => cases record

/-- Every item that is left out takes a node with it. -/
theorem nodesItems_sublist {vs ws : List Value} (sublist : vs.Sublist ws)
    : nodesItems vs + ws.length ≤ nodesItems ws + vs.length := by
  induction sublist with
  | slnil => exact Nat.le_refl _
  | cons w _ ih =>
    have positive := w.nodes_pos
    simp only [nodesItems, List.length_cons]
    omega
  | cons_cons w _ ih =>
    simp only [nodesItems, List.length_cons]
    omega

theorem slice_sublist (vs : List Value) (start stop : Nat) : (slice vs start stop).Sublist vs :=
  (List.drop_sublist _ _).trans (List.take_sublist _ _)

/-- A stretch of a list has no more nodes, and fewer if it is shorter. -/
theorem nodes_slice (vs : List Value) (start stop : Nat)
    : (list (slice vs start stop)).nodes + (vs.length - (slice vs start stop).length)
      ≤ (list vs).nodes := by
  have below := nodesItems_sublist (slice_sublist vs start stop)
  have shorter := (slice_sublist vs start stop).length_le
  simp only [nodes]
  omega

mutual

/-- The texts in a value, at any depth. -/
def texts : Value → List String
  | .string s => [s]
  | .list items => textsItems items
  | .map fields => textsFields fields
  | .fact f => textsFact f
  | _ => []

def textsItems : List Value → List String
  | [] => []
  | item :: items => item.texts ++ textsItems items

def textsFields {bound : Option String} : Fields bound → List String
  | .nil => []
  | .cons _ _ value more => value.texts ++ textsFields more

def textsFact : Fact → List String
  | ⟨_, _, fields⟩ => textsFields fields

end

theorem length_textsItems {vs : List Value} (each : ∀ v ∈ vs, v.texts.length ≤ v.nodes)
    : (textsItems vs).length ≤ nodesItems vs := by
  induction vs with
  | nil => exact Nat.le_refl _
  | cons first rest ih =>
    have here := each first (List.mem_cons_self ..)
    have there := ih fun v member => each v (List.mem_cons_of_mem _ member)
    simp only [textsItems, nodesItems, List.length_append]
    omega

theorem length_textsFields_of {bound : Option String} {r : Fields bound}
    (each : ∀ v ∈ r.values, v.texts.length ≤ v.nodes)
    : (textsFields r).length ≤ nodesFields r := by
  induction r with
  | nil => exact Nat.le_refl _
  | cons key above first rest ih =>
    have here := each first (List.mem_cons_self ..)
    have there := ih fun v member => each v (List.mem_cons_of_mem _ member)
    simp only [textsFields, nodesFields, List.length_append]
    omega

/-- A value has a node for every text. -/
theorem length_texts (v : Value) : v.texts.length ≤ v.nodes := by
  induction v using Value.induction with
  | undefined | null | bool | number | date => exact Nat.zero_le _
  | string s => exact Nat.le_refl _
  | list items ih =>
    have below := length_textsItems ih
    simp only [texts, nodes]
    omega
  | map fields ih =>
    have below := length_textsFields_of ih
    simp only [texts, nodes]
    omega
  | fact f ih =>
    have below := length_textsFields_of ih
    obtain ⟨_, _, fields⟩ := f
    simp only [texts, nodes, textsFact, nodesFact] at below ⊢
    omega

theorem length_textsFields {bound : Option String} (r : Fields bound)
    : (textsFields r).length ≤ nodesFields r :=
  length_textsFields_of fun v _ => v.length_texts

theorem mem_textsItems {s : String} {vs : List Value}
    : s ∈ textsItems vs ↔ ∃ v ∈ vs, s ∈ v.texts := by
  induction vs with
  | nil => simp [textsItems]
  | cons first rest ih => simp [textsItems, ih]

theorem texts_subset_textsFields {bound : Option String} {r : Fields bound} {name : String}
    {v : Value} (found : r.get? name = some v)
    : v.texts ⊆ textsFields r := by
  induction r with
  | nil => cases found
  | cons key above first rest ih =>
    simp only [Fields.get?] at found
    split at found
    · obtain rfl := Option.some.inj found
      exact List.subset_append_left _ _
    · exact List.Subset.trans (ih found) (List.subset_append_right _ _)

/-- To have texts among given ones goes over to parts. -/
theorem hereditary_texts (S : List String) : Hereditary (·.texts ⊆ S) where
  item holds member s here := holds (mem_textsItems.mpr ⟨_, member, here⟩)
  slice holds s here := by
    obtain ⟨v, member, inner⟩ := mem_textsItems.mp here
    exact holds (mem_textsItems.mpr ⟨v, (slice_sublist ..).subset member, inner⟩)
  field {v r name w} holds record found := by
    have inside := texts_subset_textsFields found
    cases v with
    | map fields =>
      obtain rfl := Option.some.inj record
      exact List.Subset.trans inside holds
    | fact f =>
      obtain ⟨_, _, fields⟩ := f
      obtain rfl := Option.some.inj record
      exact List.Subset.trans inside holds
    | _ => cases record

end Value

/-- The texts of bound values are texts of the bindings. -/
theorem Bindings.all_texts (b : Bindings) {S : List String} (among : Value.textsFields b ⊆ S)
    : b.All (·.texts ⊆ S) :=
  fun _ _ bound => List.Subset.trans (Value.texts_subset_textsFields bound) among

end RuleEngine
