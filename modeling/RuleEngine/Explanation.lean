import RuleEngine.Engine.Support

/-! Explanations of facts. A logical fact rests on the facts that its activation consumed, each of
which is stated or explained in turn, so an explanation is a tree.
-/

namespace RuleEngine

/-- A fact, and for a logical one the activation that justifies it and what it rests on. -/
inductive Explanation where
  | stated (fact : Fact)
  | justified (fact : Fact) (justification : Tracked) (supports : List Explanation)
  /-- A logical fact that is not followed further. -/
  | truncated (fact : Fact) (justification : Tracked)

namespace Explanation

/-- How far explanations are followed unless told otherwise. -/
def defaultDepth : Nat := 8

def fact : Explanation → Fact
  | stated fact => fact
  | justified fact _ _ => fact
  | truncated fact _ => fact

def isStated : Explanation → Bool
  | stated _ => true
  | _ => false

def justification? : Explanation → Option Tracked
  | stated _ => none
  | justified _ t _ => some t
  | truncated _ t => some t

def supports : Explanation → List Explanation
  | justified _ _ supports => supports
  | _ => []

mutual

def isTruncated : Explanation → Bool
  | stated _ => false
  | justified _ _ supports => anyTruncated supports
  | truncated _ _ => true

def anyTruncated : List Explanation → Bool
  | [] => false
  | x :: xs => x.isTruncated || anyTruncated xs

end

mutual

/-- The explanation and those inside it, outermost first. -/
def nodes : Explanation → List Explanation
  | stated fact => [stated fact]
  | truncated fact t => [truncated fact t]
  | justified fact t supports => justified fact t supports :: nodesAll supports

def nodesAll : List Explanation → List Explanation
  | [] => []
  | x :: xs => x.nodes ++ nodesAll xs

end

/-- The rules that take part, each at its first place. -/
def rules (x : Explanation) : List String :=
  (x.nodes.filterMap fun node => node.justification?.map (·.rule)).foldl
    (fun seen rule => if seen.contains rule then seen else seen ++ [rule]) []

/-- The stated facts that all rests on, each at its first place. -/
def roots (x : Explanation) : List FactId :=
  ((x.nodes.filter isStated).map (·.fact.id)).foldl
    (fun seen id => if seen.contains id then seen else seen ++ [id]) []

mutual

/-- The number of justifications on the longest way down. -/
def depth : Explanation → Nat
  | stated _ => 0
  | truncated _ _ => 1
  | justified _ _ supports => 1 + depthAll supports

def depthAll : List Explanation → Nat
  | [] => 0
  | x :: xs => max x.depth (depthAll xs)

end

/-- The line of an explanation's own fact. -/
def line (indent : Nat) (x : Explanation) : String :=
  String.ofList (List.replicate (2 * indent) ' ') ++ x.fact.kind ++ " " ++ x.fact.id.text ++
    (match x.justification? with
      | none => " (stated)"
      | some t => " <- " ++ t.rule ++ " (" ++ t.id.text ++ ")") ++
    (match x with
      | truncated _ _ => " ..."
      | _ => "") ++ "\n"

mutual

/-- The lines of an explanation, what a fact rests on further to the right. -/
def textAt (indent : Nat) : Explanation → String
  | stated fact => line indent (stated fact)
  | truncated fact t => line indent (truncated fact t)
  | justified fact t supports =>
    line indent (justified fact t supports) ++ textAll (indent + 1) supports

def textAll (indent : Nat) : List Explanation → String
  | [] => ""
  | x :: xs => x.textAt indent ++ textAll indent xs

end

def text (x : Explanation) : String := x.textAt 0

end Explanation

/-- Explains a fact, following at most `depth` justifications one after the other. -/
def Engine.explain? {ν : Type} (e : Engine ν) : (depth : Nat) → FactId → Option Explanation
  | 0, id =>
    (e.store.fact? id).map fun fact =>
      match e.justification? id with
      | none => .stated fact
      | some t => .truncated fact t
  | depth + 1, id =>
    (e.store.fact? id).map fun fact =>
      match e.justification? id with
      | none => .stated fact
      | some t => .justified fact t (t.consumed.filterMap (e.explain? depth))

end RuleEngine
