import Statechart.Chart
import Statechart.Text.Lines

namespace Statechart.Outline

def margin : Nat → String
  | 0 => ""
  | n + 1 => "    " ++ margin n

def entry (depth : Nat) (initial : Bool) (name remark : String) : String :=
  margin depth ++ (if initial then "* " else "  ") ++ name ++ remark

mutual

/-- The lines of a node and of those below it. `initial` tells whether it is its scope's initial
    state. -/
def nodeLines (c : Chart) (depth : Nat) (initial : Bool) : Node → List String
  | .simple id name => [entry depth initial name (if id ∈ c.finals then " (final)" else "")]
  | .history _ name => [entry depth initial name " (history)"]
  | .composite id name start children =>
    entry depth initial name (if id ∈ c.defaulted then " (default initial)" else "") ::
      nodesLines c (depth + 1) start children
  | .concurrent _ name regions =>
    entry depth initial name " (concurrent)" :: nodesLines c (depth + 1) none regions
  | .region _ name start children =>
    (margin depth ++ "  [" ++ name ++ "]") :: nodesLines c (depth + 1) start children

def nodesLines (c : Chart) (depth : Nat) (start : Option NodeId) : List Node → List String
  | [] => []
  | n :: ns => nodeLines c depth (start = some n.id) n ++ nodesLines c depth start ns

end

def render (c : Chart) : String :=
  Text.joined "\n" (nodesLines c 0 (some c.initial) c.roots)

end Statechart.Outline
