import Statechart.Chart
import Statechart.Dot.Statement
import Statechart.Text.Columns

namespace Statechart

structure Style where
  /-- In place of the direction that the chart asks for. -/
  direction : Option Direction := none
  remarks : Bool := true
  title : String := "StateMachine"
  /-- The number of columns that remarks are wrapped at; zero leaves them as they are. -/
  labelWidth : Nat := 32
  deriving DecidableEq, Repr

namespace Dot

def labelLines (c : Chart) (style : Style) (n : Node) : List String :=
  let caption := ((c.state? n.id).map State.caption).getD n.name
  let remarks := if style.remarks then c.remarksOn n.id else []
  caption :: remarks.flatMap fun r => Text.wrap style.labelWidth r.shown

def clusterHead (depth : Nat) (id : NodeId) (lines : List String) : List Row :=
  [⟨depth, .openCluster id⟩, ⟨depth + 1, .caption lines⟩, ⟨depth + 1, .setting "style=rounded;"⟩,
    ⟨depth + 1, .anchor id⟩]

def regionHead (depth : Nat) (id : NodeId) : List Row :=
  [⟨depth, .openCluster id⟩, ⟨depth + 1, .setting "label=\"\";"⟩,
    ⟨depth + 1, .setting "style=dashed;"⟩]

mutual

def nodeRows (c : Chart) (style : Style) (depth : Nat) : Node → List Row
  | .simple id name => [⟨depth, .node id (labelLines c style (.simple id name)) (id ∈ c.finals)⟩]
  | .history id _ => [⟨depth, .historyNode id⟩]
  | .composite id name initial children =>
    clusterHead depth id (labelLines c style (.composite id name initial children)) ++
      nodesRows c style (depth + 1) children ++ [⟨depth, .close⟩]
  | .concurrent id name regions =>
    clusterHead depth id (labelLines c style (.concurrent id name regions)) ++
      nodesRows c style (depth + 1) regions ++ [⟨depth, .close⟩]
  | .region id _ _ children =>
    regionHead depth id ++ nodesRows c style (depth + 1) children ++ [⟨depth, .close⟩]

def nodesRows (c : Chart) (style : Style) (depth : Nat) : List Node → List Row
  | [] => []
  | n :: ns => nodeRows c style depth n ++ nodesRows c style depth ns

end

/-- The cluster at whose border an edge is cut: that of `id`, unless the other end is inside. -/
def cutAt (c : Chart) (id other : NodeId) : Option NodeId :=
  if id ≠ other ∧ c.nests id ∧ !other.inside id then some id else none

def edgeRow (c : Chart) (t : Transition) : Row :=
  ⟨1, .edge t.source t.target t.label.text (cutAt c t.source t.target) (cutAt c t.target t.source)⟩

def directionOf (c : Chart) (style : Style) : Direction :=
  (style.direction.or c.direction).getD .topDown

def rows (c : Chart) (style : Style) : List Row :=
  [⟨0, .openGraph style.title⟩,
    ⟨1, .setting "compound=true;"⟩,
    ⟨1, .setting ("rankdir=" ++ (directionOf c style).rankdir ++ ";")⟩,
    ⟨1, .setting "node [shape=box, style=rounded, fontname=\"Helvetica\"];"⟩,
    ⟨1, .setting "edge [fontname=\"Helvetica\"];"⟩] ++
    nodesRows c style 1 c.roots ++ c.transitions.map (edgeRow c) ++ [⟨0, .close⟩]

def layout (c : Chart) (style : Style) : String :=
  textOf (rows c style)

end Dot

end Statechart
