import Statechart.Dot.Layout

namespace Statechart.Dot

def markerStem : String := "__initial__"

def markerNode : Option NodeId → String
  | none => markerStem
  | some scope => markerStem ++ scope.path

def linesOfMarker (c : Chart) (margin : String) (scope : Option NodeId) (target : NodeId) :
    List String :=
  let marker := quote (markerNode scope)
  let head := if c.nests target then " [lhead=" ++ quote (clusterId target) ++ "]" else ""
  [margin ++ marker ++ " [shape=point, width=0.15, label=\"\"];",
    margin ++ marker ++ " -> " ++ quote target.path ++ head ++ ";"]

def isHeader (line : String) : Bool :=
  "digraph ".toList.isPrefixOf (Text.trimStart line.toList) &&
    (Text.trimEnd line.toList).getLast? = some '\x7b'

def opens (scope : NodeId) (line : String) : Bool :=
  Text.trimmed line = (Statement.openCluster scope).text

def margin (line : String) : String :=
  String.ofList (line.toList.takeWhile Text.isBlank)

structure Addition where
  after : Nat
  lines : List String
  deriving DecidableEq, Repr

/-- The number of the first line that satisfies `p`, counted from zero, and that line. -/
def firstLine (p : String → Bool) (lines : List String) : Option (String × Nat) :=
  lines.zipIdx.find? fun l => p l.1

def topAddition (c : Chart) (lines : List String) : Except RenderCause Addition :=
  match firstLine isHeader lines with
  | none => .error .noHeader
  | some (_, n) => .ok ⟨n, linesOfMarker c indentUnit none c.initial⟩

def nestedAddition (c : Chart) (lines : List String) (entry : NodeId × NodeId) :
    Except RenderCause Addition :=
  match firstLine (opens entry.1) lines with
  | none => .error (.noCluster entry.1)
  | some (line, n) => .ok ⟨n, linesOfMarker c (margin line ++ indentUnit) (some entry.1) entry.2⟩

def addAll (is : List Addition) (n : Nat) : List String → List String
  | [] => []
  | l :: ls => l :: (is.filter fun i => i.after = n).flatMap Addition.lines ++ addAll is (n + 1) ls

def mark (dot : String) (c : Chart) : Except RenderCause String := do
  let lines := Text.linesOf dot
  let top ← topAddition c lines
  let nested ← c.nested.mapM (nestedAddition c lines)
  return Text.joined "\n" (addAll (top :: nested) 0 lines) ++ "\n"

end Statechart.Dot
