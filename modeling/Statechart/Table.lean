import Statechart.Chart
import Statechart.Text.Columns

namespace Statechart

structure TableRow where
  source : String
  target : String
  event : Option String
  guard : Option String
  action : Option String
  deriving DecidableEq, Repr

namespace Table

def headers : List String :=
  ["From", "To", "Event", "Guard", "Action"]

def rowOf (t : Transition) : TableRow where
  source := t.source.path
  target := t.target.path
  event := t.label.trigger
  guard := t.label.guard
  action := t.label.action

def rows (c : Chart) : List TableRow :=
  c.transitions.map rowOf

def cells (r : TableRow) : List String :=
  [r.source, r.target, r.event.getD "-", r.guard.getD "-", r.action.getD "-"]

def widths (rs : List TableRow) : List Nat :=
  rs.foldl (fun ws r => List.zipWith max ws ((cells r).map Text.columnsOf))
    (headers.map Text.columnsOf)

def line (ws : List Nat) (cs : List String) : String :=
  let text := Text.joined "  " (List.zipWith Text.pad cs ws)
  String.ofList (Text.trimEnd text.toList)

def rule (ws : List Nat) : String :=
  Text.joined "  " (ws.map fun w => String.ofList (List.replicate w '-'))

def render (rs : List TableRow) : String :=
  let ws := widths rs
  Text.joined "\n" (line ws headers :: rule ws :: rs.map fun r => line ws (cells r))

end Table

end Statechart
