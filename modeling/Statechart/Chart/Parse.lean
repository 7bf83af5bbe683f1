import Statechart.Chart.Rules
import Statechart.FlatChart.Resolution
import Statechart.History
import Statechart.Notice

namespace Statechart

def FlatChart.withOutcome (f : FlatChart) (o : History.Outcome) : FlatChart :=
  { f with
    states := o.states
    transitions := o.transitions
    remarks := f.remarks ++ o.remarks }

def FlatChart.withHistory (f : FlatChart) : Except Fault FlatChart :=
  match History.carryOut f.states f.transitions f.notes with
  | .error e => .error e
  | .ok o => .ok (f.withOutcome o)

def FlatChart.ofText (input : String) : Except Fault FlatChart := do
  let events ← Event.scan input
  let blocks ← BlockTree.ofEvents events
  FlatChart.ofBlocks blocks

namespace Chart

def ofFlat (fallback : Fallback) (f : FlatChart) : Except Fault Chart :=
  (Rules.enforce fallback f).mapError .invalid

def parse (fallback : Fallback) (input : String) : Except Fault Chart := do
  let flat ← FlatChart.ofText input
  let full ← flat.withHistory
  ofFlat fallback full

def historyNotices (f : FlatChart) : List Notice :=
  (History.attachments f.states f.transitions f.notes).map fun a =>
    .historyAttached a.composite (History.idOf a.composite) a.turned

def ruleNotices (fallback : Fallback) (f : FlatChart) : List Notice :=
  let defaults := (Rules.defaults fallback f).map fun d => Notice.initialDefaulted d.1 d.2
  match Rules.enforce fallback f with
  | .error _ => defaults
  | .ok c => defaults ++ [.parsed c.states.length c.transitions.length]

def notices (fallback : Fallback) (input : String) : List Notice :=
  match FlatChart.ofText input with
  | .error _ => []
  | .ok f =>
    historyNotices f ++
      match f.withHistory with
      | .error _ => []
      | .ok g => ruleNotices fallback g

end Chart

end Statechart
