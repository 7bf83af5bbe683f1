import Statechart.NodeId

namespace Statechart

inductive NoticeLevel where
  | info
  | warn
  deriving DecidableEq, Repr

inductive Notice where
  | historyAttached (composite history : NodeId) (turned : Nat)
  | initialDefaulted (composite initial : NodeId)
  | parsed (states transitions : Nat)
  deriving DecidableEq, Repr

namespace Notice

def level : Notice → NoticeLevel
  | historyAttached _ _ _ | parsed _ _ => .info
  | initialDefaulted _ _ => .warn

def message : Notice → String
  | historyAttached _ _ _ => "Attached history pseudostate"
  | initialDefaulted _ _ => "No initial state declared; defaulting to the first declared child"
  | parsed _ _ => "Parsed state diagram"

def fields : Notice → List (String × String)
  | historyAttached composite history turned =>
    [("composite", composite.path), ("history", history.path), ("rewritten", toString turned)]
  | initialDefaulted composite initial => [("composite", composite.path), ("initial", initial.path)]
  | parsed states transitions =>
    [("states", toString states), ("transitions", toString transitions)]

end Notice

end Statechart
