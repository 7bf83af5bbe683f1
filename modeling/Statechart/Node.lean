import Statechart.State

namespace Statechart

inductive Node where
  | simple (id : NodeId) (name : String)
  | history (id : NodeId) (name : String)
  | composite (id : NodeId) (name : String) (initial : Option NodeId) (children : List Node)
  | concurrent (id : NodeId) (name : String) (regions : List Node)
  | region (id : NodeId) (name : String) (initial : Option NodeId) (children : List Node)
  deriving Repr

namespace Node

def id : Node → NodeId
  | simple id _ | history id _ | composite id _ _ _ | concurrent id _ _ | region id _ _ _ => id

def name : Node → String
  | simple _ name | history _ name | composite _ name _ _ | concurrent _ name _
  | region _ name _ _ => name

mutual

def ids : Node → List NodeId
  | simple id _ => [id]
  | history id _ => [id]
  | composite id _ _ children => id :: idsOf children
  | concurrent id _ regions => id :: idsOf regions
  | region _ _ _ children => idsOf children

def idsOf : List Node → List NodeId
  | [] => []
  | n :: ns => ids n ++ idsOf ns

end

end Node

end Statechart
