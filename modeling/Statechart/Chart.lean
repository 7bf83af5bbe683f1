import Statechart.Direction
import Statechart.Nesting
import Statechart.Remark

namespace Statechart

structure Chart where
  states : List State
  roots : List Node
  initial : NodeId
  nested : Initials
  /-- The composites that take their first child as initial state, for want of an arrow. -/
  defaulted : List NodeId
  regions : List Region
  transitions : List Transition
  finals : List NodeId
  remarks : List Remark
  direction : Option Direction
  deriving Repr

namespace Chart

def state? (c : Chart) (id : NodeId) : Option State :=
  c.states.find? fun s => s.id = id

def named (c : Chart) (name : String) : List State :=
  c.states.filter fun s => s.name = name

def histories (c : Chart) : List State :=
  c.states.filter fun s => s.kind = .history

def childrenOf (c : Chart) (id : NodeId) : List State :=
  c.states.filter fun s => s.parent = some id

def initialIn? (c : Chart) (scope : NodeId) : Option NodeId :=
  c.nested.get? scope

def remarksOn (c : Chart) (id : NodeId) : List Remark :=
  c.remarks.filter fun r => r.state = id

def treeIds (c : Chart) : List NodeId :=
  Node.idsOf c.roots

def nests (c : Chart) (id : NodeId) : Bool :=
  (c.state? id).any fun s => s.kind.nests

end Chart

end Statechart
