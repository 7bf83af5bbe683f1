import Statechart.Label
import Statechart.NodeId

namespace Statechart

inductive StateKind where
  | simple
  | composite
  | concurrent
  | history
  deriving DecidableEq, Repr

namespace StateKind

def nests : StateKind → Bool
  | composite | concurrent => true
  | simple | history => false

def word : StateKind → String
  | simple => "simple"
  | composite => "composite"
  | concurrent => "concurrent"
  | history => "history"

end StateKind

structure State where
  name : String
  id : NodeId
  parent : Option NodeId
  /-- The region of a concurrent parent, counted from zero. -/
  region : Option Nat
  kind : StateKind
  label : Option String
  /-- The line of the first mention. -/
  line : Nat
  deriving DecidableEq, Repr

def State.caption (s : State) : String :=
  s.label.getD s.name

structure Transition where
  source : NodeId
  target : NodeId
  label : Label
  line : Nat
  deriving DecidableEq, Repr

def regionName (index : Nat) : String :=
  "region" ++ toString (index + 1)

def regionId (owner : NodeId) (index : Nat) : NodeId :=
  .child (some owner) (regionName index)

inductive Scope where
  | top
  | composite (id : NodeId)
  | region (owner : NodeId) (index : Nat)
  deriving DecidableEq, Repr

namespace Scope

def id? : Scope → Option NodeId
  | top => none
  | composite id => some id
  | region owner index => some (regionId owner index)

def description : Scope → String
  | top => "the top level"
  | composite id => s!"composite state `{id.path}`"
  | region owner index => s!"region `{regionName index}` of concurrent state `{owner.path}`"

end Scope

structure Initial where
  scope : Scope
  target : NodeId
  line : Nat
  deriving DecidableEq, Repr

structure RegionSlot where
  owner : NodeId
  index : Nat
  id : NodeId
  deriving DecidableEq, Repr

structure Region where
  owner : NodeId
  index : Nat
  name : String
  id : NodeId
  initial : NodeId
  members : List NodeId
  deriving DecidableEq, Repr

inductive NoteSide where
  | left
  | right
  deriving DecidableEq, Repr

structure Note where
  state : NodeId
  side : NoteSide
  text : String
  line : Nat
  /-- The line that opens the note. -/
  source : String
  deriving DecidableEq, Repr

end Statechart
