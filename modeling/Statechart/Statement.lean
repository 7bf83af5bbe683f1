import Statechart.State

namespace Statechart

inductive Endpoint where
  | pseudo
  | named (name : String)
  deriving DecidableEq, Repr

inductive Statement where
  | direction (code : String)
  | state (name : String) (label : Option String) (opens : Bool)
  | close
  | separator
  | transition (source target : Endpoint) (label : Option String)
  | description (name text : String)
  /-- Without a text it opens a block that `end note` ends. -/
  | note (side : NoteSide) (name : String) (text : Option String)
  deriving DecidableEq, Repr

end Statechart
