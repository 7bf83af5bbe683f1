import Statechart.Direction
import Statechart.Remark
import Statechart.State

namespace Statechart

structure FlatChart where
  states : List State
  regions : List RegionSlot
  transitions : List Transition
  initials : List Initial
  finals : List NodeId
  notes : List Note
  remarks : List Remark
  direction : Option Direction
  deriving DecidableEq, Repr

end Statechart
