namespace Statechart

inductive Direction where
  | topDown
  | leftRight
  | rightLeft
  | bottomUp
  deriving DecidableEq, Repr

namespace Direction

def ofCode? (s : String) : Option Direction :=
  match String.ofList (s.toList.map Char.toUpper) with
  | "TD" => some topDown
  | "TB" => some topDown
  | "LR" => some leftRight
  | "RL" => some rightLeft
  | "BT" => some bottomUp
  | _ => none

def code : Direction → String
  | topDown => "TD"
  | leftRight => "LR"
  | rightLeft => "RL"
  | bottomUp => "BT"

def rankdir : Direction → String
  | topDown => "TB"
  | leftRight => "LR"
  | rightLeft => "RL"
  | bottomUp => "BT"

def name : Direction → String
  | topDown => "TopDown"
  | leftRight => "LeftRight"
  | rightLeft => "RightLeft"
  | bottomUp => "BottomUp"

end Direction

end Statechart
