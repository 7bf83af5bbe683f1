import Statechart.NodeId
import Statechart.Text.Blank

namespace Statechart

inductive RemarkKind where
  | entry
  | exit
  | activity
  | description
  | note
  deriving DecidableEq, Repr

namespace RemarkKind

def word : RemarkKind → String
  | entry => "entry"
  | exit => "exit"
  | activity => "do"
  | description => "description"
  | note => "note"

end RemarkKind

structure Remark where
  state : NodeId
  kind : RemarkKind
  text : String
  line : Nat
  deriving DecidableEq, Repr

namespace Remark

def bodyAfter (word : String) (cs : List Char) : Option (List Char) :=
  let n := word.toList.length
  if (cs.take n).map Char.toLower = word.toList then
    match Text.trimStart (cs.drop n) with
    | [] => none
    | c :: body => if c = '/' ∨ c = ':' then some (Text.trim body) else none
  else none

/-- Reads a line such as `entry / start`, `exit: stop` or `do / beep`. -/
def ofLine? (line : String) : Option (RemarkKind × String) :=
  [RemarkKind.entry, .exit, .activity].findSome? fun k =>
    (bodyAfter k.word (Text.trim line.toList)).map fun body => (k, String.ofList body)

def shown (a : Remark) : String :=
  match a.kind with
  | .entry | .exit | .activity => s!"{a.kind.word} / {a.text}"
  | .description | .note => a.text

end Remark

end Statechart
