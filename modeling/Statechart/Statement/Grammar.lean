import Statechart.Fault
import Statechart.Statement
import Statechart.Statement.Reader

namespace Statechart

def Text.utf8Size (cs : List Char) : Nat :=
  (cs.map Char.utf8Size).foldr Nat.add 0

namespace Statement

open Reader

def endpoint : Reader Endpoint :=
  either (do literal "[*]".toList; pure .pseudo) (do pure (.named (← name)))

/-- `state Name` or `state "Label" as Name`, and `{` if it opens a body. -/
def stateForm : Reader Statement := do
  keyword "state"
  let (label, id) ← either
    (do
      let label ← quoted
      someSpaces
      keyword "as"
      pure (some label, ← name))
    (do pure (none, ← name))
  let _ ← spaces
  let brace ← optional (char '\x7b')
  let _ ← spaces
  atEnd
  pure (.state id label brace.isSome)

/-- `note right of Name`, and `: text` if the note is all on this line. -/
def noteForm : Reader Statement := do
  keyword "note"
  let side ← either
    (do literal "right".toList; pure NoteSide.right)
    (do literal "left".toList; pure NoteSide.left)
  someSpaces
  keyword "of"
  let id ← name
  let _ ← spaces
  let text ← optional tailText
  atEnd
  pure (.note side id text)

def directionForm : Reader Statement := do
  keyword "direction"
  let code ← name
  let _ ← spaces
  atEnd
  pure (.direction code)

def closeForm : Reader Statement := do
  char '\x7d'
  let _ ← spaces
  atEnd
  pure .close

def separatorForm : Reader Statement := do
  literal "--".toList
  let _ ← spaces
  atEnd
  pure .separator

/-- `A --> B`, and `: label` if it has one; an empty label counts as none. -/
def transitionForm : Reader Statement := do
  let source ← endpoint
  let _ ← spaces
  literal "-->".toList
  let _ ← spaces
  let target ← endpoint
  let _ ← spaces
  let label ← optional tailText
  atEnd
  pure (.transition source target (label.filter (· ≠ "")))

def descriptionForm : Reader Statement := do
  let id ← name
  let _ ← spaces
  let text ← tailText
  atEnd
  pure (.description id text)

def form : Reader Statement :=
  oneOf [stateForm, noteForm, directionForm, closeForm, separatorForm, transitionForm,
    descriptionForm]

def read (cs : List Char) : Except Furthest Statement :=
  match form cs with
  | ⟨some (s, _), _⟩ => .ok s
  | ⟨none, ms⟩ => .error ((Furthest.of? ms).getD ⟨cs, []⟩)

/-- The column of a place in a line, counted in bytes from one. -/
def column (cs rest : List Char) : Nat :=
  Text.utf8Size cs - Text.utf8Size rest + 1

def parse (text : String) (line : Nat) : Except Fault Statement :=
  match read text.toList with
  | .ok s => .ok s
  | .error f =>
    .error (.structural (.unsupported f.found f.expected) line (column text.toList f.rest) text)

end Statement

end Statechart
