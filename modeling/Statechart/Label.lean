import Statechart.Text.Blank
import Statechart.Text.Lines

/-!
Transition labels of the form `trigger [guard] / action`, each part optional. Reading takes the
action off first, then the guard, and what is left is the trigger; writing puts the parts together
again.
-/

namespace Statechart

structure Label where
  trigger : Option String
  guard : Option String
  action : Option String
  deriving DecidableEq, Repr

namespace Label

def empty : Label where
  trigger := none
  guard := none
  action := none

def isUntriggered (l : Label) : Bool :=
  l.trigger.isNone

/-- Bracket depth after a character: every closing bracket closes any opening one, and none goes
    below the ground. -/
def depthAfter (d : Nat) (c : Char) : Nat :=
  if c = '[' ∨ c = '(' ∨ c = '\x7b' then d + 1
  else if c = ']' ∨ c = ')' ∨ c = '\x7d' then d - 1
  else d

def cutAtSlash : Nat → List Char → Option (List Char × List Char)
  | _, [] => none
  | d, c :: cs =>
    match cutAtSlash (depthAfter d c) cs with
    | some (before, after) => some (c :: before, after)
    | none => if c = '/' ∧ d = 0 then some ([], cs) else none

def cutAtClose : Nat → List Char → Option (List Char × List Char)
  | _, [] => none
  | d, c :: cs =>
    if c = '[' then (cutAtClose (d + 1) cs).map fun r => (c :: r.1, r.2)
    else if c = ']' then
      match d with
      | 0 => some ([], cs)
      | d + 1 => (cutAtClose d cs).map fun r => (c :: r.1, r.2)
    else (cutAtClose d cs).map fun r => (c :: r.1, r.2)

def cutAtBrackets (cs : List Char) : Option (List Char × List Char × List Char) :=
  match cs.span (· ≠ '[') with
  | (_, []) => none
  | (before, _ :: rest) => (cutAtClose 0 rest).map fun r => (before, r.1, r.2)

def unbrace (cs : List Char) : List Char :=
  match Text.trim cs with
  | [] => []
  | c :: inner =>
    if c = '\x7b' ∧ inner.getLast? = some '\x7d' then inner.dropLast else c :: inner

def part (cs : List Char) : Option String :=
  match Text.trim cs with
  | [] => none
  | c :: r => some (String.ofList (c :: r))

def ofUnslashed (cs : List Char) (action : Option String) : Label :=
  match cutAtBrackets cs with
  | none => { trigger := part cs, guard := none, action := action }
  | some (before, inside, after) =>
    { trigger := part (before ++ ' ' :: after), guard := part inside, action := action }

def ofText (s : String) : Label :=
  match cutAtSlash 0 s.toList with
  | none => ofUnslashed s.toList none
  | some (before, after) => ofUnslashed before (part (unbrace after))

def ofText? : Option String → Label
  | none => empty
  | some s => ofText s

def text (l : Label) : String :=
  Text.joined " " (l.trigger.toList ++ (l.guard.map ("[" ++ · ++ "]")).toList ++
    (l.action.map ("/ " ++ ·)).toList)

end Label

end Statechart
