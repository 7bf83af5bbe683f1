import Statechart.Text.Blank
import Statechart.Text.Name

/-!
Finding patterns in running text. A pattern gives the places where it can end when it starts at a
given place, the preferred one first; a search takes the leftmost start that has an end.
-/

namespace Statechart.Text

structure Cursor where
  previous : Option Char
  rest : List Char
  deriving DecidableEq, Repr

abbrev Pattern := Cursor → List Cursor

namespace Pattern

def one (p : Char → Bool) : Pattern
  | ⟨_, []⟩ => []
  | ⟨_, c :: cs⟩ => if p c then [⟨some c, cs⟩] else []

def sequence : List Pattern → Pattern
  | [], c => [c]
  | p :: ps, c => (p c).flatMap (sequence ps)

def either (p q : Pattern) : Pattern :=
  fun c => p c ++ q c

def optional (p : Pattern) : Pattern :=
  fun c => p c ++ [c]

/-- The places after each number of characters of the class, the most first. -/
def runFrom (p : Char → Bool) (previous : Option Char) : List Char → List Cursor
  | [] => [⟨previous, []⟩]
  | c :: cs => (if p c then runFrom p (some c) cs else []) ++ [⟨previous, c :: cs⟩]

def many (p : Char → Bool) : Pattern :=
  fun c => runFrom p c.previous c.rest

def blanks : Pattern :=
  sequence [one isBlank, many isBlank]

/-- Whether `c` is the small letter `w` in either case. The long s counts as an s, and the sign of
    the unit kelvin as a k. -/
def alike (w c : Char) : Bool :=
  c.toLower = w || (w = 's' && c = '\u017f') || (w = 'k' && c = '\u212a')

def word (w : String) : Pattern :=
  sequence (w.toList.map fun c => one (alike c))

def boundary : Pattern := fun c =>
  if c.previous.any isWordChar = c.rest.head?.any isWordChar then [] else [c]

end Pattern

/-- A stretch of a text, by the positions of its first character and of the one after it. -/
structure Span where
  start : Nat
  stop : Nat
  deriving DecidableEq, Repr

def Span.meets (a b : Span) : Bool :=
  a.start < b.stop && b.start < a.stop

/-- The matches of `m` in the text after `previous`, whose first character has number `position`,
    from left to right and without overlap. The first `skip` characters belong to an earlier
    match. -/
def matchesFrom {α : Type} (m : Cursor → Option (α × Cursor)) (previous : Option Char)
    (position skip : Nat) : List Char → List (α × Span)
  | [] => []
  | c :: cs =>
    match skip with
    | k + 1 => matchesFrom m (some c) (position + 1) k cs
    | 0 =>
      match m ⟨previous, c :: cs⟩ with
      | none => matchesFrom m (some c) (position + 1) 0 cs
      | some (a, e) =>
        let size := (c :: cs).length - e.rest.length
        (a, ⟨position, position + size⟩) :: matchesFrom m (some c) (position + 1) (size - 1) cs

def allMatches {α : Type} (m : Cursor → Option (α × Cursor)) (cs : List Char) : List (α × Span) :=
  matchesFrom m none 0 0 cs

end Statechart.Text
