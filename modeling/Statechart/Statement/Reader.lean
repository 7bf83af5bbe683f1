import Statechart.Statement.Miss
import Statechart.Text.Blank
import Statechart.Text.Name

/-!
Reading the parts of a statement from the front of a line. A reader gives back what it read and the
rest of the line, or nothing, and in either case every miss on the way, in the order of reading.
-/

namespace Statechart

structure Reading (α : Type) where
  read? : Option (α × List Char)
  misses : List Miss

def Reader (α : Type) :=
  List Char → Reading α

namespace Reader

variable {α β : Type}

protected def pure (a : α) : Reader α :=
  fun cs => ⟨some (a, cs), []⟩

protected def bind (p : Reader α) (f : α → Reader β) : Reader β := fun cs =>
  match p cs with
  | ⟨none, ms⟩ => ⟨none, ms⟩
  | ⟨some (a, rest), ms⟩ => ⟨(f a rest).read?, ms ++ (f a rest).misses⟩

instance : Monad Reader where
  pure := Reader.pure
  bind := Reader.bind

/-- Goes on here, having looked for `e` in vain. -/
def without (e : Expectation) : Reader Unit :=
  fun cs => ⟨some ((), cs), [⟨cs, e⟩]⟩

def either (p q : Reader α) : Reader α := fun cs =>
  match p cs with
  | ⟨some r, ms⟩ => ⟨some r, ms⟩
  | ⟨none, ms⟩ => ⟨(q cs).read?, ms ++ (q cs).misses⟩

def optional (p : Reader α) : Reader (Option α) :=
  either (do pure (some (← p))) (pure none)

def oneOf : List (Reader α) → Reader α
  | [] => fun _ => ⟨none, []⟩
  | p :: ps => either p (oneOf ps)

def char (c : Char) : Reader Unit
  | [] => ⟨none, [⟨[], .char c⟩]⟩
  | d :: cs => if d = c then ⟨some ((), cs), []⟩ else ⟨none, [⟨d :: cs, .char c⟩]⟩

def literal : List Char → Reader Unit
  | [] => pure ()
  | c :: cs => do
    char c
    literal cs

def run (p : Char → Bool) : Reader (List Char) :=
  fun cs => ⟨some (cs.takeWhile p, cs.dropWhile p), []⟩

def isSpace (c : Char) : Bool :=
  c = ' ' || c = '\t'

def spaces : Reader (List Char) := do
  let cs ← run isSpace
  without (.char ' ')
  without (.char '\t')
  pure cs

def someSpaces : Reader Unit := fun cs =>
  match spaces cs with
  | ⟨some (_ :: _, rest), ms⟩ => ⟨some ((), rest), ms⟩
  | ⟨_, ms⟩ => ⟨none, ms⟩

def atEnd : Reader Unit
  | [] => ⟨some ((), []), []⟩
  | c :: cs => ⟨none, [⟨c :: cs, .lineEnd⟩]⟩

def keyword (w : String) : Reader Unit := do
  literal w.toList
  someSpaces

def name : Reader String := fun cs =>
  let rest := cs.dropWhile Text.isNameChar
  let stop : Expectation := if rest = [] then .anyChar else .other
  match cs.takeWhile Text.isNameChar with
  | [] => ⟨none, [⟨rest, stop⟩]⟩
  | c :: r => ⟨some (String.ofList (c :: r), rest), [⟨rest, stop⟩]⟩

def quoted : Reader String := do
  char '"'
  let cs ← run (· ≠ '"')
  without .other
  char '"'
  pure (String.ofList cs)

def tailText : Reader String := do
  char ':'
  let cs ← run fun _ => true
  without .anyChar
  pure (String.ofList (Text.trim cs))

end Reader

end Statechart
