import Statechart.Text.Lines

namespace Statechart

inductive Expectation where
  | char (c : Char)
  | anyChar
  | other
  | lineEnd
  deriving DecidableEq, Repr

def Expectation.text : Expectation → String
  | char c => s!"'{c}'"
  | anyChar => "any"
  | other => "something else"
  | lineEnd => "end of input"

structure Miss where
  rest : List Char
  expected : Expectation
  deriving DecidableEq, Repr

structure Furthest where
  rest : List Char
  expected : List Expectation
  deriving DecidableEq, Repr

namespace Furthest

def add (f : Furthest) (m : Miss) : Furthest :=
  if m.rest.length < f.rest.length then ⟨m.rest, [m.expected]⟩
  else if m.rest.length = f.rest.length ∧ m.expected ∉ f.expected then
    { f with expected := f.expected ++ [m.expected] }
  else f

def of? : List Miss → Option Furthest
  | [] => none
  | m :: ms => some (ms.foldl add ⟨m.rest, [m.expected]⟩)

def found (f : Furthest) : Option Char :=
  f.rest.head?

def alternatives : List String → String
  | [] => ""
  | [s] => s
  | ss => Text.joined ", " ss.dropLast ++ ", or " ++ ss.getLast?.getD ""

end Furthest

end Statechart
