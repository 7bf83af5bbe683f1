import Statechart.Text.Lines

/-!
Command-line arguments: flags, options with a value, and the name of a command. Each flag and option
may be given once. Short ones may stand together behind one hyphen, the value of the last of them
with them.
-/

namespace Statechart.Cli

structure Key where
  short : Option Char
  long : String
  deriving DecidableEq, Repr

inductive Stop where
  | usage
  | help
  | version
  deriving DecidableEq, Repr

structure OptionKey where
  key : Key
  accepts : String → Bool

structure Grammar where
  flags : List Key
  options : List OptionKey
  stops : List (Key × Stop)
  commands : List String

structure Setting where
  name : String
  value : Option String
  deriving DecidableEq, Repr

structure Reading where
  settings : List Setting
  command : Option (String × List String)
  deriving DecidableEq, Repr

namespace Grammar

def add (ss : List Setting) (s : Setting) : Except Stop (List Setting) :=
  if ss.any fun t => t.name = s.name then .error .usage else .ok (ss ++ [s])

def give (ss : List Setting) (o : OptionKey) (value : String) : Except Stop (List Setting) :=
  if o.accepts value then add ss ⟨o.key.long, some value⟩ else .error .usage

/-- The settings after an argument, and the option that waits for its value. -/
abbrev Step := List Setting × Option OptionKey

def long (g : Grammar) (ss : List Setting) (name : String) (value : Option String) :
    Except Stop Step :=
  match g.stops.find? fun s => s.1.long = name with
  | some s => .error (if value.isSome then .usage else s.2)
  | none =>
    match g.options.find? fun o => o.key.long = name with
    | some o =>
      match value with
      | none => .ok (ss, some o)
      | some v => (give ss o v).map fun ss => (ss, none)
    | none =>
      if value.isNone ∧ g.flags.any fun k => k.long = name then
        (add ss ⟨name, none⟩).map fun ss => (ss, none)
      else .error .usage

def short (g : Grammar) (ss : List Setting) : List Char → Except Stop Step
  | [] => .ok (ss, none)
  | c :: cs =>
    match g.stops.find? fun s => s.1.short = some c with
    | some s => .error s.2
    | none =>
      match g.options.find? fun o => o.key.short = some c with
      | some o =>
        match cs with
        | [] => .ok (ss, some o)
        | '=' :: v => (give ss o (String.ofList v)).map fun ss => (ss, none)
        | v => (give ss o (String.ofList v)).map fun ss => (ss, none)
      | none =>
        match g.flags.find? fun k => k.short = some c with
        | none => .error .usage
        | some k =>
          match add ss ⟨k.long, none⟩ with
          | .error e => .error e
          | .ok ss => short g ss cs

/-- Whether an argument cannot be the value of an option before it. -/
def isDashed : List Char → Bool
  | '-' :: _ :: _ => true
  | _ => false

def dashed (g : Grammar) (ss : List Setting) : List Char → Except Stop Step
  | '-' :: '-' :: cs =>
    match cs.span (· ≠ '=') with
    | (name, []) => long g ss (String.ofList name) none
    | (name, _ :: value) => long g ss (String.ofList name) (some (String.ofList value))
  | cs => short g ss (cs.drop 1)

/-- Reads arguments, of which the first one is the value of `waiting` if there is such an option.
    Nothing may follow a lone `--`. -/
def read (g : Grammar) (ss : List Setting) :
    (waiting : Option OptionKey) → List String → Except Stop Reading
  | some _, [] => .error .usage
  | none, [] => .ok ⟨ss, none⟩
  | some o, a :: rest =>
    if isDashed a.toList then .error .usage
    else
      match give ss o a with
      | .error e => .error e
      | .ok ss => read g ss none rest
  | none, a :: rest =>
    if a = "--" then (if rest = [] then .ok ⟨ss, none⟩ else .error .usage)
    else if isDashed a.toList then
      match dashed g ss a.toList with
      | .error e => .error e
      | .ok (ss, waiting) => read g ss waiting rest
    else if a ∈ g.commands then .ok ⟨ss, some (a, rest)⟩
    else .error .usage

end Grammar

namespace Setting

def isGiven (ss : List Setting) (name : String) : Bool :=
  ss.any fun s => s.name = name

def valueOf (ss : List Setting) (name : String) : Option String :=
  (ss.find? fun s => s.name = name).bind Setting.value

end Setting

end Statechart.Cli
