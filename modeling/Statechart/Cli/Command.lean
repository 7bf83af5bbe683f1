import Statechart.Cli.Arguments
import Statechart.Direction
import Statechart.Log

namespace Statechart.Cli

def programName : String := "keelson"

def version : String := "0.1.0"

inductive Command where
  | validate (input : Option String)
  | config (input output : Option String) (pretty : Bool)
  | dot (input output : Option String) (direction : Option Direction) (title : String)
      (remarks : Bool)
  | draw (input : Option String) (output format program : String) (direction : Option Direction)
  | table (input : Option String) (outline : Bool)
  deriving DecidableEq, Repr

structure Invocation where
  verbose : Bool
  strict : Bool
  logFormat : Log.Format
  command : Command
  deriving DecidableEq, Repr

namespace Command

def names : List String :=
  ["validate", "config", "dot", "draw", "table"]

def direction? (s : String) : Option Direction :=
  [Direction.topDown, .leftRight, .rightLeft, .bottomUp].find? fun d =>
    d.code.toList.map Char.toLower = s.toList

def logFormat? (s : String) : Option Log.Format :=
  Log.Format.all.find? fun f => f.name = s

def logLevels : List String :=
  ["trace", "debug", "info", "warn", "error"]

def pathOption (short : Char) (long : String) : OptionKey where
  key := ⟨some short, long⟩
  accepts s := s ≠ ""

def textOption (long : String) : OptionKey where
  key := ⟨none, long⟩
  accepts _ := true

def input : OptionKey := pathOption 'i' "input"

def output : OptionKey := pathOption 'o' "output"

def directionOption : OptionKey where
  key := ⟨none, "direction"⟩
  accepts s := (direction? s).isSome

def commonFlags : List Key :=
  [⟨some 'v', "verbose"⟩, ⟨none, "strict"⟩]

def helpStop : Key × Stop :=
  (⟨some 'h', "help"⟩, .help)

def before : Grammar where
  flags := commonFlags
  options := [
    ⟨⟨none, "log-level"⟩, (· ∈ logLevels)⟩,
    ⟨⟨none, "log-format"⟩, fun s => (logFormat? s).isSome⟩]
  stops := [helpStop, (⟨some 'V', "version"⟩, .version)]
  commands := "help" :: names

def after (flags : List String) (options : List OptionKey) : Grammar where
  flags := commonFlags ++ flags.map (⟨none, ·⟩)
  options := options
  stops := [helpStop]
  commands := []

def grammar (name : String) : Grammar :=
  match name with
  | "config" => after ["pretty"] [input, output]
  | "dot" => after ["no-annotations"] [input, output, directionOption, textOption "title"]
  | "draw" =>
    after [] [input, output, textOption "format", textOption "program", directionOption]
  | "table" => after ["outline"] [input]
  | _ => after [] [input]

def ofSettings (name : String) (ss : List Setting) : Except Stop Command :=
  let value := Setting.valueOf ss
  let given := Setting.isGiven ss
  let direction := (value "direction").bind direction?
  match name with
  | "validate" => .ok (.validate (value "input"))
  | "config" => .ok (.config (value "input") (value "output") (given "pretty"))
  | "dot" =>
    .ok (.dot (value "input") (value "output") direction ((value "title").getD "StateMachine")
      (!given "no-annotations"))
  | "draw" =>
    match value "output" with
    | none => .error .usage
    | some output =>
      .ok (.draw (value "input") output ((value "format").getD "png")
        ((value "program").getD "dot") direction)
  | "table" => .ok (.table (value "input") (given "outline"))
  | _ => .error .usage

def helpOn : List String → Stop
  | [] => .help
  | [name] => if name = "help" ∨ name ∈ names then .help else .usage
  | _ => .usage

end Command

namespace Invocation

def ofArguments (args : List String) : Except Stop Invocation := do
  let outer ← Command.before.read [] none args
  match outer.command with
  | none => .error .usage
  | some ("help", topics) => .error (Command.helpOn topics)
  | some (name, rest) =>
    let inner ← (Command.grammar name).read [] none rest
    let command ← Command.ofSettings name inner.settings
    let given (flag : String) := Setting.isGiven (outer.settings ++ inner.settings) flag
    return {
      verbose := given "verbose"
      strict := given "strict"
      logFormat :=
        ((Setting.valueOf outer.settings "log-format").bind Command.logFormat?).getD .compact
      command := command }

end Invocation

end Statechart.Cli
