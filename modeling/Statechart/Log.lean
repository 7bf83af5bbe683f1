namespace Statechart

inductive Log.Format where
  | compact
  | pretty
  | json
  deriving DecidableEq, Repr

namespace Log.Format

def all : List Log.Format :=
  [compact, pretty, json]

def name : Log.Format → String
  | compact => "compact"
  | pretty => "pretty"
  | json => "json"

def ofName? (s : String) : Option Log.Format :=
  all.find? fun f => f.name.toList = s.toList.map Char.toLower

def unknown (s : String) : String :=
  "Unknown log format: " ++ s

def refusal (s : String) : String :=
  "Invalid log format: " ++ unknown s

end Log.Format

end Statechart
