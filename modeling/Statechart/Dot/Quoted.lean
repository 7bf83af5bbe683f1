import Statechart.NodeId
import Statechart.Text.Lines

namespace Statechart.Dot

def escape : List Char → List Char
  | [] => []
  | c :: cs => if c = '\\' ∨ c = '"' then '\\' :: c :: escape cs else c :: escape cs

def escaped (s : String) : String :=
  String.ofList (escape s.toList)

def quote (s : String) : String :=
  "\"" ++ escaped s ++ "\""

def quoteLines (ss : List String) : String :=
  "\"" ++ Text.joined "\\n" (ss.map escaped) ++ "\""

def clusterId (id : NodeId) : String :=
  "cluster_" ++ id.path

end Statechart.Dot
