import Statechart.Dot.Quoted

namespace Statechart.Dot

inductive Statement where
  | openGraph (title : String)
  | setting (text : String)
  | openCluster (id : NodeId)
  | caption (lines : List String)
  /-- The invisible node that stands for a cluster at the ends of edges. -/
  | anchor (id : NodeId)
  | node (id : NodeId) (lines : List String) (final : Bool)
  | historyNode (id : NodeId)
  | edge (source target : NodeId) (label : String) (tail head : Option NodeId)
  | close
  deriving DecidableEq, Repr

namespace Statement

def attributes : List String → String
  | [] => ""
  | as => " [" ++ Text.joined ", " as ++ "]"

def nodeAttributes (lines : List String) (final : Bool) : List String :=
  ("label=" ++ quoteLines lines) :: if final then ["peripheries=2"] else []

def edgeAttributes (label : String) (tail head : Option NodeId) : List String :=
  (if label = "" then [] else ["label=" ++ quote label]) ++
    (tail.map fun id => "ltail=" ++ quote (clusterId id)).toList ++
    (head.map fun id => "lhead=" ++ quote (clusterId id)).toList

def text : Statement → String
  | openGraph title => "digraph " ++ quote title ++ " \x7b"
  | setting text => text
  | openCluster id => "subgraph " ++ quote (clusterId id) ++ " \x7b"
  | caption lines => "label=" ++ quoteLines lines ++ ";"
  | anchor id => quote id.path ++ " [shape=point, style=invis, width=0, label=\"\"];"
  | node id lines final =>
    quote id.path ++ attributes (nodeAttributes lines final) ++ ";"
  | historyNode id => quote id.path ++ " [label=\"H\", shape=circle, width=0.3, fixedsize=true];"
  | edge source target label tail head =>
    quote source.path ++ " -> " ++ quote target.path ++
      attributes (edgeAttributes label tail head) ++ ";"
  | close => "\x7d"

end Statement

def indentUnit : String := "  "

def indent : Nat → String
  | 0 => ""
  | n + 1 => indentUnit ++ indent n

structure Row where
  depth : Nat
  statement : Statement
  deriving DecidableEq, Repr

def Row.text (r : Row) : String :=
  indent r.depth ++ r.statement.text

def textOf (rows : List Row) : String :=
  rows.foldr (fun r rest => r.text ++ "\n" ++ rest) ""

end Statechart.Dot
