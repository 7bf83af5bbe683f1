import Statechart.Chart
import Statechart.Json.Writer

namespace Statechart

inductive ConfigNode where
  | name (n : String)
  | composite (n : String) (children : List ConfigNode) (initial : Option String)
  | parallel (n : String) (regions : List ConfigNode)
  deriving Repr

structure ConfigArrow where
  trigger : Option String
  source : String
  target : String
  conditions : Option (List String)
  before : Option String
  deriving DecidableEq, Repr

structure Config where
  states : List ConfigNode
  transitions : List ConfigArrow
  initial : String
  finals : List String
  deriving Repr

namespace ConfigNode

def ownName : ConfigNode → String
  | name n | composite n _ _ | parallel n _ => n

mutual

def ofNode : Node → ConfigNode
  | .simple _ n => name n
  | .history _ n => name n
  | .composite _ n initial children => composite n (ofNodes children) (initial.map NodeId.baseName)
  | .concurrent _ n regions => parallel n (ofNodes regions)
  | .region _ n initial children => composite n (ofNodes children) (initial.map NodeId.baseName)

def ofNodes : List Node → List ConfigNode
  | [] => []
  | n :: ns => ofNode n :: ofNodes ns

end

mutual

def toJson : ConfigNode → Json.Value
  | name n => .string n
  | composite n children initial =>
    .object ([("name", .string n), ("children", .array (toJsons children))] ++
      (initial.map fun i => ("initial", Json.Value.string i)).toList)
  | parallel n regions => .object [("name", .string n), ("parallel", .array (toJsons regions))]

def toJsons : List ConfigNode → List Json.Value
  | [] => []
  | s :: ss => toJson s :: toJsons ss

end

end ConfigNode

namespace ConfigArrow

def ofTransition (t : Transition) : ConfigArrow where
  trigger := t.label.trigger
  source := t.source.path
  target := t.target.path
  conditions := t.label.guard.map fun g => [g]
  before := t.label.action

def toJson (t : ConfigArrow) : Json.Value :=
  .object ([("trigger", Json.Value.optional .string t.trigger), ("source", .string t.source),
    ("dest", .string t.target)] ++
    (t.conditions.map fun cs => ("conditions", Json.Value.list .string cs)).toList ++
    (t.before.map fun b => ("before", Json.Value.string b)).toList)

end ConfigArrow

namespace Config

def ofChart (c : Chart) : Config where
  states := ConfigNode.ofNodes c.roots
  transitions := c.transitions.map .ofTransition
  initial := c.initial.path
  finals := c.finals.map NodeId.path

def toJson (c : Config) : Json.Value :=
  .object ([("states", .array (ConfigNode.toJsons c.states)),
    ("transitions", Json.Value.list ConfigArrow.toJson c.transitions),
    ("initial", .string c.initial)] ++
    (if c.finals = [] then [] else [("final_states", Json.Value.list .string c.finals)]))

end Config

end Statechart
