import Statechart.Chart
import Statechart.Json.Writer

namespace Statechart

open Json (Value)

namespace NodeId

def toJson (a : NodeId) : Value :=
  .string a.path

end NodeId

def StateKind.toJson : StateKind → Value
  | simple => .string "simple"
  | composite => .string "composite"
  | concurrent => .string "concurrent"
  | history => .string "history_pseudostate"

def State.toJson (s : State) : Value :=
  .object [
    ("bare_name", .string s.name),
    ("scoped_id", s.id.toJson),
    ("parent_id", .optional NodeId.toJson s.parent),
    ("region", .optional .nat s.region),
    ("kind", s.kind.toJson),
    ("label", .optional .string s.label),
    ("line", .nat s.line)]

def Transition.toJson (t : Transition) : Value :=
  .object [
    ("source", t.source.toJson),
    ("dest", t.target.toJson),
    ("trigger", .optional .string t.label.trigger),
    ("guard", .optional .string t.label.guard),
    ("action", .optional .string t.label.action),
    ("line", .nat t.line)]

def Remark.toJson (r : Remark) : Value :=
  .object [
    ("state", r.state.toJson),
    ("kind", .string r.kind.word),
    ("text", .string r.text),
    ("line", .nat r.line)]

def Region.toJson (r : Region) : Value :=
  .object [
    ("owner", r.owner.toJson),
    ("index", .nat r.index),
    ("name", .string r.name),
    ("scoped_id", r.id.toJson),
    ("initial", r.initial.toJson),
    ("members", .list NodeId.toJson r.members)]

namespace Node

mutual

def toJson : Node → Value
  | simple id name =>
    .object [("kind", .string "simple"), ("id", id.toJson), ("name", .string name)]
  | history id name =>
    .object [("kind", .string "history"), ("id", id.toJson), ("name", .string name)]
  | composite id name initial children =>
    .object [
      ("kind", .string "composite"),
      ("id", id.toJson),
      ("name", .string name),
      ("initial", .optional NodeId.toJson initial),
      ("children", .array (toJsons children))]
  | concurrent id name regions =>
    .object [
      ("kind", .string "concurrent"),
      ("id", id.toJson),
      ("name", .string name),
      ("regions", .array (toJsons regions))]
  | region id name initial children =>
    .object [
      ("id", id.toJson),
      ("name", .string name),
      ("initial", .optional NodeId.toJson initial),
      ("children", .array (toJsons children))]

def toJsons : List Node → List Value
  | [] => []
  | n :: ns => toJson n :: toJsons ns

end

end Node

def Initials.toJson (m : Initials) : Value :=
  .object (m.map fun e => (e.1.path, e.2.toJson))

def Chart.toJson (c : Chart) : Value :=
  .object [
    ("states", .list State.toJson c.states),
    ("root_states", .array (Node.toJsons c.roots)),
    ("root_initial", c.initial.toJson),
    ("nested_initials", Initials.toJson c.nested),
    ("defaulted_initials", .list NodeId.toJson c.defaulted),
    ("regions", .list Region.toJson c.regions),
    ("transitions", .list Transition.toJson c.transitions),
    ("final_states", .list NodeId.toJson c.finals),
    ("state_annotations", .list Remark.toJson c.remarks),
    ("direction", .optional (fun d => .string d.name) c.direction)]

end Statechart
