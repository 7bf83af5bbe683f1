import Statechart.Config
import Statechart.Json.Reader

/-!
Reading machine configurations from JSON. Fields may come in any order, those of no meaning are
passed over, and one that has a meaning may not come twice.
-/

namespace Statechart

/-- Levels of brackets that a value read as a whole may have. -/
def Config.maxDepth : Nat := 127

namespace Fields

def all (key : String) (fields : List (String × Json.Value)) : List Json.Value :=
  (fields.filter fun f => f.1 = key).map Prod.snd

def areSingle (keys : List String) (fields : List (String × Json.Value)) : Bool :=
  keys.all fun k => (all k fields).length ≤ 1

def get? (key : String) (fields : List (String × Json.Value)) : Option Json.Value :=
  fields.lookup key

def string? : Json.Value → Option String
  | .string s => some s
  | _ => none

def optionalString? : Json.Value → Option (Option String)
  | .null => some none
  | .string s => some (some s)
  | _ => none

def strings? : Json.Value → Option (List String)
  | .array vs => vs.mapM string?
  | _ => none

def optionalStrings? : Json.Value → Option (Option (List String))
  | .null => some none
  | v => (strings? v).map some

def optional {α : Type} (read : Json.Value → Option (Option α)) (key : String)
    (fields : List (String × Json.Value)) : Option (Option α) :=
  match get? key fields with
  | none => some none
  | some v => read v

end Fields

namespace ConfigNode

open Fields

/-- A state as a composite: a name, children, and perhaps an initial state. `children?` is what the
    field of children was read as. -/
def composite? (fields : List (String × Json.Value)) (children? : Option (List ConfigNode)) :
    Option ConfigNode := do
  guard (areSingle ["name", "children", "initial"] fields)
  let n ← (get? "name" fields).bind string?
  let initial ← optional optionalString? "initial" fields
  return .composite n (← children?) initial

def parallel? (fields : List (String × Json.Value)) (regions? : Option (List ConfigNode)) :
    Option ConfigNode := do
  guard (areSingle ["name", "parallel"] fields)
  let n ← (get? "name" fields).bind string?
  return .parallel n (← regions?)

mutual

def ofJson? : Json.Value → Option ConfigNode
  | .string s => some (.name s)
  | .object fields =>
    match composite? fields (listUnder "children" fields) with
    | some s => some s
    | none => parallel? fields (listUnder "parallel" fields)
  | _ => none

def ofJsons? : List Json.Value → Option (List ConfigNode)
  | [] => some []
  | v :: vs =>
    match ofJson? v, ofJsons? vs with
    | some s, some ss => some (s :: ss)
    | _, _ => none

def listUnder (key : String) : List (String × Json.Value) → Option (List ConfigNode)
  | [] => none
  | (k, v) :: fields =>
    if k = key then
      match v with
      | .array vs => ofJsons? vs
      | _ => none
    else listUnder key fields

end

/-- A state that is read at a place where `depth` levels of brackets are left. -/
def read? (depth : Nat) (v : Json.Value) : Option ConfigNode :=
  if v.isSound depth then ofJson? v else none

def ofText? (text : String) : Option ConfigNode :=
  (Json.read? text).bind (read? Config.maxDepth)

end ConfigNode

namespace ConfigArrow

open Fields

def ofFields? (fields : List (String × Json.Value)) : Option ConfigArrow := do
  guard (areSingle ["trigger", "source", "dest", "conditions", "before"] fields)
  return {
    trigger := ← optional optionalString? "trigger" fields
    source := ← (get? "source" fields).bind string?
    target := ← (get? "dest" fields).bind string?
    conditions := ← optional optionalStrings? "conditions" fields
    before := ← optional optionalString? "before" fields }

/-- The fields may stand in a list in their order, the last two or the last one left out. -/
def ofList? : List Json.Value → Option ConfigArrow
  | [t, s, d] => do return ⟨← optionalString? t, ← string? s, ← string? d, none, none⟩
  | [t, s, d, c] => do
    return ⟨← optionalString? t, ← string? s, ← string? d, ← optionalStrings? c, none⟩
  | [t, s, d, c, b] => do
    return ⟨← optionalString? t, ← string? s, ← string? d, ← optionalStrings? c,
      ← optionalString? b⟩
  | _ => none

def ofJson? : Json.Value → Option ConfigArrow
  | .object fields => ofFields? fields
  | .array vs => ofList? vs
  | _ => none

end ConfigArrow

namespace Config

open Fields

def states? : Json.Value → Option (List ConfigNode)
  | .array vs => vs.mapM (ConfigNode.read? (maxDepth - 2))
  | _ => none

def transitions? : Json.Value → Option (List ConfigArrow)
  | .array vs => vs.mapM ConfigArrow.ofJson?
  | _ => none

def finals? (fields : List (String × Json.Value)) : Option (List String) :=
  match get? "final_states" fields with
  | none => some []
  | some v => strings? v

def ofFields? (fields : List (String × Json.Value)) : Option Config := do
  guard (areSingle ["states", "transitions", "initial", "final_states"] fields)
  return {
    states := ← (get? "states" fields).bind states?
    transitions := ← (get? "transitions" fields).bind transitions?
    initial := ← (get? "initial" fields).bind string?
    finals := ← finals? fields }

def ofList? : List Json.Value → Option Config
  | [s, t, i] => do return ⟨← states? s, ← transitions? t, ← string? i, []⟩
  | [s, t, i, f] => do return ⟨← states? s, ← transitions? t, ← string? i, ← strings? f⟩
  | _ => none

def ofJson? : Json.Value → Option Config
  | .object fields => ofFields? fields
  | .array vs => ofList? vs
  | _ => none

def ofText? (text : String) : Option Config :=
  (Json.read? text).bind ofJson?

end Config

end Statechart
