import Statechart.Block
import Statechart.Place
import Statechart.FlatChart

namespace Statechart

structure Binding where
  place : Place
  name : String
  kind : StateKind
  label : Option String
  line : Nat
  deriving DecidableEq, Repr

namespace Binding

def id (e : Binding) : NodeId :=
  .child e.place.id? e.name

def isAt (p : Place) (name : String) (e : Binding) : Bool :=
  e.place = p && e.name = name

def seenAt (line : Nat) (e : Binding) : Binding :=
  { e with line := min e.line line }

def toState (e : Binding) : State where
  name := e.name
  id := e.id
  parent := e.place.owner?
  region := e.place.region?
  kind := e.kind
  label := e.label
  line := e.line

end Binding

namespace Bindings

def update (es : List Binding) (p : Place) (name : String) (f : Binding → Binding) : List Binding :=
  es.map fun e => if e.isAt p name then f e else e

def find? (es : List Binding) (p : Place) (name : String) : Option Binding :=
  es.find? (Binding.isAt p name)

def merge (kind : StateKind) (label : Option String) (line : Nat) (e : Binding) : Binding :=
  { e with
    kind := if kind.nests then kind else e.kind
    label := label.or e.label
    line := min e.line line }

/-- Declares a name at a place. A name has one body at most. -/
def declare (es : List Binding) (p : Place) (name : String) (kind : StateKind)
    (label : Option String) (line : Nat) (text : String) : Except Fault (List Binding) :=
  match find? es p name with
  | none => .ok (es ++ [⟨p, name, kind, label, line⟩])
  | some e =>
    if kind.nests && e.kind.nests then .error (.structural (.secondBody name) line 1 text)
    else .ok (update es p name (merge kind label line))

end Bindings

structure Registry where
  bindings : List Binding
  regions : List RegionSlot
  initials : List Initial
  references : List (Place × Located Clause)
  deriving DecidableEq, Repr

namespace Registry

def empty : Registry where
  bindings := []
  regions := []
  initials := []
  references := []

def declare (r : Registry) (p : Place) (name : String) (kind : StateKind) (label : Option String)
    (line : Nat) (text : String) : Except Fault Registry :=
  match Bindings.declare r.bindings p name kind label line text with
  | .error f => .error f
  | .ok es => .ok { r with bindings := es }

/-- The target of an arrow from `[*]` is declared where the arrow stands. -/
def addClause (p : Place) (c : Located Clause) (r : Registry) : Except Fault Registry :=
  match c.item with
  | .declare name label => r.declare p name .simple label c.line c.text
  | .initial target =>
    match r.declare p target .simple none c.line c.text with
    | .error f => .error f
    | .ok r =>
      .ok { r with initials := r.initials ++ [⟨p.scope, .child p.id? target, c.line⟩] }
  | _ => .ok { r with references := r.references ++ [(p, c)] }

def addRegion (owner : NodeId) (index : Nat) (r : Registry) : Registry :=
  { r with regions := r.regions ++ [⟨owner, index, regionId owner index⟩] }

mutual

def addItem (p : Place) (r : Registry) : Item → Except Fault Registry
  | .clause c => r.addClause p c
  | .composite head first more =>
    match r.declare p head.item.name (kindOfBody more) head.item.label head.line head.text with
    | .error f => .error f
    | .ok r =>
      match more with
      | [] => addBlock (.body head.item.name :: p) r first
      | b :: bs =>
        let owner := NodeId.child p.id? head.item.name
        match addBlock (.region head.item.name 0 :: p) (r.addRegion owner 0) first with
        | .error f => .error f
        | .ok r => addRegions p head.item.name 1 r (b :: bs)

def addBlock (p : Place) (r : Registry) : List Item → Except Fault Registry
  | [] => .ok r
  | i :: is =>
    match addItem p r i with
    | .error f => .error f
    | .ok r => addBlock p r is

def addRegions (p : Place) (name : String) (index : Nat) (r : Registry) :
    List (List Item) → Except Fault Registry
  | [] => .ok r
  | b :: bs =>
    match
      addBlock (.region name index :: p) (r.addRegion (.child p.id? name) index) b with
    | .error f => .error f
    | .ok r => addRegions p name (index + 1) r bs

end

def ofBlock (b : Block) : Except Fault Registry :=
  addBlock [] empty b

end Registry

end Statechart
