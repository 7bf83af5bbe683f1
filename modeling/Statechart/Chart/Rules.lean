import Statechart.Advance
import Statechart.Chart
import Statechart.FlatChart

namespace Statechart

/-- What becomes of a composite with children and no arrow to one of them from `[*]`. -/
inductive Fallback where
  | firstChild
  | reject
  deriving DecidableEq, Repr

namespace Rules

def checkIds (f : FlatChart) : Except Defect Unit :=
  match firstRepeat [] (f.states.map State.id) with
  | some id => .error (.duplicateId id)
  | none => .ok ()

def stateAt (f : FlatChart) (line : Nat) (id : NodeId) : Except Defect State :=
  match f.states.find? fun s => s.id = id with
  | some s => .ok s
  | none => .error (.unknownEndpoint line id)

def checkTransition (f : FlatChart) (t : Transition) : Except Defect Unit := do
  let _ ← stateAt f t.line t.source
  let target ← stateAt f t.line t.target
  match target.kind, target.parent with
  | .history, some owner =>
    if t.source.inside owner then .error (.historyFromInside t.line target.id owner) else .ok ()
  | _, _ => .ok ()

def declaredIn (f : FlatChart) (s : Scope) : List Initial :=
  f.initials.filter fun i => i.scope = s

def topInitial (f : FlatChart) : Except Defect NodeId :=
  match declaredIn f .top with
  | [i] => .ok i.target
  | [] => .error .noTopInitial
  | is => .error (.manyTopInitials (is.map Initial.line))

def checkRegions (f : FlatChart) (s : State) : Except Defect Unit :=
  let count := f.regions.countP fun r => r.owner = s.id
  if s.kind = .concurrent ∧ count < 2 then .error (.fewRegions s.id count) else .ok ()

def regionOf (f : FlatChart) (r : RegionSlot) : Except Defect Region :=
  match declaredIn f (.region r.owner r.index) with
  | [i] =>
    .ok {
      owner := r.owner
      index := r.index
      name := regionName r.index
      id := r.id
      initial := i.target
      members := (f.states.filter fun s =>
        s.parent = some r.owner && s.region = some r.index).map State.id }
  | [] => .error (.noRegionInitial r.owner r.index)
  | is => .error (.manyRegionInitials r.owner r.index (is.map Initial.line))

structure Choice where
  nested : Initials
  defaulted : List (NodeId × NodeId)
  deriving DecidableEq, Repr

def firstChild? (f : FlatChart) (id : NodeId) : Option State :=
  f.states.find? fun s => s.parent = some id && s.kind ≠ .history

def chooseInitial (f : FlatChart) (fallback : Fallback) (c : Choice) (s : State) :
    Except Defect Choice :=
  match declaredIn f (.composite s.id) with
  | [i] => .ok { c with nested := c.nested.set s.id i.target }
  | [] =>
    match firstChild? f s.id, fallback with
    | none, _ => .ok c
    | some child, .firstChild =>
      .ok {
        nested := c.nested.set s.id child.id
        defaulted := c.defaulted ++ [(s.id, child.id)] }
    | some _, .reject => .error (.noInitial s.id)
  | is => .error (.manyInitials s.id (is.map Initial.line))

def composites (f : FlatChart) : List State :=
  f.states.filter fun s => s.kind = .composite

def foundation (f : FlatChart) : Except Defect (NodeId × List Region × Choice) := do
  checkIds f
  f.transitions.forM (checkTransition f)
  let top ← topInitial f
  f.states.forM (checkRegions f)
  let regions ← f.regions.mapM (regionOf f)
  let nested := regions.foldl (fun m r => Initials.set r.id r.initial m) []
  return (top, regions, ⟨nested, []⟩)

def checkCount (c : Chart) : Except Defect Chart :=
  let nested := c.treeIds
  let distinct := nested.eraseDups.length
  if nested.length = c.states.length ∧ distinct = nested.length then .ok c
  else .error (.miscount nested.length distinct c.states.length)

def enforce (fallback : Fallback) (f : FlatChart) : Except Defect Chart := do
  let (top, regions, start) ← foundation f
  let choice ← (composites f).foldlM (chooseInitial f fallback) start
  let roots ← Nesting.forest f.states f.regions choice.nested
  checkCount {
    states := f.states
    roots := roots
    initial := top
    nested := choice.nested
    defaulted := choice.defaulted.map Prod.fst
    regions := regions
    transitions := f.transitions
    finals := f.finals
    remarks := f.remarks
    direction := f.direction }

def defaults (fallback : Fallback) (f : FlatChart) : List (NodeId × NodeId) :=
  match foundation f with
  | .error _ => []
  | .ok (_, _, start) => (advance (chooseInitial f fallback) start (composites f)).defaulted

end Rules

end Statechart
