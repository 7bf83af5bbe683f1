import Statechart.Fault
import Statechart.Node

/-!
Nesting: from the flat list of states, in which each names its parent, to the tree. Children stay in
the order of the list, and regions are in the order of their index.
-/

namespace Statechart

/-- The initial child of each composite and region, in the order of their ids. -/
abbrev Initials := List (NodeId × NodeId)

namespace Initials

def get? (m : Initials) (scope : NodeId) : Option NodeId :=
  m.lookup scope

def set (scope target : NodeId) : Initials → Initials
  | [] => [(scope, target)]
  | (s, t) :: m =>
    match scope.order s with
    | .lt => (scope, target) :: (s, t) :: m
    | .eq => (scope, target) :: m
    | .gt => (s, t) :: set scope target m

theorem get?_set_self (m : Initials) (scope target : NodeId) :
    (set scope target m).get? scope = some target := by
  induction m with
  | nil => simp [set, get?]
  | cons e m ih =>
    obtain ⟨s, t⟩ := e
    cases h : scope.order s with
    | lt => simp [set, h, get?]
    | eq => simp [set, h, get?]
    | gt =>
      have hs : scope ≠ s := by
        rintro rfl
        simp [NodeId.order] at h
      simpa [set, h, get?, List.lookup_cons, beq_eq_false_iff_ne.2 hs] using ih

theorem get?_set_of_ne {scope other : NodeId} (h : other ≠ scope) (m : Initials) (target : NodeId) :
    (set scope target m).get? other = m.get? other := by
  have ho : (other == scope) = false := beq_eq_false_iff_ne.2 h
  induction m with
  | nil => simp [set, get?, List.lookup_cons, ho]
  | cons e m ih =>
    obtain ⟨s, t⟩ := e
    cases hs : scope.order s with
    | lt => simp [set, hs, get?, List.lookup_cons, ho]
    | eq =>
      obtain rfl := NodeId.eq_of_order_eq hs
      simp [set, hs, get?, List.lookup_cons, ho]
    | gt => cases hb : other == s <;> simp_all [set, get?, List.lookup_cons]

end Initials

/-- The first id that occurs a second time, where those in `seen` have occurred before. -/
def firstRepeat (seen : List NodeId) : List NodeId → Option NodeId
  | [] => none
  | a :: as => if a ∈ seen then some a else firstRepeat (a :: seen) as

namespace Nesting

def find? (ss : List State) (id : NodeId) : Option State :=
  ss.find? fun s => s.id = id

def childrenOf (ss : List State) (id : NodeId) : List State :=
  ss.filter fun s => s.parent = some id

def checkParent (ss : List State) (s : State) : Except Defect Unit :=
  match s.parent with
  | none => .ok ()
  | some p =>
    match find? ss p with
    | none => .error (.unknownParent s.id p)
    | some t => if t.kind.nests then .ok () else .error (.leafParent s.id p t.kind)

def endsWithin (ss : List State) : Nat → State → Bool
  | steps, s =>
    match s.parent with
    | none => true
    | some p =>
      match steps with
      | 0 => false
      | k + 1 =>
        match find? ss p with
        | none => true
        | some t => endsWithin ss k t

def checkDescent (ss : List State) (s : State) : Except Defect Unit :=
  if endsWithin ss ss.length s then .ok () else .error (.cycle s.id)

def insertByIndex (r : RegionSlot) : List RegionSlot → List RegionSlot
  | [] => [r]
  | s :: rs => if r.index ≤ s.index then r :: s :: rs else s :: insertByIndex r rs

def slotsOf (rs : List RegionSlot) (owner : NodeId) : List RegionSlot :=
  (rs.filter fun r => r.owner = owner).foldr insertByIndex []

def isStray (slots : List RegionSlot) (s : State) : Bool :=
  match s.region with
  | none => true
  | some index => !slots.any fun r => r.index = index

def nodeOfSlot (members : List State) (initials : Initials) (node : State → Except Defect Node)
    (r : RegionSlot) : Except Defect Node := do
  let children ← (members.filter fun t => t.region = some r.index).mapM node
  return .region r.id (regionName r.index) (initials.get? r.id) children

/-- The node of a state that has at most `depth` levels below it. -/
def nodeOf (ss : List State) (rs : List RegionSlot) (initials : Initials) :
    Nat → State → Except Defect Node
  | depth, s =>
    match s.kind, depth with
    | .simple, _ => .ok (.simple s.id s.name)
    | .history, _ => .ok (.history s.id s.name)
    | _, 0 => .error (.cycle s.id)
    | .composite, k + 1 => do
      let children ← (childrenOf ss s.id).mapM (nodeOf ss rs initials k)
      return .composite s.id s.name (initials.get? s.id) children
    | .concurrent, k + 1 =>
      let members := childrenOf ss s.id
      let slots := slotsOf rs s.id
      match members.find? (isStray slots) with
      | some t => .error (.noRegion t.id s.id)
      | none => do
        let regions ← slots.mapM (nodeOfSlot members initials (nodeOf ss rs initials k))
        return .concurrent s.id s.name regions

def forest (ss : List State) (rs : List RegionSlot) (initials : Initials) :
    Except Defect (List Node) :=
  match firstRepeat [] (ss.map State.id) with
  | some id => .error (.duplicateId id)
  | none => do
    ss.forM (checkParent ss)
    ss.forM (checkDescent ss)
    (ss.filter fun s => s.parent.isNone).mapM (nodeOf ss rs initials ss.length)

end Nesting

end Statechart
