import Statechart.Event

/-!
Nested blocks: the events of a text put into the bodies of the states that they stand in. A body is
cut into regions by its separators, and a state with more than one region is concurrent.
-/

namespace Statechart

inductive Item where
  | clause (c : Located Clause)
  | composite (head : Located Opening) (first : List Item) (more : List (List Item))
  deriving Repr

abbrev Block := List Item

def kindOfBody (more : List Block) : StateKind :=
  if more.isEmpty then .composite else .concurrent

structure BlockTree where
  body : Block
  direction : Option Direction
  deriving Repr

namespace BlockTree

structure OpenBody where
  head : Located Opening
  regions : List Block
  current : Block
  deriving Repr

def OpenBody.close (f : OpenBody) : Item :=
  match f.regions with
  | [] => .composite f.head f.current []
  | r :: rs => .composite f.head r (rs ++ [f.current])

/-- What has been read so far: the open bodies, innermost first, over the top level. -/
structure Progress where
  body : Block
  direction : Option Direction
  stack : List OpenBody
  deriving Repr

def Progress.empty : Progress where
  body := []
  direction := none
  stack := []

def Progress.add (p : Progress) (i : Item) : Progress :=
  match p.stack with
  | [] => { p with body := p.body ++ [i] }
  | f :: fs => { p with stack := { f with current := f.current ++ [i] } :: fs }

/-- Directions count at the top level alone. -/
def Progress.step (p : Progress) (e : Located Event) : Except Fault Progress :=
  match e.item with
  | .clause c => .ok (p.add (.clause ⟨c, e.line, e.text⟩))
  | .opening o => .ok { p with stack := ⟨⟨o, e.line, e.text⟩, [], []⟩ :: p.stack }
  | .separator =>
    match p.stack with
    | [] => .error (e.fault .straySeparator)
    | f :: fs =>
      .ok { p with stack := { f with regions := f.regions ++ [f.current], current := [] } :: fs }
  | .close =>
    match p.stack with
    | [] => .error (e.fault .strayClose)
    | f :: fs => .ok ({ p with stack := fs }.add f.close)
  | .direction d => .ok (if p.stack.isEmpty then { p with direction := some d } else p)

def Progress.finish (p : Progress) : Except Fault BlockTree :=
  match p.stack with
  | [] => .ok ⟨p.body, p.direction⟩
  | f :: _ => .error (f.head.fault (.openState f.head.item.name))

def ofEvents (es : List (Located Event)) : Except Fault BlockTree :=
  match es.foldlM Progress.step .empty with
  | .error f => .error f
  | .ok p => p.finish

end BlockTree

end Statechart
