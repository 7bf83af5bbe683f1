import Statechart.FlatChart.Registry

/-!
What the names in arrows, descriptions and notes refer to. A name means the nearest one declared on
the way out to the top level; failing that, the only one declared further inside; failing that, a
new state where the line stands. A note never makes a new state.
-/

namespace Statechart

namespace Bindings

def inside (es : List Binding) (p : Place) (name : String) : List Binding :=
  es.filter fun e => e.name = name && e.place.within p

def lookup (es : List Binding) (p : Place) (name : String) :
    Except (List NodeId) (Option Binding) :=
  match p.outward.findSome? fun q => find? es q name with
  | some e => .ok (some e)
  | none =>
    match inside es p name with
    | [] => .ok none
    | [e] => .ok (some e)
    | cs => .error (cs.map Binding.id)

/-- The line on which a name is mentioned counts for the state it means. -/
def mention (es : List Binding) (e : Binding) (line : Nat) : List Binding :=
  update es e.place e.name (Binding.seenAt line)

def refer (es : List Binding) (p : Place) (name : String) (c : Located Clause) :
    Except Fault (List Binding × NodeId) :=
  match lookup es p name with
  | .error ids => .error (c.fault (.ambiguousName name ids))
  | .ok (some e) => .ok (mention es e c.line, e.id)
  | .ok none => .ok (es ++ [⟨p, name, .simple, none, c.line⟩], .child p.id? name)

def insertByLine (e : Binding) : List Binding → List Binding
  | [] => [e]
  | d :: es => if e.line ≤ d.line then e :: d :: es else d :: insertByLine e es

/-- The bindings by line; those of one line stay in order. -/
def sortByLine (es : List Binding) : List Binding :=
  es.foldr insertByLine []

theorem insertByLine_perm (e : Binding) (es : List Binding) :
    (insertByLine e es).Perm (e :: es) := by
  induction es with
  | nil => exact .refl _
  | cons d es ih =>
    unfold insertByLine
    split
    · exact .refl _
    · exact (ih.cons d).trans (.swap e d es)

theorem sortByLine_perm (es : List Binding) : (sortByLine es).Perm es := by
  induction es with
  | nil => exact .refl _
  | cons e es ih => exact (insertByLine_perm e _).trans (ih.cons e)

end Bindings

structure Resolution where
  bindings : List Binding
  transitions : List Transition
  finals : List NodeId
  remarks : List Remark
  notes : List Note
  deriving DecidableEq, Repr

namespace Resolution

def start (es : List Binding) : Resolution where
  bindings := es
  transitions := []
  finals := []
  remarks := []
  notes := []

def addTransition (r : Resolution) (p : Place) (c : Located Clause) (source target : String)
    (label : Option String) : Except Fault Resolution :=
  match Bindings.refer r.bindings p source c with
  | .error f => .error f
  | .ok (es, s) =>
    match Bindings.refer es p target c with
    | .error f => .error f
    | .ok (es, t) =>
      .ok { r with
        bindings := es
        transitions := r.transitions ++ [⟨s, t, Label.ofText? label, c.line⟩] }

def addFinal (r : Resolution) (p : Place) (c : Located Clause) (source : String) :
    Except Fault Resolution :=
  match Bindings.refer r.bindings p source c with
  | .error f => .error f
  | .ok (es, s) =>
    .ok { r with
      bindings := es
      finals := if s ∈ r.finals then r.finals else r.finals ++ [s] }

def addDescription (r : Resolution) (p : Place) (c : Located Clause) (name text : String) :
    Except Fault Resolution :=
  match Bindings.refer r.bindings p name c with
  | .error f => .error f
  | .ok (es, s) =>
    let (kind, body) := (Remark.ofLine? text).getD (.description, text)
    .ok { r with
      bindings := es
      remarks := r.remarks ++ [⟨s, kind, body, c.line⟩] }

def step (r : Resolution) (ref : Place × Located Clause) : Except Fault Resolution :=
  match ref.2.item with
  | .transition source target label => r.addTransition ref.1 ref.2 source target label
  | .final source => r.addFinal ref.1 ref.2 source
  | .description name text => r.addDescription ref.1 ref.2 name text
  | .declare _ _ | .initial _ | .note _ _ _ => .ok r

/-- Resolves a note, when all other lines have been. -/
def stepNote (r : Resolution) (ref : Place × Located Clause) : Except Fault Resolution :=
  match ref.2.item with
  | .note name side text =>
    match Bindings.lookup r.bindings ref.1 name with
    | .error ids => .error (ref.2.fault (.ambiguousName name ids))
    | .ok none => .error (ref.2.fault (.undeclaredNote name))
    | .ok (some e) =>
      .ok { r with
        bindings := Bindings.mention r.bindings e ref.2.line
        notes := r.notes ++ [⟨e.id, side, text, ref.2.line, ref.2.text⟩] }
  | _ => .ok r

def ofRegistry (r : Registry) : Except Fault Resolution :=
  match r.references.foldlM step (start r.bindings) with
  | .error f => .error f
  | .ok s => r.references.foldlM stepNote s

end Resolution

def FlatChart.ofBlocks (t : BlockTree) : Except Fault FlatChart :=
  match Registry.ofBlock t.body with
  | .error f => .error f
  | .ok r =>
    match Resolution.ofRegistry r with
    | .error f => .error f
    | .ok s =>
      .ok {
        states := (Bindings.sortByLine s.bindings).map Binding.toState
        regions := r.regions
        transitions := s.transitions
        initials := r.initials
        finals := s.finals
        notes := s.notes
        remarks := s.remarks
        direction := t.direction }

end Statechart
