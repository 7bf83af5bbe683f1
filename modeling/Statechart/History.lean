import Statechart.Advance
import Statechart.Fault
import Statechart.History.Phrase
import Statechart.Remark

/-!
History states. A note that names a composite in a history phrase gives it the state `H`, which
stands for the composite's last active child, and turns the arrows the note is about to `H`.
-/

namespace Statechart.History

def stateName : String := "H"

def idOf (composite : NodeId) : NodeId :=
  .child (some composite) stateName

structure Attachment where
  composite : NodeId
  turned : Nat
  deriving DecidableEq, Repr

structure Outcome where
  states : List State
  transitions : List Transition
  remarks : List Remark
  attachments : List Attachment
  deriving DecidableEq, Repr

def fault (n : Note) (cause : HistoryCause) : Fault :=
  .history cause n.state n.line n.source

/-- Whether a name, which may be a path, is that of a state. -/
def names (name : String) (s : State) : Bool :=
  if '/' ∈ name.toList then s.id.path = name else s.name = name

def isVisibleFrom (n : Note) (s : State) : Bool :=
  match s.parent with
  | none => true
  | some p => n.state = p || n.state.inside p

def named (ss : List State) (name : String) : List State :=
  ss.filter fun s => names name s && s.kind ≠ .history

/-- The one state with children that a name means in a note: the only one of that name, or the only
    one visible from the note's state. -/
def choose (ss : List State) (n : Note) (name : String) : Except HistoryCause State :=
  match named ss name with
  | [] => .error (.unknownName name)
  | s :: rest =>
    match (s :: rest).filter fun t => t.kind.nests with
    | [] => .error (.notComposite s.id)
    | [t] => .ok t
    | ts =>
      match ts.filter (isVisibleFrom n) with
      | [t] => .ok t
      | _ => .error (.severalStates name (ts.map State.id))

def composite (ss : List State) (n : Note) (name : String) : Except HistoryCause NodeId :=
  match choose ss n name with
  | .error c => .error c
  | .ok s =>
    if s.kind = .concurrent then .error (.concurrent s.id)
    else if n.state.inside s.id then .error (.noteInside n.state s.id)
    else .ok s.id

def provide (ss : List State) (composite : NodeId) (line : Nat) :
    Except HistoryCause (List State) :=
  match ss.find? fun s => s.id = idOf composite with
  | none =>
    .ok (ss ++ [{
      name := stateName
      id := idOf composite
      parent := some composite
      region := none
      kind := .history
      label := none
      line := line }])
  | some s =>
    if s.kind = .history then .ok ss else .error (.nameTaken (idOf composite) s.kind)

/-- Whether an arrow goes into the composite from where the note speaks of: from its own state, or
    from anywhere outside if that state is the composite itself. -/
def concerns (n : Note) (composite : NodeId) (t : Transition) : Bool :=
  (t.target = composite || t.target = idOf composite) &&
    if n.state = composite then !t.source.inside composite else t.source = n.state

def turn (n : Note) (composite : NodeId) (t : Transition) : Transition :=
  if concerns n composite t && t.target = composite then { t with target := idOf composite } else t

def redirect (ts : List Transition) (n : Note) (composite : NodeId) :
    Except HistoryCause (List Transition) :=
  if ts.any (concerns n composite) then .ok (ts.map (turn n composite))
  else .error (.noTransition (if n.state = composite then none else some n.state) composite)

def placedLines : Nat → List (List Char) → List (List Char × Text.Span)
  | _, [] => []
  | position, l :: ls =>
    (l, ⟨position, position + l.length⟩) :: placedLines (position + l.length + 1) ls

def freeLines (text : String) : List String :=
  let ps := phrases text
  let lines := (placedLines 0 (Text.split '\n' text.toList)).filter fun l => isOutside ps l.2
  (lines.map fun l => String.ofList (Text.trim l.1)).filter (· ≠ "")

/-- What a note says besides its phrases: lines such as `entry / start` one by one, and then the
    others together. -/
def remarksOf (n : Note) : List Remark :=
  let lines := freeLines n.text
  let typed := (lines.filterMap Remark.ofLine?).map fun r => Remark.mk n.state r.1 r.2 n.line
  match lines.filter fun l => (Remark.ofLine? l).isNone with
  | [] => typed
  | l :: ls => typed ++ [⟨n.state, .note, Text.joined "\n" (l :: ls), n.line⟩]

inductive Task where
  | review (n : Note)
  | attach (n : Note) (name : String)
  | keep (n : Note)
  deriving DecidableEq, Repr

def tasksOf (n : Note) : List Task :=
  .review n :: ((phrases n.text).map fun p => .attach n p.1) ++ [.keep n]

def attach (o : Outcome) (n : Note) (name : String) : Except HistoryCause Outcome :=
  match composite o.states n name with
  | .error c => .error c
  | .ok c =>
    match provide o.states c n.line with
    | .error e => .error e
    | .ok ss =>
      match redirect o.transitions n c with
      | .error e => .error e
      | .ok ts =>
        .ok { o with
          states := ss
          transitions := ts
          attachments := o.attachments ++
            [⟨c, o.transitions.countP fun t => concerns n c t && t.target = c⟩] }

def step (o : Outcome) : Task → Except Fault Outcome
  | .review n => if isVague n.text then .error (fault n .noPhrase) else .ok o
  | .attach n name =>
    match attach o n name with
    | .error c => .error (fault n c)
    | .ok o => .ok o
  | .keep n => .ok { o with remarks := o.remarks ++ remarksOf n }

def start (ss : List State) (ts : List Transition) : Outcome where
  states := ss
  transitions := ts
  remarks := []
  attachments := []

def carryOut (ss : List State) (ts : List Transition) (ns : List Note) : Except Fault Outcome :=
  (ns.flatMap tasksOf).foldlM step (start ss ts)

/-- The attachments made before the first fault, or all of them. -/
def attachments (ss : List State) (ts : List Transition) (ns : List Note) : List Attachment :=
  (advance step (start ss ts) (ns.flatMap tasksOf)).attachments

end Statechart.History
