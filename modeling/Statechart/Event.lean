import Statechart.Direction
import Statechart.Statement.Grammar
import Statechart.Text.Blank

/-!
The lines of a chart's text as events. Every line is an event of its own, except blank lines,
comments and the header, which say nothing, and the lines of a note block, which are one event
together.
-/

namespace Statechart

structure Located (α : Type) where
  item : α
  line : Nat
  text : String
  deriving DecidableEq, Repr

def Located.fault {α : Type} (a : Located α) (cause : StructureCause) : Fault :=
  .structural cause a.line 1 a.text

inductive Clause where
  | declare (name : String) (label : Option String)
  | initial (target : String)
  | final (source : String)
  | transition (source target : String) (label : Option String)
  | description (name text : String)
  | note (name : String) (side : NoteSide) (text : String)
  deriving DecidableEq, Repr

structure Opening where
  name : String
  label : Option String
  deriving DecidableEq, Repr

inductive Event where
  | direction (d : Direction)
  | opening (o : Opening)
  | close
  | separator
  | clause (c : Clause)
  deriving DecidableEq, Repr

structure OpenNote where
  name : String
  side : NoteSide
  body : List String
  deriving DecidableEq, Repr

def OpenNote.extend (n : OpenNote) (line : String) : OpenNote :=
  { n with body := n.body ++ [line] }

namespace Event

/-- What a statement is as an event, or the note block that it opens. The label of an arrow from
    `[*]` is dropped. -/
def ofStatement : Statement → Except StructureCause (Event ⊕ OpenNote)
  | .direction code =>
    match Direction.ofCode? code with
    | some d => .ok (.inl (.direction d))
    | none => .error (.unknownDirection code)
  | .state name label opens =>
    .ok (.inl (if opens then .opening ⟨name, label⟩ else .clause (.declare name label)))
  | .close => .ok (.inl .close)
  | .separator => .ok (.inl .separator)
  | .transition .pseudo .pseudo _ => .error .pseudoToPseudo
  | .transition .pseudo (.named target) _ => .ok (.inl (.clause (.initial target)))
  | .transition (.named source) .pseudo _ => .ok (.inl (.clause (.final source)))
  | .transition (.named source) (.named target) label =>
    .ok (.inl (.clause (.transition source target label)))
  | .description name text => .ok (.inl (.clause (.description name text)))
  | .note side name (some text) => .ok (.inl (.clause (.note name side text)))
  | .note side name none => .ok (.inr ⟨name, side, []⟩)

def isComment (cs : List Char) : Bool :=
  "%%".toList.isPrefixOf cs

def isHeader (cs : List Char) : Bool :=
  "statediagram".toList.isPrefixOf (cs.map Char.toLower)

def isSilent (text : String) : Bool :=
  text.toList.isEmpty || isComment text.toList || isHeader text.toList

def isNoteEnd (text : String) : Bool :=
  text.toList.map Char.toLower = "end note".toList

def read (text : String) (line : Nat) : Except Fault (Event ⊕ OpenNote) :=
  match Statement.parse text line with
  | .error f => .error f
  | .ok s =>
    match ofStatement s with
    | .error cause => .error (.structural cause line 1 text)
    | .ok r => .ok r

def ofNote (n : OpenNote) : Event :=
  .clause (.note n.name n.side (Text.joined "\n" n.body))

/-- The events of the trimmed lines from number `line` on, inside the given note block if there is
    one. -/
def ofLines : Nat → Option (Located OpenNote) → List String → Except Fault (List (Located Event))
  | _, none, [] => .ok []
  | _, some n, [] => .error (n.fault (.openNote n.item.name))
  | line, some n, text :: rest =>
    if isNoteEnd text then
      match ofLines (line + 1) none rest with
      | .error f => .error f
      | .ok es => .ok (⟨ofNote n.item, n.line, n.text⟩ :: es)
    else
      ofLines (line + 1) (some { n with item := n.item.extend text }) rest
  | line, none, text :: rest =>
    if isSilent text then ofLines (line + 1) none rest
    else
      match read text line with
      | .error f => .error f
      | .ok (.inr n) => ofLines (line + 1) (some ⟨n, line, text⟩) rest
      | .ok (.inl e) =>
        match ofLines (line + 1) none rest with
        | .error f => .error f
        | .ok es => .ok (⟨e, line, text⟩ :: es)

def scan (input : String) : Except Fault (List (Located Event)) :=
  ofLines 1 none ((Text.linesOf input).map Text.trimmed)

end Event

end Statechart
