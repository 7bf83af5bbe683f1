import Statechart.State
import Statechart.Statement.Miss

namespace Statechart

inductive StructureCause where
  | unsupported (found : Option Char) (expected : List Expectation)
  | unknownDirection (code : String)
  | pseudoToPseudo
  | openNote (name : String)
  | strayClose
  | straySeparator
  | openState (name : String)
  | secondBody (name : String)
  | ambiguousName (name : String) (ids : List NodeId)
  | undeclaredNote (name : String)
  deriving DecidableEq, Repr

inductive HistoryCause where
  | noPhrase
  | unknownName (name : String)
  | notComposite (id : NodeId)
  | severalStates (name : String) (ids : List NodeId)
  | concurrent (id : NodeId)
  | noteInside (note composite : NodeId)
  | nameTaken (id : NodeId) (kind : StateKind)
  /-- Without a source: no transition from outside. -/
  | noTransition (source : Option NodeId) (composite : NodeId)
  deriving DecidableEq, Repr

inductive Defect where
  | duplicateId (id : NodeId)
  | unknownEndpoint (line : Nat) (id : NodeId)
  | historyFromInside (line : Nat) (history owner : NodeId)
  | noTopInitial
  | manyTopInitials (lines : List Nat)
  | noInitial (composite : NodeId)
  | manyInitials (composite : NodeId) (lines : List Nat)
  | fewRegions (owner : NodeId) (count : Nat)
  | noRegionInitial (owner : NodeId) (index : Nat)
  | manyRegionInitials (owner : NodeId) (index : Nat) (lines : List Nat)
  | unknownParent (id parent : NodeId)
  | leafParent (id parent : NodeId) (kind : StateKind)
  | cycle (id : NodeId)
  | noRegion (id owner : NodeId)
  | miscount (nodes distinct states : Nat)
  deriving DecidableEq, Repr

inductive RenderCause where
  | noHeader
  | noCluster (scope : NodeId)
  | refused (reason : String)
  deriving DecidableEq, Repr

inductive Fault where
  | structural (cause : StructureCause) (line column : Nat) (text : String)
  | history (cause : HistoryCause) (state : NodeId) (line : Nat) (text : String)
  | invalid (defect : Defect)
  | render (cause : RenderCause)
  deriving DecidableEq, Repr

def NodeId.quoted (a : NodeId) : String :=
  s!"`{a.path}`"

def choices (ids : List NodeId) : String :=
  Text.joined " or " (ids.map NodeId.quoted)

def lineList (lines : List Nat) : String :=
  Text.joined ", " (lines.map toString)

namespace StructureCause

def message : StructureCause → String
  | unsupported found expected =>
    let f := (found.map fun c => s!"'{c}'").getD "end of input"
    let e := Furthest.alternatives (expected.map Expectation.text)
    s!"unsupported statement (found {f} expected {e})"
  | unknownDirection code => s!"unknown direction `{code}`"
  | pseudoToPseudo => "`[*] --> [*]` connects two pseudostates"
  | openNote name => s!"note on `{name}` is missing `end note`"
  | strayClose => "unbalanced `\x7d` with no open composite state"
  | straySeparator => "region separator `--` outside a composite state"
  | openState name => s!"unbalanced `\x7b`: composite state `{name}` is never closed"
  | secondBody name => s!"composite state `{name}` is given a body twice"
  | ambiguousName name ids => s!"ambiguous reference `{name}` could mean {choices ids}"
  | undeclaredNote name => s!"note attached to undeclared state `{name}`"

end StructureCause

namespace HistoryCause

def message : HistoryCause → String
  | noPhrase =>
    "mentions history without naming a composite, e.g. \"returns to <Composite> history state\""
  | unknownName name => s!"no state named `{name}`"
  | notComposite id => s!"{id.quoted} is not a composite state"
  | severalStates name ids => s!"`{name}` could mean {choices ids}"
  | concurrent id =>
    s!"{id.quoted} is a concurrent state; history is only supported on composites"
  | noteInside note composite =>
    s!"{note.quoted} lies inside {composite.quoted} and cannot re-enter its history"
  | nameTaken id kind => s!"{id.quoted} is already a {kind.word} state, not a history pseudostate"
  | noTransition source composite =>
    let origin := (source.map NodeId.quoted).getD "outside"
    s!"no transition from {origin} into {composite.quoted} to re-target"

end HistoryCause

namespace Defect

def message : Defect → String
  | duplicateId id => s!"duplicate scoped id {id.quoted}"
  | unknownEndpoint line id => s!"transition at line {line} refers to unresolved state {id.quoted}"
  | historyFromInside line history owner =>
    s!"transition at line {line} targets {history.quoted} from inside {owner.quoted}"
  | noTopInitial => "no top-level initial state; add `[*] --> <State>`"
  | manyTopInitials lines =>
    s!"{lines.length} top-level initial states (lines {lineList lines}); exactly one is allowed"
  | noInitial composite =>
    s!"composite state {composite.quoted} has children but no initial state `[*] --> ...`"
  | manyInitials composite lines =>
    s!"composite state {composite.quoted} declares {lines.length} initial states " ++
      s!"(lines {lineList lines})"
  | fewRegions owner count =>
    s!"concurrent state {owner.quoted} has {count} region(s); at least 2 are required"
  | noRegionInitial owner index =>
    s!"region `{regionName index}` of concurrent state {owner.quoted} has no initial state " ++
      "`[*] --> ...`"
  | manyRegionInitials owner index lines =>
    s!"region `{regionName index}` of concurrent state {owner.quoted} declares " ++
      s!"{lines.length} initial states (lines {lineList lines})"
  | unknownParent id parent => s!"state {id.quoted} names unknown parent {parent.quoted}"
  | leafParent id parent kind =>
    s!"state {id.quoted} is nested under {kind.word} state {parent.quoted}"
  | cycle id => s!"cyclic hierarchy through {id.quoted}"
  | noRegion id owner =>
    s!"state {id.quoted} of concurrent state {owner.quoted} belongs to no region"
  | miscount nodes distinct states =>
    s!"nested tree holds {nodes} entries ({distinct} distinct) for {states} states"

end Defect

namespace RenderCause

def message : RenderCause → String
  | noHeader => "graph body has no `digraph` header"
  | noCluster scope => s!"no cluster for {scope.quoted} in the graph body"
  | refused reason => reason

end RenderCause

namespace Fault

def message : Fault → String
  | structural cause line column text =>
    s!"Structural parse error at line {line}, column {column}: {cause.message} (`{text}`)"
  | history cause state line text =>
    s!"Ambiguous history note on {state.quoted} at line {line}: {cause.message} (`{text}`)"
  | invalid defect => s!"Validation error: {defect.message}"
  | render cause => s!"Render error: {cause.message}"

def line? : Fault → Option Nat
  | structural _ line _ _ | history _ _ line _ => some line
  | invalid _ | render _ => none

end Fault

end Statechart
