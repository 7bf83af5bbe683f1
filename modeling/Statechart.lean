import Statechart.Chart.Json
import Statechart.Cli.Memory
import Statechart.Config.Reader
import Statechart.Main
import Statechart.Proofs.Admission
import Statechart.Proofs.Appending
import Statechart.Proofs.Arcs
import Statechart.Proofs.Arrows
import Statechart.Proofs.Balance
import Statechart.Proofs.Brackets
import Statechart.Proofs.Callable
import Statechart.Proofs.Chars
import Statechart.Proofs.Clipping
import Statechart.Proofs.Clusters
import Statechart.Proofs.Config
import Statechart.Proofs.ConfigText
import Statechart.Proofs.Coverage
import Statechart.Proofs.Decoration
import Statechart.Proofs.Descent
import Statechart.Proofs.Drawing
import Statechart.Proofs.Drawn
import Statechart.Proofs.Entry
import Statechart.Proofs.Fallback
import Statechart.Proofs.FaultLines
import Statechart.Proofs.Filling
import Statechart.Proofs.FinalViews
import Statechart.Proofs.FirstMention
import Statechart.Proofs.Forest
import Statechart.Proofs.Grammar
import Statechart.Proofs.Graph
import Statechart.Proofs.History
import Statechart.Proofs.Initials
import Statechart.Proofs.Insertion
import Statechart.Proofs.JsonText
import Statechart.Proofs.KeptLines
import Statechart.Proofs.Labels
import Statechart.Proofs.Layout
import Statechart.Proofs.MarkerNames
import Statechart.Proofs.MarkerPlaces
import Statechart.Proofs.Markers
import Statechart.Proofs.Misses
import Statechart.Proofs.Name
import Statechart.Proofs.NameResolution
import Statechart.Proofs.Nesting
import Statechart.Proofs.NodeId
import Statechart.Proofs.NoteLines
import Statechart.Proofs.NoteOrder
import Statechart.Proofs.Outline
import Statechart.Proofs.Phrase
import Statechart.Proofs.Phrasing
import Statechart.Proofs.Place
import Statechart.Proofs.Progress
import Statechart.Proofs.Quoting
import Statechart.Proofs.Reading
import Statechart.Proofs.Recomposed
import Statechart.Proofs.Registry
import Statechart.Proofs.RelocatedHistory
import Statechart.Proofs.RelocatedNames
import Statechart.Proofs.RelocatedRules
import Statechart.Proofs.RelocatedText
import Statechart.Proofs.Relocation
import Statechart.Proofs.Repetition
import Statechart.Proofs.Resolution
import Statechart.Proofs.Rules
import Statechart.Proofs.Run
import Statechart.Proofs.Scan
import Statechart.Proofs.Segments
import Statechart.Proofs.Sound
import Statechart.Proofs.Spelling
import Statechart.Proofs.Standing
import Statechart.Proofs.Starts
import Statechart.Proofs.TextOrder
import Statechart.Proofs.Trace
import Statechart.Proofs.Tree
import Statechart.Proofs.Viability
import Statechart.Proofs.Views
import Statechart.Proofs.Visibility
import Statechart.Proofs.WellFormed
import Statechart.Proofs.WellNested
import Statechart.Proofs.WholeLines
import Statechart.Proofs.Wrapping
