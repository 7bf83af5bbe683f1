import Statechart.Chart.Parse
import Statechart.Config
import Statechart.Dot.Markers

namespace Statechart

inductive Stage where
  | scan
  | scope
  | resolve
  | history
  | assemble
  | layout
  | markers
  deriving DecidableEq, Repr

namespace Stage

/-- In the order in which they are gone through. -/
def all : List Stage :=
  [scan, scope, resolve, history, assemble, layout, markers]

def name : Stage → String
  | scan => "scan"
  | scope => "scope"
  | resolve => "resolve"
  | history => "history"
  | assemble => "assemble"
  | layout => "layout"
  | markers => "markers"

def isReading : Stage → Bool
  | layout | markers => false
  | _ => true

end Stage

structure Layout where
  name : String
  draw : Chart → Style → Except RenderCause String

namespace Layout

def dot : Layout where
  name := "dot"
  draw c style := .ok (Dot.layout c style)

def constant (name text : String) : Layout where
  name := name
  draw _ _ := .ok text

def refusing (name reason : String) : Layout where
  name := name
  draw _ _ := .error (.refused reason)

end Layout

structure Rendered where
  dot : String
  config : Config
  deriving Repr

structure Renderer where
  fallback : Fallback := .firstChild
  style : Style := {}
  layout : Layout := .dot

namespace Renderer

def parse (r : Renderer) (input : String) : Except Fault Chart :=
  Chart.parse r.fallback input

/-- The graph without markers. -/
def draw (r : Renderer) (c : Chart) : Except Fault String :=
  (r.layout.draw c r.style).mapError .render

def mark (dot : String) (c : Chart) : Except Fault String :=
  (Dot.mark dot c).mapError .render

def render (r : Renderer) (c : Chart) : Except Fault Rendered := do
  let graph ← r.draw c
  let dot ← mark graph c
  return ⟨dot, Config.ofChart c⟩

def run (r : Renderer) (input : String) : Except Fault Rendered := do
  let c ← r.parse input
  r.render c

end Renderer

end Statechart
