import Statechart.Text.Lines

namespace Statechart

structure NodeId where
  path : String
  deriving DecidableEq, Repr

namespace NodeId

def separator : Char := '/'

def child : Option NodeId → String → NodeId
  | some p, name => ⟨p.path ++ String.singleton separator ++ name⟩
  | none, name => ⟨name⟩

def segments (a : NodeId) : List String :=
  (Text.split separator a.path.toList).map String.ofList

def baseName (a : NodeId) : String :=
  a.segments.getLast?.getD ""

def parent? (a : NodeId) : Option NodeId :=
  match (Text.split separator a.path.toList).dropLast with
  | [] => none
  | ps => some ⟨String.ofList (Text.join separator ps)⟩

def depth (a : NodeId) : Nat :=
  a.segments.length

/-- Strictly inside, by whole segments: `On/Idle` is inside `On`, `Online` is not. -/
def inside (a b : NodeId) : Bool :=
  (b.path.toList ++ [separator]).isPrefixOf a.path.toList

/-- Ids are ordered by the code points of their paths. -/
def order (a b : NodeId) : Ordering :=
  if a.path < b.path then .lt else if a = b then .eq else .gt

theorem eq_of_order_eq {a b : NodeId} (h : order a b = .eq) : a = b := by
  unfold order at h
  split at h
  · cases h
  · split at h
    · assumption
    · cases h

theorem child_none (name : String) : child none name = ⟨name⟩ := rfl

theorem toList_path_child_some (p : NodeId) (name : String) :
    (child (some p) name).path.toList = p.path.toList ++ separator :: name.toList := by
  simp [child]

theorem segments_ne_nil (a : NodeId) : a.segments ≠ [] := by
  simp [segments, Text.split_ne_nil]

end NodeId

end Statechart
