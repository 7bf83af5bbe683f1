import Statechart.State

/-!
Lexical places: where in the nesting of bodies a line stands. A place is written from the inside
out, so the places around it are its tails.
-/

namespace Statechart

inductive Enclosure where
  | body (name : String)
  | region (name : String) (index : Nat)
  deriving DecidableEq, Repr

abbrev Place := List Enclosure

namespace Place

def id? : Place → Option NodeId
  | [] => none
  | .body name :: p => some (.child (id? p) name)
  | .region name index :: p => some (regionId (.child (id? p) name) index)

def owner? : Place → Option NodeId
  | [] => none
  | .body name :: p => some (.child (id? p) name)
  | .region name _ :: p => some (.child (id? p) name)

def region? : Place → Option Nat
  | .region _ index :: _ => some index
  | _ => none

def scope : Place → Scope
  | [] => .top
  | .body name :: p => .composite (.child (id? p) name)
  | .region name index :: p => .region (.child (id? p) name) index

/-- A place and those around it, from the inside out. -/
def outward : Place → List Place
  | [] => [[]]
  | e :: p => (e :: p) :: outward p

def within (p q : Place) : Bool :=
  q ∈ outward p

theorem mem_outward_iff {p q : Place} : q ∈ outward p ↔ q <:+ p := by
  induction p with
  | nil => simp [outward]
  | cons e p ih => simp [outward, ih, List.suffix_cons_iff]

end Place

end Statechart
