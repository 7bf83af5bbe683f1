import Mathlib
import Statechart.Proofs.Entry

/-!
Where each line of a text stands, read off the events alone: the bodies that are open around it, and
in each of them the region it has come to, if a separator ever cuts that body. The tree of blocks
puts every line in that place, keeps the lines in order and loses none.
-/

namespace Statechart

namespace Event

/-- Whether a separator still comes in a body in which `depth` further bodies are open. -/
def splits : Nat → List (Located Event) → Bool
  | _, [] => false
  | depth, e :: es =>
    match e.item, depth with
    | .opening _, _ => splits (depth + 1) es
    | .close, 0 => false
    | .close, k + 1 => splits k es
    | .separator, 0 => true
    | .separator, k + 1 => splits (k + 1) es
    | .clause _, _ | .direction _, _ => splits depth es

def clause? (e : Located Event) : Option (Located Clause) :=
  match e.item with
  | .clause c => some ⟨c, e.line, e.text⟩
  | _ => none

end Event

namespace Place

def advance : Place → Place
  | .region name index :: p => .region name (index + 1) :: p
  | p => p

end Place

/-- The lines that say something about the scope they stand in, each with its place, where the
    first of the events stands in `p`. -/
def standings : Place → List (Located Event) → List (Place × Located Clause)
  | _, [] => []
  | p, e :: es =>
    match e.item with
    | .clause c => (p, ⟨c, e.line, e.text⟩) :: standings p es
    | .opening o =>
      standings ((if Event.splits 0 es then .region o.name 0 else .body o.name) :: p) es
    | .separator => standings p.advance es
    | .close => standings p.tail es
    | .direction _ => standings p es

theorem map_snd_standings (p : Place) (es : List (Located Event)) :
    (standings p es).map Prod.snd = es.filterMap Event.clause? := by
  induction es generalizing p with
  | nil => rfl
  | cons e es ih =>
    cases hi : e.item with
    | clause c => simp [standings, hi, Event.clause?, ih]
    | opening | close | separator | direction => simp [standings, hi, Event.clause?, ih]

def Entry.clause? : Entry → Option (Place × Located Clause)
  | clause p c => some (p, c)
  | head _ _ _ | region _ _ _ => none

abbrev clausesOf (p : Place) (b : Block) : List (Place × Located Clause) :=
  (entriesOf p b).filterMap Entry.clause?

theorem clausesOf_concat (p : Place) (b : Block) (i : Item) :
    clausesOf p (b ++ [i]) = clausesOf p b ++ clausesOf p [i] := by
  rw [clausesOf, entriesOf_append, List.filterMap_append]

namespace BlockTree

/-- The scope that a body holds open, when `more` says whether it is still to be cut. -/
def OpenBody.enclosure (f : OpenBody) (more : Bool) : Enclosure :=
  if f.regions = [] ∧ more = false then .body f.head.item.name
  else .region f.head.item.name f.regions.length

def OpenBody.clauses (p : Place) (more : Bool) (f : OpenBody) : List (Place × Located Clause) :=
  if f.regions = [] ∧ more = false then clausesOf (.body f.head.item.name :: p) f.current
  else (entriesOfRegions p f.head.item.name 0 (f.regions ++ [f.current])).filterMap Entry.clause?

theorem clauses_regions_concat (p : Place) (name : String) (bs : List Block) (b : Block) :
    (entriesOfRegions p name 0 (bs ++ [b])).filterMap Entry.clause? =
      (entriesOfRegions p name 0 bs).filterMap Entry.clause? ++
        clausesOf (.region name bs.length :: p) b := by
  simp [entriesOfRegions_eq, List.zipIdx_append, List.filterMap_cons, Entry.clause?]

theorem entries_concurrent (p : Place) (head : Located Opening) (first : Block) {more : List Block}
    (h : more ≠ []) : Item.entries p (.composite head first more) =
      .head p head .concurrent :: entriesOfRegions p head.item.name 0 (first :: more) := by
  cases more with
  | nil => exact absurd rfl h
  | cons b bs => rfl

namespace OpenBody

variable {f : OpenBody} {p : Place} {more : Bool}

theorem clauses_add (f : OpenBody) (p : Place) (more : Bool) (i : Item) :
    { f with current := f.current ++ [i] }.clauses p more =
      f.clauses p more ++ clausesOf (f.enclosure more :: p) [i] := by
  unfold clauses enclosure
  split
  · rw [clausesOf_concat]
  · rw [clauses_regions_concat, clauses_regions_concat, clausesOf_concat, List.append_assoc]

theorem clauses_separate (f : OpenBody) (p : Place) (more : Bool) :
    { f with regions := f.regions ++ [f.current], current := [] }.clauses p more =
      f.clauses p true := by
  have hnil : clausesOf (.region f.head.item.name (f.regions ++ [f.current]).length :: p) [] = [] :=
    rfl
  unfold clauses
  rw [if_neg (by simp), if_neg (by simp), clauses_regions_concat, hnil, List.append_nil]

theorem clauses_close (f : OpenBody) (p : Place) :
    clausesOf p [f.close] = f.clauses p false := by
  unfold close clauses clausesOf
  split
  · rename_i hr
    simp [hr, entriesOf, Item.entries, List.filterMap_cons, Entry.clause?]
  · rename_i r rs hr
    rw [if_neg (by simp [hr]), entriesOf, entries_concurrent p f.head r (by simp), entriesOf,
      List.append_nil, hr, List.filterMap_cons_none rfl]
    rfl

end OpenBody

/-- The place of the innermost open body. Which of the bodies are still to be cut, counted from the
    innermost, is what `cuts` says. -/
def placeOf (cuts : Nat → Bool) : List OpenBody → Place
  | [] => []
  | f :: fs => f.enclosure (cuts 0) :: placeOf (fun k => cuts (k + 1)) fs

def clausesIn (cuts : Nat → Bool) : List OpenBody → List (Place × Located Clause)
  | [] => []
  | f :: fs => clausesIn (fun k => cuts (k + 1)) fs ++
      f.clauses (placeOf (fun k => cuts (k + 1)) fs) (cuts 0)

/-- The lines read so far, in the places where they stand if the events to come are `es`. -/
def Progress.clauses (p : Progress) (es : List (Located Event)) : List (Place × Located Clause) :=
  clausesOf [] p.body ++ clausesIn (Event.splits · es) p.stack

def Progress.place (p : Progress) (es : List (Located Event)) : Place :=
  placeOf (Event.splits · es) p.stack

namespace Progress

variable {p q : Progress} {e : Located Event} {es : List (Located Event)} {i : Item}

theorem place_add (p : Progress) (i : Item) (es : List (Located Event)) :
    (p.add i).place es = p.place es := by
  unfold add place
  split <;> rename_i hs
  · rw [hs]
  · rw [hs]
    rfl

theorem clauses_add (p : Progress) (i : Item) (es : List (Located Event)) :
    (p.add i).clauses es = p.clauses es ++ clausesOf (p.place es) [i] := by
  unfold add clauses place
  split <;> rename_i hs
  · simp only [hs, clausesIn, placeOf, List.append_nil, clausesOf_concat]
  · simp only [hs, clausesIn, placeOf, OpenBody.clauses_add, List.append_assoc]

theorem clauses_step (h : p.step e = .ok q) :
    p.clauses (e :: es) ++ standings (p.place (e :: es)) (e :: es) =
      q.clauses es ++ standings (q.place es) es := by
  cases Progress.step_ok.1 h with
  | clause c n text =>
    have hcuts : (Event.splits · (⟨.clause c, n, text⟩ :: es)) = (Event.splits · es) := by
      funext k
      simp only [Event.splits]
    have hclauses : p.clauses (⟨.clause c, n, text⟩ :: es) = p.clauses es := by
      rw [clauses, clauses, hcuts]
    have hplace : p.place (⟨.clause c, n, text⟩ :: es) = p.place es := by rw [place, place, hcuts]
    rw [clauses_add, place_add, hclauses, hplace, standings]
    simp only [List.append_assoc]
    rfl
  | opening o n text =>
    have hcuts : (Event.splits · (⟨.opening o, n, text⟩ :: es)) =
        fun k => Event.splits (k + 1) es := by
      funext k
      simp only [Event.splits]
    simp only [clauses, place, hcuts, standings, clausesIn, placeOf, OpenBody.enclosure,
      OpenBody.clauses]
    cases hsplits : Event.splits 0 es <;>
      simp [entriesOf, entriesOfRegions, List.filterMap_cons, Entry.clause?]
  | separator hs =>
    simp only [clauses, place, hs, clausesIn, placeOf, Event.splits, standings,
      OpenBody.clauses_separate]
    simp [OpenBody.enclosure, Place.advance]
  | close hs =>
    rw [clauses_add, place_add, OpenBody.clauses_close]
    simp only [clauses, place, hs, clausesIn, placeOf, Event.splits, standings, List.append_assoc,
      List.tail_cons]
  | direction d n text =>
    have hcuts : (Event.splits · (⟨.direction d, n, text⟩ :: es)) = (Event.splits · es) := by
      funext k
      simp only [Event.splits]
    split <;> simp only [clauses, place, hcuts, standings]

/-- The induction is on the events to come: what is read last is all there is. -/
theorem clauses_run (h : es.foldlM step p = .ok q) (hq : q.stack = []) :
    p.clauses es ++ standings (p.place es) es = clausesOf [] q.body := by
  induction es generalizing p with
  | nil =>
    cases h
    simp [clauses, hq, clausesIn, standings]
  | cons e es ih =>
    obtain ⟨m, hm, hrest⟩ := foldlM_cons_ok.1 h
    rw [clauses_step hm, ih hrest]

end Progress

theorem standings_eq {es : List (Located Event)} {t : BlockTree} (h : ofEvents es = .ok t) :
    standings [] es = clausesOf [] t.body :=
  Progress.clauses_run (ofEvents_ok.1 h) rfl

end BlockTree

end Statechart
