import Mathlib
import Statechart.Proofs.Entry

namespace Statechart

namespace Event

variable {k line : Nat} {note : Option (Located OpenNote)} {lines : List String}
  {es : List (Located Event)}

def Increasing (k : Nat) (es : List (Located Event)) : Prop :=
  (∀ e ∈ es, k ≤ e.line) ∧ es.Pairwise fun e e' => e.line < e'.line

theorem Increasing.cons {e : Located Event} (h : Increasing (e.line + 1) es) (hk : k ≤ e.line) :
    Increasing k (e :: es) := by
  obtain ⟨hlow, hpair⟩ := h
  refine ⟨List.forall_mem_cons.2 ⟨hk, fun d hd => ?_⟩, .cons (fun d hd => hlow d hd) hpair⟩
  exact hk.trans (Nat.le_of_succ_le (hlow d hd))

theorem Increasing.mono {k' : Nat} (h : Increasing k es) (hk : k' ≤ k) : Increasing k' es :=
  ⟨fun e he => hk.trans (h.1 e he), h.2⟩

theorem increasing_ofLines (hn : ∀ n ∈ note, n.line < line)
    (h : ofLines line note lines = .ok es) : Increasing (note.elim line Located.line) es := by
  induction lines generalizing line note es with
  | nil =>
    cases note <;> cases h
    exact ⟨by simp, .nil⟩
  | cons text rest ih =>
    obtain ⟨note', out, es', ht, hes, rfl⟩ := takes_of_ofLines h
    cases ht with
    | noteEnd n =>
      have hlt : n.line < line := hn n rfl
      have hrest : Increasing (line + 1) es' := ih (by simp) hes
      exact (hrest.mono (Nat.succ_le_succ hlt.le)).cons le_rfl
    | noteLine n =>
      have hnext : ∀ m ∈ some { n with item := n.item.extend text }, m.line < line + 1 := by
        rintro _ ⟨⟩
        exact (hn n rfl).trans (Nat.lt_succ_self line)
      simpa using ih hnext hes
    | silence =>
      have hrest : Increasing (line + 1) es' := ih (by simp) hes
      exact hrest.mono (Nat.le_succ line)
    | noteHead n =>
      have hnext : ∀ m ∈ some (⟨n, line, text⟩ : Located OpenNote), m.line < line + 1 := by
        rintro _ ⟨⟩
        exact Nat.lt_succ_self line
      simpa using ih hnext hes
    | event =>
      have hrest : Increasing (line + 1) es' := ih (by simp) hes
      exact hrest.cons le_rfl

end Event

def Entry.line? : Entry → Option Nat
  | .clause _ c => some c.line
  | .head _ o _ => some o.line
  | .region _ _ _ => none

namespace BlockTree

mutual

def linesIn : Item → List Nat
  | .clause c => [c.line]
  | .composite head first more => head.line :: (linesOf first ++ linesOfRegions more)

def linesOf : List Item → List Nat
  | [] => []
  | i :: is => linesIn i ++ linesOf is

def linesOfRegions : List (List Item) → List Nat
  | [] => []
  | b :: bs => linesOf b ++ linesOfRegions bs

end

theorem linesOf_append (b c : Block) : linesOf (b ++ c) = linesOf b ++ linesOf c := by
  induction b with
  | nil => simp [linesOf]
  | cons i b ih => simp [linesOf, ih]

theorem linesOfRegions_append (bs cs : List Block) :
    linesOfRegions (bs ++ cs) = linesOfRegions bs ++ linesOfRegions cs := by
  induction bs with
  | nil => simp [linesOfRegions]
  | cons b bs ih => simp [linesOfRegions, ih]

theorem linesOf_singleton (i : Item) : linesOf [i] = linesIn i := by
  rw [linesOf, linesOf, List.append_nil]

mutual

theorem filterMap_line?_entries (p : Place) :
    ∀ i : Item, (i.entries p).filterMap Entry.line? = linesIn i
  | .clause c => rfl
  | .composite head first [] => by
    simp [Item.entries, linesIn, linesOfRegions, Entry.line?, filterMap_line?_entriesOf _ first]
  | .composite head first (b :: bs) => by
    have hregions := filterMap_line?_entriesOfRegions p head.item.name 1 (b :: bs)
    simp [Item.entries, linesIn, Entry.line?, List.filterMap_cons, filterMap_line?_entriesOf _ first,
      hregions]

theorem filterMap_line?_entriesOf (p : Place) :
    ∀ b : List Item, (entriesOf p b).filterMap Entry.line? = linesOf b
  | [] => rfl
  | i :: is => by
    simp [entriesOf, linesOf, filterMap_line?_entries p i, filterMap_line?_entriesOf p is]

theorem filterMap_line?_entriesOfRegions (p : Place) (name : String) (index : Nat) :
    ∀ bs : List (List Item),
      (entriesOfRegions p name index bs).filterMap Entry.line? = linesOfRegions bs
  | [] => rfl
  | b :: bs => by
    have hregions := filterMap_line?_entriesOfRegions p name (index + 1) bs
    simp [entriesOfRegions, linesOfRegions, Entry.line?, List.filterMap_cons,
      filterMap_line?_entriesOf _ b, hregions]

end

def OpenBody.lines (f : OpenBody) : List Nat :=
  f.head.line :: (linesOfRegions f.regions ++ linesOf f.current)

theorem OpenBody.linesIn_close (f : OpenBody) : linesIn f.close = f.lines := by
  unfold OpenBody.close OpenBody.lines
  split <;> rename_i hr <;> simp [hr, linesIn, linesOfRegions, linesOfRegions_append]

def Progress.lines (p : Progress) : List Nat :=
  linesOf p.body ++ p.stack.reverse.flatMap OpenBody.lines

theorem Progress.lines_add (p : Progress) (i : Item) :
    (p.add i).lines = p.lines ++ linesIn i := by
  unfold Progress.add Progress.lines
  split <;> rename_i hs <;> simp [hs, OpenBody.lines, linesOf_append, linesOf_singleton]

theorem Progress.lines_step {p q : Progress} {e : Located Event} (h : p.step e = .ok q) :
    q.lines = p.lines ∨ q.lines = p.lines ++ [e.line] := by
  cases Progress.step_ok.1 h with
  | clause => exact .inr (p.lines_add _)
  | opening =>
    refine .inr ?_
    simp [Progress.lines, OpenBody.lines, linesOf, linesOfRegions]
  | separator hs =>
    refine .inl ?_
    simp [Progress.lines, hs, OpenBody.lines, linesOf, linesOfRegions, linesOfRegions_append]
  | close hs =>
    refine .inl ?_
    rw [Progress.lines_add, OpenBody.linesIn_close]
    simp [Progress.lines, hs]
  | direction =>
    refine .inl ?_
    split <;> rfl

theorem linesOf_sublist_of_ofEvents {es : List (Located Event)} {t : BlockTree}
    (h : ofEvents es = .ok t) : (linesOf t.body).Sublist (es.map Located.line) := by
  have hlines : ∀ {p : Progress}, es.foldlM Progress.step .empty = .ok p →
      p.lines.Sublist (es.map Located.line) := by
    intro p hp
    refine foldlM_invariant (fun made p => p.lines.Sublist (made.map Located.line)) ?_
      (by simp [Progress.lines, Progress.empty, linesOf]) hp
    intro made e q r _ hq hr
    rw [List.map_append]
    rcases Progress.lines_step hr with heq | heq
    · exact heq ▸ hq.trans (List.sublist_append_left ..)
    · exact heq ▸ hq.append (List.Sublist.refl _)
  simpa [Progress.lines] using hlines (ofEvents_ok.1 h)

end BlockTree

theorem increasing_lines_of_text {input : String} {es : List (Located Event)} {t : BlockTree}
    (hs : Event.scan input = .ok es) (ht : BlockTree.ofEvents es = .ok t) :
    ((entriesOf [] t.body).filterMap Entry.line?).Pairwise (· < ·) := by
  have hevents : (es.map Located.line).Pairwise (· < ·) :=
    List.pairwise_map.2 (Event.increasing_ofLines (by simp) hs).2
  rw [BlockTree.filterMap_line?_entriesOf]
  exact hevents.sublist (BlockTree.linesOf_sublist_of_ofEvents ht)

end Statechart
