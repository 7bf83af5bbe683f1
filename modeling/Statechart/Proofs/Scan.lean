import Mathlib
import Statechart.Event

namespace Statechart.Event

variable {line : Nat} {text : String} {note note' : Option (Located OpenNote)}
  {es es' out : List (Located Event)} {ls : List String} {f : Fault}

theorem read_eq (text : String) (line : Nat) {r : Event ⊕ OpenNote} : read text line = .ok r ↔
    ∃ s, Statement.read text.toList = .ok s ∧ ofStatement s = .ok r := by
  unfold read Statement.parse
  cases Statement.read text.toList with
  | error m => simp
  | ok s => cases hs : ofStatement s <;> simp [hs]

theorem read_anywhere {r : Event ⊕ OpenNote} (h : read text line = .ok r) (line' : Nat) :
    read text line' = .ok r :=
  (read_eq text line').2 ((read_eq text line).1 h)

inductive Takes (line : Nat) (text : String) :
    Option (Located OpenNote) → Option (Located OpenNote) → List (Located Event) → Prop
  | noteEnd (n : Located OpenNote) (h : isNoteEnd text) :
      Takes line text (some n) none [⟨ofNote n.item, n.line, n.text⟩]
  | noteLine (n : Located OpenNote) (h : isNoteEnd text = false) :
      Takes line text (some n) (some { n with item := n.item.extend text }) []
  | silence (h : isSilent text) : Takes line text none none []
  | noteHead (n : OpenNote) (hs : isSilent text = false) (h : read text line = .ok (.inr n)) :
      Takes line text none (some ⟨n, line, text⟩) []
  | event (e : Event) (hs : isSilent text = false) (h : read text line = .ok (.inl e)) :
      Takes line text none none [⟨e, line, text⟩]

theorem takes_or_misread (line : Nat) (text : String) (note : Option (Located OpenNote)) :
    (∃ note' out, Takes line text note note' out) ∨
      note = none ∧ isSilent text = false ∧ ∃ f, read text line = .error f := by
  cases note with
  | some n =>
    cases hend : isNoteEnd text with
    | true => exact .inl ⟨_, _, .noteEnd n hend⟩
    | false => exact .inl ⟨_, _, .noteLine n hend⟩
  | none =>
    cases hs : isSilent text with
    | true => exact .inl ⟨_, _, .silence hs⟩
    | false =>
      cases hread : read text line with
      | error f => exact .inr ⟨rfl, rfl, f, rfl⟩
      | ok r =>
        cases r with
        | inl e => exact .inl ⟨_, _, .event e hs hread⟩
        | inr n => exact .inl ⟨_, _, .noteHead n hs hread⟩

theorem ofLines_takes (h : Takes line text note note' out) (ls : List String) :
    ofLines line note (text :: ls) = (ofLines (line + 1) note' ls).map (out ++ ·) := by
  cases h with
  | noteEnd n hend =>
    rw [ofLines, if_pos hend]
    cases ofLines (line + 1) none ls <;> rfl
  | noteLine n hopen =>
    rw [ofLines, if_neg (Bool.eq_false_iff.1 hopen)]
    cases ofLines (line + 1) (some { n with item := n.item.extend text }) ls <;> rfl
  | silence hs =>
    rw [ofLines, if_pos hs]
    cases ofLines (line + 1) none ls <;> rfl
  | noteHead n hs hread =>
    rw [ofLines, if_neg (Bool.eq_false_iff.1 hs), hread]
    dsimp only
    cases ofLines (line + 1) (some ⟨n, line, text⟩) ls <;> rfl
  | event e hs hread =>
    rw [ofLines, if_neg (Bool.eq_false_iff.1 hs), hread]
    cases ofLines (line + 1) none ls <;> rfl

theorem ofLines_misread (hs : isSilent text = false) (h : read text line = .error f) :
    ofLines line none (text :: ls) = .error f := by
  rw [ofLines, if_neg (Bool.eq_false_iff.1 hs), h]

theorem takes_of_ofLines (h : ofLines line note (text :: ls) = .ok es) : ∃ note' out es',
    Takes line text note note' out ∧ ofLines (line + 1) note' ls = .ok es' ∧ es = out ++ es' := by
  rcases takes_or_misread line text note with ⟨note', out, ht⟩ | ⟨rfl, hs, f, hread⟩
  · rw [ofLines_takes ht] at h
    cases hrest : ofLines (line + 1) note' ls with
    | error f =>
      rw [hrest] at h
      cases h
    | ok es' =>
      rw [hrest] at h
      exact ⟨note', out, es', ht, hrest, (Except.ok.inj h).symm⟩
  · rw [ofLines_misread hs hread] at h
    cases h

theorem ofLines_of_takes (ht : Takes line text note note' out)
    (h : ofLines (line + 1) note' ls = .ok es) :
    ofLines line note (text :: ls) = .ok (out ++ es) := by
  rw [ofLines_takes ht, h]
  rfl

theorem ofLines_cons {e : Event} (hs : isSilent text = false) (h : read text line = .ok (.inl e))
    (hrest : ofLines (line + 1) none ls = .ok es) :
    ofLines line none (text :: ls) = .ok (⟨e, line, text⟩ :: es) :=
  ofLines_of_takes (.event e hs h) hrest

theorem ofLines_of_reads (hlines : es.map Located.line = List.range' line es.length)
    (h : ∀ e ∈ es, isSilent e.text = false ∧ read e.text e.line = .ok (.inl e.item)) :
    ofLines line none (es.map Located.text) = .ok es := by
  induction es generalizing line with
  | nil => rfl
  | cons e es ih =>
    obtain ⟨⟨hs, hread⟩, hes⟩ := List.forall_mem_cons.1 h
    obtain ⟨rfl, hrest⟩ := List.cons.inj hlines
    exact ofLines_cons hs hread (ih hrest hes)

theorem ofLines_append {ls' : List String} (h : ofLines line note ls = .ok es)
    (h' : ofLines (line + ls.length) none ls' = .ok es') :
    ofLines line note (ls ++ ls') = .ok (es ++ es') := by
  induction ls generalizing line note es with
  | nil =>
    cases note with
    | none =>
      cases h
      exact h'
    | some n => cases h
  | cons text ls ih =>
    obtain ⟨note', out, es, ht, hes, rfl⟩ := takes_of_ofLines h
    rw [List.length_cons, Nat.add_comm ls.length, ← Nat.add_assoc] at h'
    rw [List.append_assoc]
    exact ofLines_of_takes ht (ih hes h')

theorem ofLines_error (h : ofLines line note (text :: ls) = .error f) :
    read text line = .error f ∨
      ∃ note' out, Takes line text note note' out ∧ ofLines (line + 1) note' ls = .error f := by
  rcases takes_or_misread line text note with ⟨note', out, ht⟩ | ⟨rfl, hs, g, hread⟩
  · rw [ofLines_takes ht] at h
    cases hrest : ofLines (line + 1) note' ls with
    | error g =>
      rw [hrest] at h
      cases h
      exact .inr ⟨note', out, ht, hrest⟩
    | ok es =>
      rw [hrest] at h
      cases h
  · rw [ofLines_misread hs hread] at h
    obtain rfl := Except.error.inj h
    exact .inl hread

section Blocks

variable {n : Located OpenNote} {body rest : List String} {last : String}

theorem exists_first_noteEnd (ls : List String) : (∀ l ∈ ls, isNoteEnd l = false) ∨
    ∃ body last rest, ls = body ++ last :: rest ∧ (∀ l ∈ body, isNoteEnd l = false) ∧
      isNoteEnd last := by
  induction ls with
  | nil => exact .inl (List.forall_mem_nil _)
  | cons l ls ih =>
    cases hl : isNoteEnd l with
    | true => exact .inr ⟨[], l, ls, rfl, List.forall_mem_nil _, hl⟩
    | false =>
      rcases ih with hnone | ⟨body, last, rest, rfl, hbody, hlast⟩
      · exact .inl (List.forall_mem_cons.2 ⟨hl, hnone⟩)
      · exact .inr ⟨l :: body, last, rest, rfl, List.forall_mem_cons.2 ⟨hl, hbody⟩, hlast⟩

theorem ofLines_unended (h : ∀ l ∈ ls, isNoteEnd l = false) :
    ofLines line (some n) ls = .error (n.fault (.openNote n.item.name)) := by
  induction ls generalizing line n with
  | nil => rfl
  | cons l ls ih =>
    obtain ⟨hl, hls⟩ := List.forall_mem_cons.1 h
    rw [ofLines_takes (.noteLine n hl), ih hls]
    rfl

theorem ofLines_block (hbody : ∀ l ∈ body, isNoteEnd l = false) (hlast : isNoteEnd last) :
    ofLines line (some n) (body ++ last :: rest) = (ofLines (line + body.length + 1) none rest).map
      (⟨ofNote { n.item with body := n.item.body ++ body }, n.line, n.text⟩ :: ·) := by
  induction body generalizing line n with
  | nil =>
    rw [List.nil_append, ofLines_takes (.noteEnd n hlast), List.append_nil, List.length_nil,
      Nat.add_zero]
    rfl
  | cons l body ih =>
    obtain ⟨hl, hbody⟩ := List.forall_mem_cons.1 hbody
    rw [List.cons_append, ofLines_takes (.noteLine n hl), ih hbody, List.length_cons,
      OpenNote.extend, List.append_assoc, List.singleton_append, Nat.add_right_comm line 1,
      Nat.add_assoc line body.length]
    cases ofLines (line + (body.length + 1) + 1) none rest <;> rfl

end Blocks

end Statechart.Event
