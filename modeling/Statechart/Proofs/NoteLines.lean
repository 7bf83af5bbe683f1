import Mathlib
import Statechart.Proofs.Labels
import Statechart.Proofs.Layout
import Statechart.Proofs.Phrasing
import Statechart.Proofs.Repetition

namespace Statechart

open Text Text.Pattern

namespace Text.Span

variable {a b : Span}

def Has (s : Span) (i : Nat) : Prop :=
  s.start ≤ i ∧ i < s.stop

instance (s : Span) (i : Nat) : Decidable (s.Has i) :=
  inferInstanceAs (Decidable (_ ∧ _))

/-- The test for a shared character by the ends alone is right for stretches that have any. -/
theorem meets_iff (ha : a.start < a.stop) (hb : b.start < b.stop) :
    a.meets b ↔ ∃ i, a.Has i ∧ b.Has i := by
  simp only [meets, Bool.and_eq_true, decide_eq_true_eq]
  constructor
  · rintro ⟨hab, hba⟩
    refine ⟨max a.start b.start, ⟨le_max_left _ _, ?_⟩, ⟨le_max_right _ _, ?_⟩⟩
    · exact max_lt ha hba
    · exact max_lt hab hb
  · rintro ⟨i, ⟨ha₁, ha₂⟩, hb₁, hb₂⟩
    exact ⟨ha₁.trans_lt hb₂, hb₁.trans_lt ha₂⟩

end Text.Span

namespace Remark

variable {cs body : List Char} {line text : String} {k : RemarkKind}

abbrev activities : List RemarkKind :=
  [.entry, .exit, .activity]

def Tells (line : String) (k : RemarkKind) (text : String) : Prop :=
  k ∈ activities ∧ ∃ word blanks mark body,
    trim line.toList = word ++ blanks ++ mark :: body ∧ word.map Char.toLower = k.word.toList ∧
      (∀ c ∈ blanks, isBlank c) ∧ (mark = '/' ∨ mark = ':') ∧ text = String.ofList (trim body)

theorem bodyAfter_iff {w : String} : bodyAfter w cs = some body ↔ ∃ word blanks mark rest,
    cs = word ++ blanks ++ mark :: rest ∧ word.map Char.toLower = w.toList ∧
      (∀ c ∈ blanks, isBlank c) ∧ (mark = '/' ∨ mark = ':') ∧ body = trim rest := by
  unfold bodyAfter
  constructor
  · intro h
    dsimp only at h
    split at h
    · rename_i hword
      split at h
      · cases h
      · rename_i mark rest hrest
        split at h
        · rename_i hmark
          cases h
          refine ⟨cs.take w.toList.length, (cs.drop w.toList.length).takeWhile isBlank, mark, rest,
            ?_, hword, fun c hc => List.mem_takeWhile_imp hc, hmark, rfl⟩
          rw [← hrest, trimStart, List.append_assoc, List.takeWhile_append_dropWhile,
            List.take_append_drop]
        · cases h
    · cases h
  · rintro ⟨word, blanks, mark, rest, rfl, hword, hblanks, hmark, rfl⟩
    have hlength : word.length = w.toList.length := by rw [← hword, List.length_map]
    have hsolid : isBlank mark = false := by
      rcases hmark with rfl | rfl <;> decide +kernel
    have hstart : trimStart (blanks ++ mark :: rest) = mark :: rest := by
      rw [trimStart, List.dropWhile_append_of_pos hblanks,
        List.dropWhile_cons_of_neg (Bool.eq_false_iff.1 hsolid)]
    dsimp only
    rw [List.append_assoc, ← hlength, List.take_left, List.drop_left, hstart, if_pos hword]
    exact if_pos hmark

theorem prefix_of_bodyAfter {w : String} (h : bodyAfter w cs = some body) :
    w.toList <+: cs.map Char.toLower := by
  obtain ⟨word, blanks, mark, rest, rfl, hword, -⟩ := bodyAfter_iff.1 h
  rw [List.append_assoc, List.map_append, hword]
  exact List.prefix_append _ _

theorem eq_of_bodyAfter {k' : RemarkKind} {body' : List Char}
    (hk : k ∈ activities) (hk' : k' ∈ activities) (h : bodyAfter k.word cs = some body)
    (h' : bodyAfter k'.word cs = some body') : k = k' := by
  have hwords : ∀ k ∈ activities, ∀ k' ∈ activities,
      k.word.toList <+: k'.word.toList → k = k' := by
    decide +kernel
  rcases List.prefix_or_prefix_of_prefix (prefix_of_bodyAfter h) (prefix_of_bodyAfter h') with
    hle | hle
  · exact hwords k hk k' hk' hle
  · exact (hwords k' hk' k hk hle).symm

theorem ofLine?_iff : ofLine? line = some (k, text) ↔ Tells line k text := by
  have htells : Tells line k text ↔ k ∈ activities ∧
      ∃ body, bodyAfter k.word (trim line.toList) = some body ∧ text = String.ofList body := by
    simp only [Tells, bodyAfter_iff]
    grind
  rw [htells, ofLine?]
  constructor
  · intro h
    obtain ⟨k', hk', h⟩ := List.exists_of_findSome?_eq_some h
    obtain ⟨body, hbody, heq⟩ := Option.map_eq_some_iff.1 h
    cases heq
    exact ⟨hk', body, hbody, rfl⟩
  · rintro ⟨hk, body, hbody, rfl⟩
    cases hfound : activities.findSome? fun k =>
        (bodyAfter k.word (trim line.toList)).map fun body => (k, String.ofList body) with
    | none =>
      have hnone := List.findSome?_eq_none_iff.1 hfound k hk
      rw [hbody] at hnone
      cases hnone
    | some x =>
      obtain ⟨k', hk', h⟩ := List.exists_of_findSome?_eq_some hfound
      obtain ⟨body', hbody', rfl⟩ := Option.map_eq_some_iff.1 h
      obtain rfl := eq_of_bodyAfter hk hk' hbody hbody'
      obtain rfl := Option.some.inj (hbody.symm.trans hbody')
      rfl

end Remark

namespace History

theorem length_of_phraseAt {c e : Cursor} {name : String} (h : phraseAt c = some (name, e)) :
    e.rest.length < c.rest.length := by
  have hstate : Onward (sequence [blanks, word "state"]) :=
    onward_sequence (by simp [onward_word, onward_blanks])
  have htrail : Onward trail :=
    onward_sequence (by simp [onward_word, onward_blanks, onward_boundary, hstate.optional])
  obtain ⟨start, hstart, h⟩ := List.mem_flatMap.1 (List.mem_of_mem_head? h)
  obtain ⟨stop, hstop, h⟩ := List.mem_flatMap.1 h
  obtain ⟨e, he, heq⟩ := List.mem_map.1 h
  cases heq
  have hlead := spends_lead c start hstart
  have hrest := (onward_pathPattern start stop hstop).trans (htrail stop e he)
  have hle := blanksIn_le hrest
  have hsuffix := suffix_of_later ((onward_lead c start hstart).trans hrest)
  refine hsuffix.length_le.lt_of_ne fun hlength => ?_
  have hblanks : blanksIn e = blanksIn c :=
    congrArg (List.countP isBlank) (hsuffix.eq_of_length hlength)
  omega

def numbered (text : String) : List (List (Char × Nat)) :=
  text.toList.zipIdx.splitOnP fun x => x.1 = '\n'

def Spared (text : String) (l : List (Char × Nat)) : Prop :=
  ∀ x ∈ l, ∀ p ∈ phrases text, ¬p.2.Has x.2

instance (text : String) (l : List (Char × Nat)) : Decidable (Spared text l) :=
  inferInstanceAs (Decidable (∀ x ∈ l, ∀ p ∈ phrases text, ¬p.2.Has x.2))

def sparedLines (text : String) : List String :=
  (((numbered text).filter fun l => Spared text l).map fun l =>
    String.ofList (trim (l.map Prod.fst))).filter (· ≠ "")

theorem splitOnP_zipIdx (cs : List Char) (k : Nat) :
    (cs.zipIdx k).splitOnP (fun x => x.1 = '\n') =
      (placedLines k (split '\n' cs)).map fun l => l.1.zipIdx l.2.start := by
  have hfeed : ∀ {l : List Char} {k : Nat}, '\n' ∉ l →
      ∀ x ∈ l.zipIdx k, decide (x.1 = '\n') = false := by
    intro l k hl x hx
    refine decide_eq_false fun hc => hl ?_
    exact hc ▸ List.fst_mem_of_mem_zipIdx hx
  induction cs using pieces_induction '\n' generalizing k with
  | last cs hcs =>
    rw [split_of_notMem hcs, List.splitOnP_eq_singleton (hfeed hcs)]
    rfl
  | cut a b ha ih =>
    rw [split_cut ha, List.zipIdx_append, List.zipIdx_cons,
      List.splitOnP_append_cons_of_forall_mem (hfeed ha) _ rfl, ih]
    rfl

theorem stop_of_mem_placedLines {k : Nat} {ls : List (List Char)} {l : List Char × Span}
    (h : l ∈ placedLines k ls) : l.2.stop = l.2.start + l.1.length := by
  induction ls generalizing k with
  | nil => cases h
  | cons x ls ih =>
    rcases List.mem_cons.1 h with rfl | h
    · rfl
    · exact ih h

theorem isOutside_iff {text : String} {l : List Char × Span} (hne : l.1 ≠ [])
    (hstop : l.2.stop = l.2.start + l.1.length) :
    isOutside (phrases text) l.2 ↔ Spared text (l.1.zipIdx l.2.start) := by
  have hl : l.2.start < l.2.stop := by
    have hpos := List.length_pos_of_ne_nil hne
    omega
  have hhas : ∀ i, l.2.Has i ↔ ∃ c, (c, i) ∈ l.1.zipIdx l.2.start := by
    intro i
    simp only [List.mem_zipIdx_iff_le_and_getElem?_sub, exists_and_left, Span.Has, hstop]
    refine and_congr_right fun hle => ?_
    rw [← Option.isSome_iff_exists, isSome_getElem?]
    exact (Nat.sub_lt_iff_lt_add' hle).symm
  have hmeets : ∀ p ∈ phrases text, p.2.meets l.2 ↔ ∃ x ∈ l.1.zipIdx l.2.start, p.2.Has x.2 := by
    intro p hp
    have hspan := (span_of_mem_matchesFrom (fun _ _ _ => length_of_phraseAt) p hp).2
    rw [Span.meets_iff hspan hl]
    simp only [hhas]
    constructor
    · rintro ⟨i, hi, c, hc⟩
      exact ⟨(c, i), hc, hi⟩
    · rintro ⟨⟨c, i⟩, hc, hi⟩
      exact ⟨i, hi, c, hc⟩
  rw [isOutside, Bool.not_eq_true', ← Bool.not_eq_true, List.any_eq_true, Spared]
  constructor
  · exact fun h x hx p hp hxp => h ⟨p, hp, (hmeets p hp).2 ⟨x, hx, hxp⟩⟩
  · rintro h ⟨p, hp, hm⟩
    obtain ⟨x, hx, hxp⟩ := (hmeets p hp).1 hm
    exact h x hx p hp hxp

theorem freeLines_eq (text : String) : freeLines text = sparedLines text := by
  have hdrop : ∀ (q : List Char × Span → Bool) (ls : List (List Char × Span)),
      ((ls.filter q).map fun l => String.ofList (trim l.1)).filter (· ≠ "") =
        (ls.filter fun l => String.ofList (trim l.1) ≠ "" && q l).map fun l =>
          String.ofList (trim l.1) := by
    intro q ls
    rw [List.filter_map, List.filter_filter]
    rfl
  have hnumbered : ((numbered text).filter fun l => Spared text l).map (fun l =>
      String.ofList (trim (l.map Prod.fst))) = ((placedLines 0 (split '\n' text.toList)).filter
        fun l => Spared text (l.1.zipIdx l.2.start)).map fun l => String.ofList (trim l.1) := by
    rw [numbered, splitOnP_zipIdx, List.filter_map, List.map_map]
    simp only [Function.comp_def, List.zipIdx_map_fst]
  rw [freeLines, sparedLines, hnumbered, hdrop, hdrop]
  refine congrArg _ (List.filter_congr fun l hl => ?_)
  -- A line without a character has no character in common with a phrase that goes across it.
  by_cases hblank : String.ofList (trim l.1) = ""
  · simp [hblank]
  · have hne : l.1 ≠ [] := by
      intro hnil
      exact hblank (by rw [hnil]; rfl)
    congr 1
    rw [Bool.eq_iff_iff, isOutside_iff hne (stop_of_mem_placedLines hl), decide_eq_true_iff]

variable {n : Note} {ss : List State} {ts : List Transition} {ns : List Note} {o : Outcome}

inductive Told (n : Note) : List String → List Remark → List String → Prop
  | done : Told n [] [] []
  | activity {line text : String} {k : RemarkKind} {lines others : List String} {rs : List Remark}
      (h : Remark.Tells line k text) (hrest : Told n lines rs others) :
      Told n (line :: lines) (⟨n.state, k, text, n.line⟩ :: rs) others
  | other {line : String} {lines others : List String} {rs : List Remark}
      (h : ∀ k text, ¬Remark.Tells line k text) (hrest : Told n lines rs others) :
      Told n (line :: lines) rs (line :: others)

def Leaves (n : Note) (rs : List Remark) : Prop :=
  ∃ typed others last, Told n (sparedLines n.text) typed others ∧ rs = typed ++ last ∧
    (others = [] ∧ last = [] ∨ others ≠ [] ∧ ∃ text, last = [⟨n.state, .note, text, n.line⟩] ∧
      pieces text = others)

theorem told_lines (n : Note) (ls : List String) :
    Told n ls ((ls.filterMap Remark.ofLine?).map fun r => ⟨n.state, r.1, r.2, n.line⟩)
      (ls.filter fun l => (Remark.ofLine? l).isNone) := by
  induction ls with
  | nil => exact .done
  | cons l ls ih =>
    cases hl : Remark.ofLine? l with
    | some r =>
      rw [List.filterMap_cons_some hl, List.filter_cons_of_neg (by simp [hl])]
      exact .activity (Remark.ofLine?_iff.1 hl) ih
    | none =>
      rw [List.filterMap_cons_none hl, List.filter_cons_of_pos (by simp [hl])]
      refine .other (fun k text h => ?_) ih
      cases hl.symm.trans (Remark.ofLine?_iff.2 h)

theorem leaves_remarksOf (n : Note) : Leaves n (remarksOf n) := by
  have htold := told_lines n (freeLines n.text)
  rw [remarksOf]
  split
  · rename_i hothers
    rw [hothers] at htold
    exact ⟨_, [], [], freeLines_eq n.text ▸ htold, (List.append_nil _).symm, .inl ⟨rfl, rfl⟩⟩
  · rename_i l ls hothers
    have honeLine : ∀ x ∈ l :: ls, OneLine x := by
      intro x hx
      exact oneLine_freeLines x (List.mem_of_mem_filter (hothers ▸ hx))
    rw [hothers] at htold
    exact ⟨_, _, _, freeLines_eq n.text ▸ htold, rfl,
      .inr ⟨List.cons_ne_nil l ls, _, rfl, pieces_joined (List.cons_ne_nil l ls) honeLine⟩⟩

theorem remarks_tasksOf (n : Note) : (tasksOf n).flatMap Task.remarks = remarksOf n := by
  have hattach : ((phrases n.text).map fun p => Task.attach n p.1).flatMap Task.remarks = [] := by
    rw [List.flatMap_map]
    exact List.flatMap_eq_nil_iff.2 fun _ _ => rfl
  rw [tasksOf, List.flatMap_append, List.flatMap_cons, hattach]
  simp [Task.remarks]

theorem remarks_of_carryOut (h : carryOut ss ts ns = .ok o) :
    ∃ parts, o.remarks = parts.flatten ∧ List.Forall₂ Leaves ns parts := by
  refine ⟨ns.map remarksOf, ?_, List.forall₂_map_right_iff.2 ?_⟩
  · have hremarks := remarks_foldlM h
    simp only [List.flatMap_assoc, remarks_tasksOf] at hremarks
    rw [hremarks, start, List.nil_append, List.flatMap_def]
  · exact List.forall₂_same.2 fun n _ => leaves_remarksOf n

namespace Sample

def spread : Note where
  state := ⟨"Off"⟩
  side := .right
  text := "Entry / wärmt auf\nresume returns to On\nhistory state\n\n wartet …\nEXIT: cool\nfertig"
  line := 7
  source := "note right of Off"

def spreadOutcome : Outcome where
  states := states ++ [stateOf ⟨"On"⟩ 7]
  transitions := [⟨⟨"On/Idle"⟩, ⟨"On"⟩, .empty, 3⟩, ⟨⟨"On"⟩, ⟨"Off"⟩, .empty, 4⟩,
    ⟨⟨"Off"⟩, ⟨"On/H"⟩, .empty, 5⟩]
  remarks := [⟨⟨"Off"⟩, .entry, "wärmt auf", 7⟩, ⟨⟨"Off"⟩, .exit, "cool", 7⟩,
    ⟨⟨"Off"⟩, .note, "wartet …\nfertig", 7⟩]
  attachments := [⟨⟨"On"⟩, 1⟩]

end Sample

theorem remarks_of_carryOut_spread :
    carryOut Sample.states Sample.transitions [Sample.spread] = .ok Sample.spreadOutcome ∧
    ∃ parts, Sample.spreadOutcome.remarks = parts.flatten ∧
      List.Forall₂ Leaves [Sample.spread] parts := by
  have h : carryOut Sample.states Sample.transitions [Sample.spread] =
      .ok Sample.spreadOutcome := by
    decide +kernel
  exact ⟨h, remarks_of_carryOut h⟩

end History

end Statechart
