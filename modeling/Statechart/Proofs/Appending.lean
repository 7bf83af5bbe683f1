import Mathlib
import Statechart.Proofs.Grammar
import Statechart.Proofs.Layout
import Statechart.Proofs.Phrase
import Statechart.Proofs.TextOrder

namespace Statechart

namespace Text

/-- A text with one more line at its end. Either text may end with a line feed or without one. -/
inductive LineAdded (line : String) : String → String → Prop
  | afterBreak (s : String) : LineAdded line (s ++ "\n") (s ++ "\n" ++ line)
  | breaking (s : String) : LineAdded line s (s ++ "\n" ++ line)
  | ended {s t : String} (h : LineAdded line s t) : LineAdded line s (t ++ "\n")

end Text

inductive Clause.Decorates (name : String) : Clause → Prop
  | description (text : String) : Decorates name (.description name text)
  | note (side : NoteSide) (text : String) (h : History.mentions text = []) :
      Decorates name (.note name side text)

inductive Decoration (name : String) : String → Prop
  | description (gap text : String) (hgap : ∀ c ∈ gap.toList, Reader.isSpace c)
      (hline : OneLine text) : Decoration name (name ++ gap ++ ":" ++ text)
  | note (side : NoteSide) (a b c d text : String) (ha : Statement.IsGap a.toList)
      (hb : Statement.IsGap b.toList) (hc : Statement.IsGap c.toList)
      (hd : ∀ e ∈ d.toList, Reader.isSpace e) (hline : OneLine text)
      (hplain : History.mentions text = []) :
      Decoration name ("note" ++ a ++ side.word ++ b ++ "of" ++ c ++ name ++ d ++ ":" ++ text)

namespace Event

theorem scan_break (s : String) : scan (s ++ "\n") = scan s := by
  have hpieces := Text.pieces_append s ""
  rw [String.append_empty] at hpieces
  rw [scan_eq, scan_eq, hpieces, List.map_append]
  exact ofLines_concat_empty 1 none _

theorem exists_lines {line s t : String} (h : Text.LineAdded line s t) (hline : OneLine line) :
    ∃ ls, scan s = ofLines 1 none ls ∧ scan t = ofLines 1 none (ls ++ [Text.trimmed line]) := by
  have hadded : ∀ s, scan (s ++ "\n" ++ line) =
      ofLines 1 none ((Text.pieces s).map Text.trimmed ++ [Text.trimmed line]) := by
    intro s
    rw [scan_eq, Text.pieces_append, Text.pieces_of_notMem hline, List.map_append]
    rfl
  induction h with
  | afterBreak s => exact ⟨_, (scan_break s).trans (scan_eq s), hadded s⟩
  | breaking s => exact ⟨_, scan_eq s, hadded s⟩
  | ended _ ih =>
    obtain ⟨ls, hs, ht⟩ := ih
    exact ⟨ls, hs, (scan_break _).trans ht⟩

end Event

namespace Decoration

variable {name line : String}

theorem oneLine_of_isSpace {gap : String} (h : ∀ c ∈ gap.toList, Reader.isSpace c) : OneLine gap :=
  fun hmem => Bool.false_ne_true (h _ hmem)

theorem oneLine (h : Decoration name line) (hn : IsName name) : OneLine line := by
  have hcolon : OneLine ":" := by decide
  cases h with
  | description gap text hgap hline => simp [hn.oneLine, oneLine_of_isSpace hgap, hcolon, hline]
  | note side a b c d text ha hb hc hd hline =>
    have hnote : OneLine "note" := by decide
    have hof : OneLine "of" := by decide
    have hside : OneLine side.word := by cases side <;> decide
    simp [hn.oneLine, oneLine_of_isSpace ha.all, oneLine_of_isSpace hb.all,
      oneLine_of_isSpace hc.all, oneLine_of_isSpace hd, hcolon, hnote, hof, hside, hline]

theorem exists_parts (h : Decoration name line) (hn : IsName name) : ∃ before text : List Char,
    (∀ c ∈ before.head?, Text.isBlank c = false) ∧ line.toList = before ++ ':' :: text ∧
      ∃ s c, Statement.read (before ++ ':' :: Text.trimEnd text) = .ok s ∧
        Event.ofStatement s = .ok (.inl (.clause c)) ∧ Clause.Decorates name c := by
  cases h with
  | description gap text hgap hline =>
    refine ⟨name.toList ++ gap.toList, text.toList, ?_, by simp, ?_⟩
    · obtain ⟨c, cs, hcs, hc⟩ := hn.exists_cons
      rw [hcs]
      rintro _ ⟨⟩
      exact Text.isBlank_of_isNameChar hc
    · rw [List.append_assoc]
      exact ⟨_, _, Statement.read_ok_iff.2 ⟨_, .description hn hgap (.text _)⟩, rfl,
        .description _⟩
  | note side a b c d text ha hb hc hd hline hplain =>
    refine ⟨"note".toList ++ (a.toList ++ (side.word.toList ++ (b.toList ++ ("of".toList ++
      (c.toList ++ (name.toList ++ d.toList)))))), text.toList, ?_, by simp, ?_⟩
    · rintro _ ⟨⟩
      decide
    · simp only [List.append_assoc]
      refine ⟨_, _, Statement.read_ok_iff.2 ⟨_, .note ha hb hc hn hd (.text _)⟩, rfl,
        .note side _ ?_⟩
      rw [Text.trim_trimEnd]
      exact History.mentions_trimmed hplain

theorem read (h : Decoration name line) (hn : IsName name) : ∃ c, Clause.Decorates name c ∧
    ∀ n, Event.read (Text.trimmed line) n = .ok (.inl (.clause c)) := by
  obtain ⟨before, text, hfirst, hline, s, c, hread, hs, hc⟩ := h.exists_parts hn
  have htrimmed : (Text.trimmed line).toList = before ++ ':' :: Text.trimEnd text := by
    rw [Text.trimmed, String.toList_ofList, hline]
    exact Text.trim_append hfirst (by decide) text
  exact ⟨c, hc, fun n => (Event.read_eq _ n).2 ⟨s, htrimmed ▸ hread, hs⟩⟩

theorem takes (h : Decoration name line) (hn : IsName name) (n : Nat) :
    Event.Takes n (Text.trimmed line) none none [] ∨ ∃ c, Clause.Decorates name c ∧
      Event.Takes n (Text.trimmed line) none none [⟨.clause c, n, Text.trimmed line⟩] := by
  obtain ⟨c, hc, hread⟩ := h.read hn
  cases hs : Event.isSilent (Text.trimmed line) with
  | true => exact .inl (.silence hs)
  | false => exact .inr ⟨c, hc, .event _ hs (hread n)⟩

theorem scan {input other : String} {es : List (Located Event)} (h : Decoration name line)
    (hn : IsName name) (ha : Text.LineAdded line input other) (hes : Event.scan input = .ok es) :
    Event.scan other = .ok es ∨ ∃ c n, Clause.Decorates name c ∧ (∀ e ∈ es, e.line < n) ∧
      Event.scan other = .ok (es ++ [⟨.clause c, n, Text.trimmed line⟩]) := by
  obtain ⟨ls, hs, ht⟩ := Event.exists_lines ha (h.oneLine hn)
  rw [hs] at hes
  have hlast : ∀ out, Event.Takes (1 + ls.length) (Text.trimmed line) none none out →
      Event.scan other = .ok (es ++ out) := by
    intro out htakes
    have hout : Event.ofLines (1 + ls.length) none [Text.trimmed line] = .ok (out ++ []) :=
      Event.ofLines_of_takes htakes rfl
    rw [ht, ← List.append_nil out]
    exact Event.ofLines_append hes hout
  rcases h.takes hn (1 + ls.length) with htakes | ⟨c, hc, htakes⟩
  · exact .inl (List.append_nil es ▸ hlast [] htakes)
  · have hother := hlast _ htakes
    refine .inr ⟨c, _, hc, fun e he => ?_, hother⟩
    have hpair := (Event.increasing_ofLines (by simp) hother).2
    exact (List.pairwise_append.1 hpair).2.2 e he _ (List.mem_singleton_self _)

end Decoration

namespace BlockTree

theorem ofEvents_concat {es : List (Located Event)} {t : BlockTree} (h : ofEvents es = .ok t)
    (c : Clause) (n : Nat) (text : String) : ofEvents (es ++ [⟨.clause c, n, text⟩]) =
      .ok ⟨t.body ++ [.clause ⟨c, n, text⟩], t.direction⟩ :=
  ofEvents_ok.2 (foldlM_concat_ok (ofEvents_ok.1 h) rfl)

end BlockTree

namespace Registry

def refer (r : Registry) (c : Located Clause) : Registry :=
  { r with references := r.references ++ [([], c)] }

theorem ofBlock_concat {b : Block} {r : Registry} {c : Located Clause} {name : String}
    (h : ofBlock b = .ok r) (hc : Clause.Decorates name c.item) :
    ofBlock (b ++ [.clause c]) = .ok (r.refer c) := by
  have henter : enter r (.clause [] c) = .ok (r.refer c) := by
    obtain ⟨item, line, text⟩ := c
    cases hc <;> rfl
  have hentries : entriesOf [] (b ++ [.clause c]) = entriesOf [] b ++ [.clause [] c] :=
    entriesOf_append [] b [.clause c]
  unfold ofBlock at h ⊢
  rw [addBlock_eq] at h ⊢
  rw [hentries]
  exact foldlM_concat_ok h henter

end Registry

end Statechart
