import Mathlib
import Statechart.Proofs.Grammar
import Statechart.Proofs.Layout
import Statechart.Proofs.TextOrder

namespace Statechart

open Reader

/-- The name that a statement begins with, where no keyword stands before it. -/
def Statement.lead? : Statement → Option String
  | .transition (.named x) _ _ | .description x _ => some x
  | .transition .pseudo _ _ | .state _ _ _ | .note _ _ _ | .direction _ | .close
  | .separator => none

namespace Event

section Headers

variable {text : String} {cs rest : List Char} {k : Statement.Form} {s : Statement}

def headerWord : List Char :=
  "statediagram".toList

theorem isHeader_iff : isHeader cs = true ↔ headerWord <+: cs.map Char.toLower :=
  List.isPrefixOf_iff_prefix

theorem isNameChar_of_toLower {c : Char} (h : 0x61 ≤ c.toLower.toNat ∧ c.toLower.toNat < 0x7B) :
    Text.isNameChar c := by
  rcases Text.eq_of_toLower (c := c) rfl with heq | hcode
  · exact Statement.isNameChar_of_lower (heq ▸ h)
  · have hbounds : CharSet.alphabetic.bounds =
        0x41 :: 0x5B :: CharSet.alphabetic.bounds.drop 2 := rfl
    have hletter : CharSet.alphabetic.has c := by
      rw [CharSet.has, hbounds, CharSet.inside_of_le _ (by omega),
        CharSet.inside_of_lt _ (by omega)]
      rfl
    simp [Text.isNameChar, hletter]

theorem toLower_notMem_headerWord {c : Char} (h : Text.isNameChar c = false) :
    c.toLower ∉ headerWord := by
  have hword : headerWord = ['s', 't', 'a', 't', 'e', 'd', 'i', 'a', 'g', 'r', 'a', 'm'] := rfl
  have hletters : ∀ w ∈ headerWord, 0x61 ≤ w.toNat ∧ w.toNat < 0x7B := by simp [hword]
  intro hc
  rw [isNameChar_of_toLower (hletters _ hc)] at h
  cases h

theorem isHeader_append (hnext : ∀ c ∈ rest.head?, Text.isNameChar c = false) :
    isHeader (cs ++ rest) = isHeader cs := by
  rw [Bool.eq_iff_iff, isHeader_iff, isHeader_iff, List.map_append]
  refine ⟨fun h => ?_, fun h => h.trans (List.prefix_append _ _)⟩
  rcases List.prefix_or_prefix_of_prefix h (List.prefix_append _ _) with h' | ⟨ws, hws⟩
  · exact h'
  · rw [← hws, List.prefix_append_right_inj] at h
    cases ws with
    | nil => exact ⟨[], by simpa using hws.symm⟩
    | cons w ws =>
      obtain ⟨c, rest, rfl⟩ := List.exists_cons_of_ne_nil (l := rest) (by rintro rfl; simp at h)
      obtain ⟨rfl, -⟩ := List.cons_prefix_cons.1 h
      have hmem : c.toLower ∈ headerWord := hws ▸ List.mem_append_right _ List.mem_cons_self
      exact absurd hmem (toLower_notMem_headerWord (hnext c rfl))

theorem isHeader_of_written (h : s.Written k cs) :
    isHeader cs = s.lead?.any fun x => isHeader x.toList := by
  cases h with
  | @state x label opens a ds b c ha =>
    have hstate : isHeader ("state".toList ++ (a ++ (ds ++ (b ++ (Statement.brace opens ++ c))))) =
        isHeader "state".toList := by
      refine isHeader_append fun e he => ?_
      obtain ⟨d, a, rfl⟩ := List.exists_cons_of_ne_nil ha.nonempty
      obtain rfl := Option.some.inj he
      exact Statement.isNameChar_of_isSpace (ha.all d List.mem_cons_self)
    exact hstate
  | note | direction | close | separator => rfl
  | transition hs ha =>
    cases hs with
    | pseudo => rfl
    | named hx =>
      refine isHeader_append (Statement.next_of_spaces ha ?_)
      rintro _ ⟨⟩
      decide +kernel
  | description hx ha ht => exact isHeader_append (ht.next ha)

theorem head_of_written (h : s.Written k cs) : cs ≠ [] ∧ isComment cs = false := by
  have hname : ∀ {x : String} (rest : List Char), IsName x →
      x.toList ++ rest ≠ [] ∧ isComment (x.toList ++ rest) = false := by
    intro x rest hx
    obtain ⟨c, hhead, hc⟩ := Statement.head_of_isName hx rest
    have hpercent := Statement.head_ne_of_isName (d := '%') hx rest (by decide +kernel)
    obtain ⟨cs, hcs⟩ := List.head?_eq_some_iff.1 hhead
    rw [hcs] at hpercent ⊢
    have hne : ('%' == c) = false := beq_eq_false_iff_ne.2 fun h => hpercent (h ▸ rfl)
    refine ⟨List.cons_ne_nil _ _, ?_⟩
    change ('%' == c && _) = false
    rw [hne, Bool.false_and]
  cases h with
  | state | note | direction | close | separator => exact ⟨by simp, rfl⟩
  | transition hs ha =>
    cases hs with
    | pseudo => exact ⟨by simp, rfl⟩
    | named hx => exact hname _ hx
  | description hx => exact hname _ hx

theorem isSilent_of_parse {line : Nat} (h : Statement.parse text line = .ok s) :
    isSilent text = s.lead?.any fun x => isHeader x.toList := by
  obtain ⟨k, hk⟩ := Statement.read_ok_iff.1 (Statement.parse_ok_iff.1 h)
  obtain ⟨hne, hcomment⟩ := head_of_written hk
  rw [isSilent, hcomment, isHeader_of_written hk, List.isEmpty_eq_false_iff.2 hne]
  rfl

end Headers

section Lines

variable {line : Nat} {text : String} {note : Option (Located OpenNote)} {n : Located OpenNote}
  {before after ls : List String} {es : List (Located Event)}

def within (before : List String) : Bool :=
  before.foldl noteAfter false

inductive Gives (text : String) (line : Nat) (after : List String) : Option Event → Prop
  | silence (h : isSilent text) : Gives text line after none
  | event {s : Statement} {e : Event} (hs : isSilent text = false)
      (h : Statement.parse text line = .ok s) (he : ofStatement s = .ok (.inl e)) :
      Gives text line after (some e)
  | block {s : Statement} {n : OpenNote} {body rest : List String} {last : String}
      (hs : isSilent text = false) (h : Statement.parse text line = .ok s)
      (hn : ofStatement s = .ok (.inr n)) (hafter : after = body ++ last :: rest)
      (hbody : ∀ l ∈ body, isNoteEnd l = false) (hlast : isNoteEnd last) :
      Gives text line after (some (ofNote { n with body := n.body ++ body }))

theorem Gives.eq_none_iff {o : Option Event} (h : Gives text line after o) :
    o = none ↔ isSilent text := by
  cases h with
  | silence h => simp [h]
  | event hs | block hs => simp [hs]

theorem parse_of_read {r : Event ⊕ OpenNote} (h : read text line = .ok r) :
    ∃ s, Statement.parse text line = .ok s ∧ ofStatement s = .ok r := by
  obtain ⟨s, hs, hr⟩ := (read_eq text line).1 h
  exact ⟨s, Statement.parse_ok_iff.2 hs, hr⟩

theorem exists_noteEnd (h : ofLines line (some n) ls = .ok es) : ∃ body last rest es',
    ls = body ++ last :: rest ∧ (∀ l ∈ body, isNoteEnd l = false) ∧ isNoteEnd last ∧
      ofLines (line + body.length + 1) none rest = .ok es' ∧
      es = ⟨ofNote { n.item with body := n.item.body ++ body }, n.line, n.text⟩ :: es' := by
  rcases exists_first_noteEnd ls with hnone | ⟨body, last, rest, rfl, hbody, hlast⟩
  · rw [ofLines_unended hnone] at h
    cases h
  · rw [ofLines_block hbody hlast] at h
    cases hrest : ofLines (line + body.length + 1) none rest with
    | error f =>
      rw [hrest] at h
      cases h
    | ok es' =>
      rw [hrest] at h
      exact ⟨body, last, rest, es', rfl, hbody, hlast, hrest, (Except.ok.inj h).symm⟩

theorem gives_of_ofLines (h : ofLines line none (text :: after) = .ok es) : ∃ o es',
    Gives text line after o ∧ es = (o.toList.map fun e => ⟨e, line, text⟩) ++ es' ∧
      ∀ e ∈ es', line < e.line := by
  have hlater : ∀ {rest : List String} {k : Nat} {es' : List (Located Event)}, line < k →
      ofLines k none rest = .ok es' → ∀ e ∈ es', line < e.line := by
    intro rest k es' hk hes e he
    exact Nat.lt_of_lt_of_le hk ((increasing_ofLines (by simp) hes).1 e he)
  obtain ⟨note', out, es', htakes, hrest, rfl⟩ := takes_of_ofLines h
  cases htakes with
  | silence hs => exact ⟨none, es', .silence hs, rfl, hlater (by omega) hrest⟩
  | event e hs hread =>
    obtain ⟨s, hparse, he⟩ := parse_of_read hread
    exact ⟨some e, es', .event hs hparse he, rfl, hlater (by omega) hrest⟩
  | noteHead m hs hread =>
    obtain ⟨s, hparse, hm⟩ := parse_of_read hread
    obtain ⟨body, last, rest, es'', rfl, hbody, hlast, hes, rfl⟩ := exists_noteEnd hrest
    exact ⟨_, es'', .block hs hparse hm rfl hbody hlast, rfl, hlater (by omega) hes⟩

theorem Takes.lines_lt {note' : Option (Located OpenNote)} (h : Takes line text note note' es)
    (hn : ∀ m ∈ note, m.line < line) :
    (∀ m ∈ note', m.line < line + 1) ∧ ∀ e ∈ es, e.line < line + 1 := by
  cases h with
  | noteEnd n => exact ⟨nofun, List.forall_mem_singleton.2 (Nat.lt_succ_of_lt (hn n rfl))⟩
  | noteLine n =>
    refine ⟨?_, nofun⟩
    rintro _ ⟨⟩
    exact Nat.lt_succ_of_lt (hn n rfl)
  | silence => exact ⟨nofun, nofun⟩
  | noteHead =>
    refine ⟨?_, nofun⟩
    rintro _ ⟨⟩
    exact Nat.lt_succ_self line
  | event => exact ⟨nofun, List.forall_mem_singleton.2 (Nat.lt_succ_self line)⟩

theorem exists_run (hn : ∀ m ∈ note, m.line < line)
    (h : ofLines line note (before ++ after) = .ok es) : ∃ note' es₁ es₂, es = es₁ ++ es₂ ∧
      note'.isSome = before.foldl noteAfter note.isSome ∧
      (∀ e ∈ es₁, e.line < line + before.length) ∧
      (note' = none → ofLines line note before = .ok es₁) ∧
      ofLines (line + before.length) note' after = .ok es₂ := by
  induction before generalizing line note es with
  | nil =>
    refine ⟨note, [], es, rfl, rfl, by simp, ?_, h⟩
    rintro rfl
    rfl
  | cons text before ih =>
    obtain ⟨note', out, es', htakes, hrest, rfl⟩ := takes_of_ofLines h
    obtain ⟨hnext, hout⟩ := htakes.lines_lt hn
    obtain ⟨note'', es₁, es₂, rfl, hsome, hlow, hbefore, hlast⟩ := ih hnext hrest
    have hlength : line + (text :: before).length = line + 1 + before.length := by
      rw [List.length_cons]
      omega
    rw [hlength]
    refine ⟨note'', out ++ es₁, es₂, (List.append_assoc ..).symm, ?_, ?_, ?_, hlast⟩
    · rw [hsome, htakes.noteAfter]
      rfl
    · refine List.forall_mem_append.2 ⟨fun e he => ?_, hlow⟩
      have hline := hout e he
      omega
    · exact fun hclosed => ofLines_of_takes htakes (hbefore hclosed)

theorem gives_of_scan {input : String} (h : scan input = .ok es)
    (hlines : (Text.linesOf input).map Text.trimmed = before ++ text :: after)
    (hout : within before = false) : ∃ o, Gives text (before.length + 1) after o ∧
      (es.filter fun e => e.line = before.length + 1) =
        o.toList.map fun e => ⟨e, before.length + 1, text⟩ := by
  rw [scan, hlines] at h
  obtain ⟨note, es₁, es₂, rfl, hsome, hlow, -, hrest⟩ := exists_run (by simp) h
  obtain rfl : note = none := by simpa using hsome.trans hout
  rw [Nat.add_comm 1] at hlow hrest
  obtain ⟨o, es', hgives, rfl, hhigh⟩ := gives_of_ofLines hrest
  refine ⟨o, hgives, ?_⟩
  have hfirst : (es₁.filter fun e => e.line = before.length + 1) = [] :=
    List.filter_eq_nil_iff.2 fun e he => by simpa using (hlow e he).ne
  have hlast : (es'.filter fun e => e.line = before.length + 1) = [] :=
    List.filter_eq_nil_iff.2 fun e he => by simpa using (hhigh e he).ne'
  rw [List.filter_append, List.filter_append, hfirst, hlast, List.nil_append, List.append_nil]
  exact List.filter_eq_self.2 fun e he => by
    obtain ⟨e, -, rfl⟩ := List.mem_map.1 he
    simp

end Lines

theorem kept_of_scan {input : String} {es : List (Located Event)} (h : scan input = .ok es)
    {before after : List String} {text : String}
    (hlines : (Text.linesOf input).map Text.trimmed = before ++ text :: after)
    (hout : within before = false) : ∃ o, Gives text (before.length + 1) after o ∧
      (es.filter fun e => e.line = before.length + 1) =
        (o.toList.map fun e => ⟨e, before.length + 1, text⟩) ∧
      (o = none ↔ text = "" ∨ isComment text.toList ∨ isHeader text.toList) ∧
      ∀ s, Statement.parse text (before.length + 1) = .ok s →
        (o = none ↔ ∃ x ∈ s.lead?, isHeader x.toList) := by
  obtain ⟨o, hgives, hfilter⟩ := gives_of_scan h hlines hout
  refine ⟨o, hgives, hfilter, ?_, fun s hs => ?_⟩
  · rw [hgives.eq_none_iff, isSilent, Bool.or_eq_true, Bool.or_eq_true, List.isEmpty_iff,
      String.toList_eq_nil_iff, or_assoc]
  · rw [hgives.eq_none_iff, isSilent_of_parse hs, Option.any_eq_true]
    rfl

theorem within_singleton {text : String} {e : Event} (hs : isSilent text = false)
    (h : read text 1 = .ok (.inl e)) : within [text] = false := by
  have hafter := (Takes.event e hs h).noteAfter
  rw [Option.isSome_none] at hafter
  rw [within, List.foldl_cons, List.foldl_nil, ← hafter]

theorem kept_sample : scan Sample.text = .ok Sample.events ∧
    (Text.linesOf Sample.text).map Text.trimmed =
      ["[*] --> On"] ++ "Off --> On" :: (Sample.events.drop 2).map Located.text ∧
    within ["[*] --> On"] = false ∧
    ∃ o, Gives "Off --> On" 2 ((Sample.events.drop 2).map Located.text) o ∧
      [⟨.clause (.transition "Off" "On" none), 2, "Off --> On"⟩] =
        o.toList.map fun e => (⟨e, 2, "Off --> On"⟩ : Located Event) := by
  have hlines : (Text.linesOf Sample.text).map Text.trimmed =
      ["[*] --> On"] ++ "Off --> On" :: (Sample.events.drop 2).map Located.text :=
    Sample.lines_text
  have hread : read "[*] --> On" 1 = .ok (.inl (.clause (.initial "On"))) := by
    refine (read_eq _ _).2 ⟨.transition .pseudo (.named "On") none, ?_, rfl⟩
    rw [show "[*] --> On".toList = ['[', '*', ']', ' ', '-', '-', '>', ' ', 'O', 'n'] from rfl]
    rfl
  have hout : within ["[*] --> On"] = false := within_singleton (by decide +kernel) hread
  obtain ⟨o, hgives, hfilter, -⟩ := kept_of_scan Sample.scan_text hlines hout
  exact ⟨Sample.scan_text, hlines, hout, o, hgives, hfilter⟩

/-- A text whose second line is an arrow from a state that is named as a header begins. -/
def headed : String :=
  "[*] --> A\nstateDiagramDone --> A"

theorem lines_headed : (Text.linesOf headed).map Text.trimmed =
    ["[*] --> A", "stateDiagramDone --> A"] := by
  decide +kernel

theorem scan_headed : scan headed = .ok [⟨.clause (.initial "A"), 1, "[*] --> A"⟩] := by
  rw [scan, lines_headed]
  refine ofLines_cons (by decide +kernel) (by decide +kernel) ?_
  exact ofLines_of_takes (.silence (by decide +kernel)) rfl

theorem skipped_arrow : scan headed = .ok [⟨.clause (.initial "A"), 1, "[*] --> A"⟩] ∧
    (Text.linesOf headed).map Text.trimmed = ["[*] --> A"] ++ ["stateDiagramDone --> A"] ∧
    within ["[*] --> A"] = false ∧ isComment "stateDiagramDone --> A".toList = false ∧
    Statement.parse "stateDiagramDone --> A" 2 =
      .ok (.transition (.named "stateDiagramDone") (.named "A") none) := by
  refine ⟨scan_headed, lines_headed, ?_, rfl, ?_⟩
  · have hread : read "[*] --> A" 1 = .ok (.inl (.clause (.initial "A"))) := by
      refine (read_eq _ _).2 ⟨.transition .pseudo (.named "A") none, ?_, rfl⟩
      rw [show "[*] --> A".toList = ['[', '*', ']', ' ', '-', '-', '>', ' ', 'A'] from rfl]
      rfl
    exact within_singleton (by decide +kernel) hread
  · rw [Statement.parse_ok_iff, show "stateDiagramDone --> A".toList = ['s', 't', 'a', 't', 'e',
      'D', 'i', 'a', 'g', 'r', 'a', 'm', 'D', 'o', 'n', 'e', ' ', '-', '-', '>', ' ', 'A'] from rfl]
    rfl

end Event

end Statechart
