import Mathlib
import Statechart.Proofs.FaultLines
import Statechart.Proofs.KeptLines

namespace Statechart.Event

inductive Covers : Nat → List String → List (Located Event) → Prop
  | done (line : Nat) : Covers line [] []
  | silence {line : Nat} {text : String} {rest : List String} {es : List (Located Event)}
      (hs : isSilent text) (hrest : Covers (line + 1) rest es) : Covers line (text :: rest) es
  | event {line : Nat} {text : String} {s : Statement} {e : Event} {rest : List String}
      {es : List (Located Event)} (hs : isSilent text = false)
      (hparse : Statement.parse text line = .ok s) (he : ofStatement s = .ok (.inl e))
      (hrest : Covers (line + 1) rest es) :
      Covers line (text :: rest) (⟨e, line, text⟩ :: es)
  | block {line : Nat} {head name last : String} {side : NoteSide} {body rest : List String}
      {es : List (Located Event)} (hs : isSilent head = false)
      (hparse : Statement.parse head line = .ok (.note side name none))
      (hbody : ∀ l ∈ body, isNoteEnd l = false) (hlast : isNoteEnd last)
      (hrest : Covers (line + body.length + 2) rest es) :
      Covers line (head :: (body ++ last :: rest))
        (⟨.clause (.note name side (Text.joined "\n" body)), line, head⟩ :: es)

inductive Halts (line : Nat) (text : String) (after : List String) : Fault → Prop
  | misread {f : Fault} (hs : isSilent text = false) (hread : read text line = .error f) :
      Halts line text after f
  | unended {name : String} {side : NoteSide} (hs : isSilent text = false)
      (hparse : Statement.parse text line = .ok (.note side name none))
      (hafter : ∀ l ∈ after, isNoteEnd l = false) :
      Halts line text after (.structural (.openNote name) line 1 text)

variable {line : Nat} {text last : String} {n : Located OpenNote}
  {body before rest ls : List String} {es : List (Located Event)} {f : Fault}

theorem read_of_parse {s : Statement} {r : Event ⊕ OpenNote} (h : Statement.parse text line = .ok s)
    (hs : ofStatement s = .ok r) : read text line = .ok r :=
  (read_eq text line).2 ⟨s, Statement.parse_ok_iff.1 h, hs⟩

theorem Covers.ofLines_append (h : Covers line before es) : ofLines line none (before ++ rest) =
    (ofLines (line + before.length) none rest).map (es ++ ·) := by
  induction h with
  | done line =>
    rw [List.nil_append, List.length_nil, Nat.add_zero]
    cases ofLines line none rest <;> rfl
  | @silence line text before es hs _ ih =>
    rw [List.cons_append, ofLines_takes (.silence hs), ih, List.length_cons,
      Nat.add_right_comm line 1, Nat.add_assoc line]
    cases ofLines (line + (before.length + 1)) none rest <;> rfl
  | @event line text s e before es hs hparse he _ ih =>
    rw [List.cons_append, ofLines_takes (.event e hs (read_of_parse hparse he)), ih,
      List.length_cons, Nat.add_right_comm line 1, Nat.add_assoc line]
    cases ofLines (line + (before.length + 1)) none rest <;> rfl
  | @block line head name last side body before es hs hparse hbody hlast _ ih =>
    have hlength : (head :: (body ++ last :: before)).length = body.length + 2 + before.length := by
      simp only [List.length_cons, List.length_append]
      omega
    rw [List.cons_append, List.append_assoc, List.cons_append,
      ofLines_takes (.noteHead _ hs (read_of_parse hparse rfl)), ofLines_block hbody hlast,
      Nat.add_right_comm line 1, Nat.add_assoc _ 1 1, ih, hlength, ← Nat.add_assoc line,
      ← Nat.add_assoc line]
    cases ofLines (line + body.length + 2 + before.length) none rest <;> rfl

theorem Covers.ofLines_eq (h : Covers line ls es) : ofLines line none ls = .ok es := by
  have happend : ofLines line none (ls ++ []) = _ := h.ofLines_append
  rw [List.append_nil] at happend
  rw [happend, ofLines]
  exact congrArg Except.ok (List.append_nil es)

theorem Halts.ofLines_eq (h : Halts line text rest f) :
    ofLines line none (text :: rest) = .error f := by
  cases h with
  | misread hs hread => exact ofLines_misread hs hread
  | unended hs hparse hafter =>
    rw [ofLines_takes (.noteHead _ hs (read_of_parse hparse rfl)), ofLines_unended hafter]
    rfl

inductive Ends (line : Nat) (ls : List String) : Prop
  | covered {es : List (Located Event)} (h : Covers line ls es) : Ends line ls
  | halted {before after : List String} {text : String} {es : List (Located Event)} {f : Fault}
      (hls : ls = before ++ text :: after) (hbefore : Covers line before es)
      (h : Halts (line + before.length) text after f) : Ends line ls

theorem Ends.of_step {line' : Nat} (first : List String) (hline : line' = line + first.length)
    (hstep : ∀ {ls es}, Covers line' ls es → ∃ es', Covers line (first ++ ls) es')
    (h : Ends line' rest) : Ends line (first ++ rest) := by
  cases h with
  | covered h =>
    obtain ⟨es', h⟩ := hstep h
    exact .covered h
  | @halted before after text es f hls hbefore h =>
    obtain ⟨es', hbefore⟩ := hstep hbefore
    have hlength : line + (first ++ before).length = line' + before.length := by
      rw [List.length_append, ← Nat.add_assoc, hline]
    rw [← hlength] at h
    exact .halted (by rw [hls, List.append_assoc]) hbefore h

theorem Ends.of_block {head name : String} {side : NoteSide} (hs : isSilent head = false)
    (hparse : Statement.parse head line = .ok (.note side name none))
    (hbody : ∀ l ∈ body, isNoteEnd l = false) (hlast : isNoteEnd last)
    (h : Ends (line + body.length + 2) rest) : Ends line (head :: (body ++ last :: rest)) := by
  have hline : line + body.length + 2 = line + (head :: (body ++ [last])).length := by
    simp only [List.length_cons, List.length_append, List.length_nil]
    omega
  have hsplit : ∀ ls, head :: (body ++ [last]) ++ ls = head :: (body ++ last :: ls) := by
    intro ls
    rw [List.cons_append, List.append_assoc, List.singleton_append]
  have hstep : ∀ {ls es}, Covers (line + body.length + 2) ls es →
      ∃ es', Covers line (head :: (body ++ [last]) ++ ls) es' := by
    intro ls es h
    rw [hsplit]
    exact ⟨_, .block hs hparse hbody hlast h⟩
  rw [← hsplit]
  exact .of_step _ hline hstep h

theorem ends (line : Nat) (ls : List String) : Ends line ls := by
  -- A block takes more than one line, so the induction is on how many there are.
  induction hlen : ls.length using Nat.strong_induction_on generalizing line ls with
  | _ k ih =>
    cases ls with
    | nil => exact .covered (.done line)
    | cons text rest =>
      rw [List.length_cons] at hlen
      have hnext : Ends (line + 1) rest := ih rest.length (by omega) _ _ rfl
      cases hs : isSilent text with
      | true => exact .of_step [text] rfl (fun h => ⟨_, .silence hs h⟩) hnext
      | false =>
        cases hread : read text line with
        | error f => exact .halted (List.nil_append _).symm (.done line) (.misread hs hread)
        | ok r =>
          obtain ⟨s, hparse, hr⟩ := parse_of_read hread
          cases r with
          | inl e =>
            exact .of_step [text] rfl (fun h => ⟨_, .event hs hparse hr h⟩) hnext
          | inr n =>
            obtain rfl := ofStatement_inr hr
            rcases exists_first_noteEnd rest with hnone | ⟨body, last, rest, rfl, hbody, hlast⟩
            · exact .halted (List.nil_append _).symm (.done line) (.unended hs hparse hnone)
            · rw [List.length_append, List.length_cons] at hlen
              exact .of_block hs hparse hbody hlast (ih rest.length (by omega) _ _ rfl)

theorem covers_iff : Covers line ls es ↔ ofLines line none ls = .ok es := by
  refine ⟨Covers.ofLines_eq, fun h => ?_⟩
  cases ends line ls with
  | covered hc =>
    obtain rfl := Except.ok.inj (h.symm.trans hc.ofLines_eq)
    exact hc
  | halted hls hbefore hhalt =>
    rw [hls, hbefore.ofLines_append, hhalt.ofLines_eq] at h
    cases h

theorem halts_iff : ofLines line none ls = .error f ↔ ∃ before text after es,
    ls = before ++ text :: after ∧ Covers line before es ∧
      Halts (line + before.length) text after f := by
  constructor
  · intro h
    cases ends line ls with
    | covered hc => cases h.symm.trans hc.ofLines_eq
    | @halted before after text es g hls hbefore hhalt =>
      rw [hls, hbefore.ofLines_append, hhalt.ofLines_eq] at h
      obtain rfl : g = f := by simpa [Except.map] using h
      exact ⟨before, text, after, es, hls, hbefore, hhalt⟩
  · rintro ⟨before, text, after, es, rfl, hbefore, hhalt⟩
    rw [hbefore.ofLines_append, hhalt.ofLines_eq]
    rfl

theorem scan_covers (input : String) : let lines := (Text.linesOf input).map Text.trimmed
    (∀ es, scan input = .ok es ↔ Covers 1 lines es) ∧
    (∀ es, scan input = .ok es → es.Pairwise (fun e e' => e.line < e'.line) ∧
      ∀ e ∈ es, Text.StandsOn input e.line e.text) ∧
    ∀ f, scan input = .error f ↔ ∃ before text after es, lines = before ++ text :: after ∧
      Covers 1 before es ∧ Halts (before.length + 1) text after f := by
  refine ⟨fun es => covers_iff.symm, fun es h => ⟨?_, fun e he => ?_⟩, fun f => ?_⟩
  · exact (increasing_ofLines (by simp) h).2
  · exact (rooted_of_scan h e he).stands
  · rw [scan, halts_iff]
    simp only [Nat.add_comm 1]

/-- A text with a note block whose lines would each be something else outside it. -/
def crammed : String :=
  "stateDiagram-v2\nnote right of A\n  %% later\n\nstateDiagram\nnote left of B\n\x7d\n" ++
    "END note\nA --> B"

def crammedEvents : List (Located Event) :=
  [⟨.clause (.note "A" .right "%% later\n\nstateDiagram\nnote left of B\n\x7d"), 2,
    "note right of A"⟩, ⟨.clause (.transition "A" "B" none), 9, "A --> B"⟩]

theorem scan_crammed : scan crammed = .ok crammedEvents := by
  have hlines : (Text.linesOf crammed).map Text.trimmed = "stateDiagram-v2" :: "note right of A" ::
      (["%% later", "", "stateDiagram", "note left of B", "\x7d"] ++ ["END note", "A --> B"]) := by
    decide +kernel
  have hhead : Statement.parse "note right of A" 2 = .ok (.note .right "A" none) := by
    decide +kernel
  have harrow : ofLines 9 none ["A --> B"] =
      .ok [⟨.clause (.transition "A" "B" none), 9, "A --> B"⟩] :=
    ofLines_cons (by decide +kernel) (by decide +kernel) rfl
  rw [scan, hlines, ofLines_takes (.silence (by decide +kernel)),
    ofLines_takes (.noteHead _ (by decide +kernel) (read_of_parse hhead rfl)),
    ofLines_block (by decide +kernel) (by decide +kernel)]
  rw [show 1 + 1 + 1 + _ + 1 = 9 from rfl, harrow]
  decide +kernel

theorem scan_covers_crammed : scan crammed = .ok crammedEvents ∧
    Covers 1 ((Text.linesOf crammed).map Text.trimmed) crammedEvents ∧
    crammedEvents.Pairwise (fun e e' => e.line < e'.line) ∧
    ∀ e ∈ crammedEvents, Text.StandsOn crammed e.line e.text := by
  obtain ⟨hcovers, hstands, -⟩ := scan_covers crammed
  obtain ⟨hincreasing, htexts⟩ := hstands _ scan_crammed
  exact ⟨scan_crammed, (hcovers _).1 scan_crammed, hincreasing, htexts⟩

end Statechart.Event
