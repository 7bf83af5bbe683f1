import Mathlib
import Statechart.Proofs.Lines
import Statechart.Proofs.RelocatedText

namespace Statechart

namespace Text

def pieces (s : String) : List String :=
  (split '\n' s.toList).map String.ofList

theorem map_trimmed_ofList (ps : List (List Char)) :
    (ps.map String.ofList).map trimmed = (ps.map trim).map String.ofList := by
  simp [trimmed]

theorem map_trimmed_pieces (s : String) : (pieces s).map trimmed = (linesOf s).map trimmed ∨
    (pieces s).map trimmed = (linesOf s).map trimmed ++ [""] := by
  rw [pieces, linesOf, map_trimmed_ofList, map_trimmed_ofList]
  refine (map_trim_split s.toList).imp (congrArg _) fun h => ?_
  rw [h, List.map_append]
  rfl

theorem pieces_append (s t : String) : pieces (s ++ "\n" ++ t) = pieces s ++ pieces t := by
  simp [pieces, split_append_cons]

theorem notMem_of_mem_pieces {s p : String} (h : p ∈ pieces s) : '\n' ∉ p.toList := by
  obtain ⟨cs, hcs, rfl⟩ := List.mem_map.1 h
  rw [String.toList_ofList]
  exact notMem_of_mem_split hcs

theorem pieces_ne_nil (s : String) : pieces s ≠ [] :=
  fun h => split_ne_nil '\n' s.toList (List.map_eq_nil_iff.1 h)

theorem pieces_of_notMem {s : String} (h : '\n' ∉ s.toList) : pieces s = [s] := by
  rw [pieces, split_of_notMem h, List.map_singleton, String.ofList_toList]

theorem pieces_joined {ls : List String} (hne : ls ≠ []) (h : ∀ l ∈ ls, OneLine l) :
    pieces (joined "\n" ls) = ls := by
  induction ls with
  | nil => exact absurd rfl hne
  | cons l ls ih =>
    obtain ⟨hl, hls⟩ := List.forall_mem_cons.1 h
    cases ls with
    | nil => exact pieces_of_notMem hl
    | cons l' ls =>
      rw [joined, pieces_append, pieces_of_notMem hl, ih (List.cons_ne_nil l' ls) hls]
      rfl

theorem map_trimmed_pieces_joined {ps : List String} (hne : ps ≠ [])
    (h : ∀ p ∈ ps, '\n' ∉ p.toList) :
    (pieces (joined "\r\n" ps)).map trimmed = ps.map trimmed := by
  induction ps with
  | nil => exact absurd rfl hne
  | cons p ps ih =>
    obtain ⟨hp, hps⟩ := List.forall_mem_cons.1 h
    cases ps with
    | nil => rw [joined, pieces_of_notMem hp]
    | cons q ps =>
      have hreturn : trimmed (p ++ "\r") = trimmed p := by
        have htrim : trim (p.toList ++ ['\r']) = trim p.toList :=
          trim_concat_of_blank p.toList (by decide)
        simp [trimmed, htrim]
      have htext : joined "\r\n" (p :: q :: ps) = p ++ "\r" ++ "\n" ++ joined "\r\n" (q :: ps) := by
        rw [joined, show p ++ "\r" ++ "\n" = p ++ "\r\n" from String.append_assoc]
      rw [htext, pieces_append, pieces_of_notMem (by simp [hp]), List.map_append, ih (by simp) hps,
        List.map_singleton, hreturn]
      rfl

end Text

namespace Event

variable {line : Nat} {text : String} {note note' : Option (Located OpenNote)}
  {es es' out : List (Located Event)} {ls : List String}

theorem ofLines_concat_empty (line : Nat) (note : Option (Located OpenNote)) (ls : List String) :
    ofLines line note (ls ++ [""]) = ofLines line note ls := by
  induction ls generalizing line note with
  | nil => cases note <;> rfl
  | cons l ls ih => cases note <;> simp only [List.cons_append, ofLines, ih]

theorem scan_eq (input : String) :
    scan input = ofLines 1 none ((Text.pieces input).map Text.trimmed) := by
  rcases Text.map_trimmed_pieces input with h | h
  · rw [scan, h]
  · rw [scan, h, ofLines_concat_empty]

theorem Takes.located (h : Takes line text note note' out) (m : Relocation) :
    Takes (m.line line) text (note.map m.located) (note'.map m.located) (out.map m.located) := by
  cases h with
  | noteEnd n h => exact .noteEnd (m.located n) h
  | noteLine n h => exact .noteLine (m.located n) h
  | silence h => exact .silence h
  | noteHead n hs h => exact .noteHead n hs (read_anywhere h _)
  | event e hs h => exact .event e hs (read_anywhere h _)

def opensNote (text : String) : Bool :=
  match isSilent text, read text 1 with
  | false, .ok (.inr _) => true
  | _, _ => false

def noteAfter (inNote : Bool) (text : String) : Bool :=
  if inNote then !isNoteEnd text else opensNote text

theorem Takes.noteAfter (h : Takes line text note note' out) :
    note'.isSome = Event.noteAfter note.isSome text := by
  cases h with
  | noteEnd n h => simp [Event.noteAfter, h]
  | noteLine n h => simp [Event.noteAfter, h]
  | silence h => simp [Event.noteAfter, opensNote, h]
  | noteHead n hs h => simp [Event.noteAfter, opensNote, hs, read_anywhere h 1]
  | event e hs h => simp [Event.noteAfter, opensNote, hs, read_anywhere h 1]

def isFiller (text : String) : Bool :=
  text.toList.isEmpty || isComment text.toList

theorem isSilent_of_isFiller (h : isFiller text) : isSilent text := by
  unfold isFiller at h
  unfold isSilent
  rw [h]
  rfl

end Event

namespace Layout

/-- The map of positions when a first line is kept and the others are mapped by `g`. -/
def carry (g : Nat → Nat) : Nat → Nat
  | 0 => 0
  | k + 1 => g k + 1

theorem carry_id : carry id = id := by
  funext k
  cases k <;> rfl

theorem strictMono_carry {g : Nat → Nat} (hg : StrictMono g) : StrictMono (carry g) := by
  refine strictMono_nat_of_lt_succ fun k => ?_
  cases k with
  | zero => exact Nat.succ_pos _
  | succ k => exact Nat.succ_lt_succ (hg (Nat.lt_succ_self k))

/-- The lines of a text and those of the same text in another layout, from a place on that may be in
    a note block, and the position that each line has gone to. -/
inductive Relaid : Bool → List String → List String → (Nat → Nat) → Prop
  | nil (inNote : Bool) : Relaid inNote [] [] id
  | insert {old new : List String} {g : Nat → Nat} (line : String)
      (h : Event.isFiller (Text.trimmed line)) (rest : Relaid false old new g) :
      Relaid false old (line :: new) fun k => g k + 1
  | keep {inNote : Bool} {old new : List String} {g : Nat → Nat} (line line' : String)
      (h : Text.trimmed line' = Text.trimmed line)
      (rest : Relaid (Event.noteAfter inNote (Text.trimmed line)) old new g) :
      Relaid inNote (line :: old) (line' :: new) (carry g)

variable {inNote : Bool} {old new : List String} {g : Nat → Nat} {line line' : Nat}
  {note : Option (Located OpenNote)} {es : List (Located Event)}

theorem relaid_of_trimmed (h : new.map Text.trimmed = old.map Text.trimmed) (inNote : Bool) :
    Relaid inNote old new id := by
  induction old generalizing new inNote with
  | nil =>
    obtain rfl := List.map_eq_nil_iff.1 h
    exact .nil inNote
  | cons l old ih =>
    obtain ⟨l', new, rfl, hl, hnew⟩ := List.map_eq_cons_iff.1 h
    have hkeep := Relaid.keep l l' hl (ih hnew (Event.noteAfter inNote (Text.trimmed l)))
    rwa [carry_id] at hkeep

theorem Relaid.strictMono (h : Relaid inNote old new g) : StrictMono g := by
  induction h with
  | nil => exact strictMono_id
  | insert _ _ _ ih => exact fun a b hab => Nat.succ_lt_succ (ih hab)
  | keep _ _ _ _ ih => exact strictMono_carry ih

theorem ofLines_relaid {m : Relocation} (note : Option (Located OpenNote))
    (h : Relaid inNote old new g) (hnote : note.isSome = inNote)
    (hline : ∀ k, m.line (line + k) = line' + g k)
    (hes : Event.ofLines line note (old.map Text.trimmed) = .ok es) :
    Event.ofLines line' (note.map m.located) (new.map Text.trimmed) = .ok (es.map m.located) := by
  induction h generalizing line line' note es with
  | nil =>
    cases note with
    | none =>
      cases hes
      rfl
    | some n => cases hes
  | @insert old new g l hl _ ih =>
    -- the line takes up a number and does nothing else
    have hnext : ∀ k, m.line (line + k) = line' + 1 + g k := by
      intro k
      have hk : m.line (line + k) = line' + (g k + 1) := hline k
      omega
    obtain rfl : note = none := by simpa using hnote
    exact Event.ofLines_of_takes (.silence (Event.isSilent_of_isFiller hl)) (ih none rfl hnext hes)
  | @keep inNote old new g l l' hl _ ih =>
    have hfirst : m.line line = line' := hline 0
    have hnext : ∀ k, m.line (line + 1 + k) = line' + 1 + g k := by
      intro k
      have hk : m.line (line + (k + 1)) = line' + (g k + 1) := hline (k + 1)
      rw [show line + 1 + k = line + (k + 1) by omega]
      omega
    obtain ⟨note', out, es', ht, hes', rfl⟩ := Event.takes_of_ofLines hes
    rw [List.map_cons, hl, List.map_append]
    have hrest := ih note' (hnote ▸ ht.noteAfter) hnext hes'
    exact Event.ofLines_of_takes (hfirst ▸ ht.located m) hrest

theorem scan_relaid {input other : String} {m : Relocation}
    (h : Relaid false (Text.pieces input) (Text.pieces other) g) (hline : m.line = carry g)
    (hes : Event.scan input = .ok es) : Event.scan other = .ok (es.map m.located) := by
  rw [Event.scan_eq] at hes ⊢
  refine ofLines_relaid none h rfl (fun k => ?_) hes
  rw [hline, Nat.add_comm 1 k, Nat.add_comm 1 (g k)]
  rfl

end Layout

namespace Node

mutual

theorem renamed_self : ∀ n : Node, renamed (fun a => a) n = n
  | simple _ _ | history _ _ => rfl
  | composite _ _ _ ns | region _ _ _ ns => by simp [renamed, renamedAll_self ns]
  | concurrent _ _ ns => by rw [renamed, renamedAll_self ns]

theorem renamedAll_self : ∀ ns : List Node, renamedAll (fun a => a) ns = ns
  | [] => rfl
  | n :: ns => by rw [renamedAll, renamed_self n, renamedAll_self ns]

end

end Node

def Chart.renumbered (f : Nat → Nat) (c : Chart) : Chart :=
  { c with
    states := c.states.map fun s => { s with line := f s.line }
    transitions := c.transitions.map fun t => { t with line := f t.line }
    remarks := c.remarks.map fun r => { r with line := f r.line } }

theorem Chart.renumbered_id (c : Chart) : c.renumbered id = c := by
  simp [Chart.renumbered]

namespace Relocation

def moving (f : Nat → Nat) (h : StrictMono f) : Relocation where
  wrapper := none
  line := f
  increasing := h
  after := by simp

variable {f : Nat → Nat} {h : StrictMono f}

theorem under_moving : (moving f h).under = fun a => a :=
  funext fun a => under_of_none rfl a

theorem around_moving : (moving f h).around = fun a => a := by
  funext a
  cases a <;> rfl

theorem chart_moving (c : Chart) : (moving f h).chart c = c.renumbered f := by
  have hline : (moving f h).line = f := rfl
  have hwrapper : (moving f h).wrapper = none := rfl
  have hregion : (moving f h).region = id := by
    funext r
    simp [Relocation.region, under_moving]
  simp [chart, Chart.renumbered, states, shell, roots, above, table, pairs, Relocation.direction,
    state, transition, remark, under_moving, around_moving, hline, hwrapper, hregion,
    Node.renamedAll_self]

end Relocation

namespace Layout

theorem parse_relaid {fallback : Fallback} {input : String} {c : Chart}
    (h : Chart.parse fallback input = .ok c) :
    (∀ other g, Relaid false (Text.pieces input) (Text.pieces other) g →
      StrictMono (carry g) ∧ Chart.parse fallback other = .ok (c.renumbered (carry g))) ∧
    Chart.parse fallback (Text.joined "\r\n" (Text.pieces input)) = .ok c := by
  have hall : ∀ other g, Relaid false (Text.pieces input) (Text.pieces other) g →
      StrictMono (carry g) ∧ Chart.parse fallback other = .ok (c.renumbered (carry g)) := by
    intro other g hrelaid
    have hmono := strictMono_carry hrelaid.strictMono
    let m := Relocation.moving (carry g) hmono
    obtain ⟨es, hes⟩ := Relocation.exists_scan_of_parse h
    have hscan : Event.scan other = .ok (m.events 0 es) := scan_relaid hrelaid rfl hes
    have hfree : ∀ s ∈ c.states, m.Free s.name := fun s _ w hw => nomatch hw
    have hplain : ∀ f, FlatChart.ofText input = .ok f → m.PlainIn f.notes :=
      fun f _ n _ p _ w hw => nomatch hw
    exact ⟨hmono, Relocation.chart_moving c ▸ m.parse_of_events hes hscan h hfree hplain⟩
  refine ⟨hall, ?_⟩
  have hsame := Text.map_trimmed_pieces_joined (Text.pieces_ne_nil input)
    fun _ => Text.notMem_of_mem_pieces
  have hreturns := (hall _ id (relaid_of_trimmed hsame false)).2
  rwa [carry_id, Chart.renumbered_id] at hreturns

theorem parse_relaid_sample : Chart.parse .firstChild Sample.text = .ok Sample.chart ∧
    Chart.parse .firstChild ("%% states" ++ "\n" ++ Sample.text) =
      .ok (Sample.chart.renumbered (carry fun k => k + 1)) ∧
    Chart.parse .firstChild (Text.joined "\r\n" (Text.pieces Sample.text)) = .ok Sample.chart := by
  obtain ⟨hall, hreturns⟩ := parse_relaid Sample.parse_text
  have hrelaid : Relaid false (Text.pieces Sample.text)
      (Text.pieces ("%% states" ++ "\n" ++ Sample.text)) fun k => k + 1 := by
    rw [Text.pieces_append, Text.pieces_of_notMem (s := "%% states") (by decide),
      List.singleton_append]
    have hfiller : Event.isFiller (Text.trimmed "%% states") := by decide +kernel
    exact .insert "%% states" hfiller (relaid_of_trimmed rfl false)
  exact ⟨Sample.parse_text, (hall _ _ hrelaid).2, hreturns⟩

end Layout

end Statechart
