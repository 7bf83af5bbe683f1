import Mathlib
import Statechart.Proofs.Layout
import Statechart.Proofs.Misses
import Statechart.Proofs.WellFormed

namespace Statechart

/-- What stands on a line of the input, the first of which is number one. -/
structure Text.StandsOn (input : String) (line : Nat) (text : String) : Prop where
  first : 1 ≤ line
  last : line ≤ (linesOf input).length
  trimmed : ((linesOf input).map Text.trimmed)[line - 1]? = some text

def StructureCause.Concerns (s : Statement) : StructureCause → Prop
  | unsupported _ _ => False
  | unknownDirection code => s = .direction code
  | pseudoToPseudo => ∃ label, s = .transition .pseudo .pseudo label
  | openNote name => ∃ side, s = .note side name none
  | strayClose => s = .close
  | straySeparator => s = .separator
  | openState name | secondBody name => ∃ label, s = .state name label true
  | ambiguousName name _ => name ∈ s.names
  | undeclaredNote name => ∃ side text, s = .note side name text

/-- What a fault that is about a line of the input says of it: the line that is at fault, which for
    a note block or a body is the one that opens it. -/
def Fault.Faithful (input : String) : Fault → Prop
  | structural cause line column text =>
    Text.StandsOn input line text ∧ (1 ≤ column ∧ column ≤ text.utf8ByteSize + 1) ∧
      Text.IsColumn text column ∧
      match Statement.read text.toList with
      | .error f =>
        cause = .unsupported f.found f.expected ∧ column = Statement.column text.toList f.rest
      | .ok s => cause.Concerns s ∧ column = 1
  | history _ _ line text => Text.StandsOn input line text ∧
    ∃ side name body, Statement.read text.toList = .ok (.note side name body)
  | invalid _ | render _ => True

variable {input text : String} {line : Nat} {f : Fault} {s : Statement}

theorem Text.standsOn_of_drop {k : Nat} {ls : List String}
    (h : ((linesOf input).map Text.trimmed).drop k = text :: ls) :
    StandsOn input (k + 1) text ∧ ((linesOf input).map Text.trimmed).drop (k + 1) = ls := by
  have hget : ((linesOf input).map Text.trimmed)[k]? = some text := by
    rw [← Nat.add_zero k, ← List.getElem?_drop, h]
    rfl
  obtain ⟨hlt, -⟩ := List.getElem?_eq_some_iff.1 hget
  rw [List.length_map] at hlt
  refine ⟨⟨Nat.succ_pos k, hlt, hget⟩, ?_⟩
  rw [← List.drop_drop, h]
  rfl

theorem Fault.faithful_structural {cause : StructureCause} (ht : Text.StandsOn input line text)
    (hs : Statement.read text.toList = .ok s) (hc : cause.Concerns s) :
    (structural cause line 1 text).Faithful input := by
  refine ⟨ht, (Text.isColumn_one text).bounds, Text.isColumn_one text, ?_⟩
  rw [hs]
  exact ⟨hc, rfl⟩

namespace Event

variable {note note' : Option (Located OpenNote)} {out es : List (Located Event)}
  {ls : List String} {e : Event}

def Says (s : Statement) : Event → Prop
  | .direction _ => ∃ code, s = .direction code
  | .opening o => s = .state o.name o.label true
  | .close => s = .close
  | .separator => s = .separator
  | .clause (.note name side body) => ∃ text ∈ [none, some body], s = .note side name text
  | .clause c => c.names ⊆ s.names

theorem says_of_ofStatement (h : ofStatement s = .ok (.inl e)) : Says s e := by
  have hnames := namesRead_subset h
  cases s with
  | direction code =>
    simp only [ofStatement] at h
    split at h <;> cases h
    exact ⟨code, rfl⟩
  | state name label opens =>
    cases opens <;> cases h
    · exact hnames
    · rfl
  | close | separator => cases h; rfl
  | transition source target label => cases source <;> cases target <;> cases h <;> exact hnames
  | description name text => cases h; exact hnames
  | note side name body => cases body <;> cases h; exact ⟨_, by simp, rfl⟩

theorem Says.names {c : Clause} (h : Says s (.clause c)) : c.names ⊆ s.names := by
  cases c with
  | note name side body =>
    obtain ⟨text, -, rfl⟩ := h
    exact List.Subset.refl _
  | declare | initial | final | transition | description => exact h

structure Rooted (input : String) (e : Located Event) : Prop where
  stands : Text.StandsOn input e.line e.text
  said : ∃ s, Statement.read e.text.toList = .ok s ∧ Says s e.item

structure RootedNote (input : String) (n : Located OpenNote) : Prop where
  stands : Text.StandsOn input n.line n.text
  said : Statement.read n.text.toList = .ok (.note n.item.side n.item.name none)

theorem ofStatement_inr {n : OpenNote} (h : ofStatement s = .ok (.inr n)) :
    s = .note n.side n.name none := by
  cases s with
  | direction code =>
    simp only [ofStatement] at h
    split at h <;> cases h
  | transition source target label => cases source <;> cases target <;> cases h
  | note side name body => cases body <;> cases h; rfl
  | state | close | separator | description => cases h

theorem Takes.rooted (h : Takes line text note note' out) (ht : Text.StandsOn input line text)
    (hn : ∀ n ∈ note, RootedNote input n) :
    (∀ n ∈ note', RootedNote input n) ∧ ∀ e ∈ out, Rooted input e := by
  cases h with
  | noteEnd n _ =>
    obtain ⟨hstands, hsaid⟩ := hn n rfl
    refine ⟨by simp, fun e he => ?_⟩
    rw [List.mem_singleton.1 he]
    exact ⟨hstands, _, hsaid, none, by simp, rfl⟩
  | noteLine n _ =>
    obtain ⟨hstands, hsaid⟩ := hn n rfl
    refine ⟨?_, by simp⟩
    rintro _ ⟨⟩
    exact ⟨hstands, hsaid⟩
  | silence _ => exact ⟨by simp, by simp⟩
  | noteHead n _ hread =>
    obtain ⟨s, hs, hof⟩ := (read_eq text line).1 hread
    refine ⟨?_, by simp⟩
    rintro _ ⟨⟩
    exact ⟨ht, ofStatement_inr hof ▸ hs⟩
  | event e _ hread =>
    obtain ⟨s, hs, hof⟩ := (read_eq text line).1 hread
    refine ⟨by simp, fun d hd => ?_⟩
    rw [List.mem_singleton.1 hd]
    exact ⟨ht, s, hs, says_of_ofStatement hof⟩

theorem rooted_of_ofLines {k : Nat} (hk : ((Text.linesOf input).map Text.trimmed).drop k = ls)
    (hn : ∀ n ∈ note, RootedNote input n) (h : ofLines (k + 1) note ls = .ok es) :
    ∀ e ∈ es, Rooted input e := by
  induction ls generalizing k note es with
  | nil => cases note <;> cases h; simp
  | cons text ls ih =>
    obtain ⟨hstands, hrest⟩ := Text.standsOn_of_drop hk
    obtain ⟨note', out, es', ht, hes, rfl⟩ := takes_of_ofLines h
    obtain ⟨hnote, hout⟩ := ht.rooted hstands hn
    exact fun e he => (List.mem_append.1 he).elim (hout e) (ih hrest hnote hes e)

theorem rooted_of_scan (h : scan input = .ok es) : ∀ e ∈ es, Rooted input e :=
  rooted_of_ofLines (k := 0) rfl (by simp) h

theorem faithful_of_read (ht : Text.StandsOn input line text) (h : read text line = .error f) :
    f.Faithful input := by
  unfold read Statement.parse at h
  cases hs : Statement.read text.toList with
  | error m =>
    simp only [hs] at h
    cases h
    have hcolumn := Statement.isColumn_of_read hs
    refine ⟨ht, hcolumn.bounds, hcolumn, ?_⟩
    rw [hs]
    exact ⟨rfl, rfl⟩
  | ok s =>
    simp only [hs] at h
    split at h
    · rename_i cause hcause
      cases h
      refine Fault.faithful_structural ht hs ?_
      cases s with
      | direction code =>
        simp only [ofStatement] at hcause
        split at hcause <;> cases hcause
        rfl
      | transition source target label =>
        cases source <;> cases target <;> cases hcause
        exact ⟨label, rfl⟩
      | note side name body => cases body <;> cases hcause
      | state | close | separator | description => cases hcause
    · cases h

theorem faithful_of_ofLines {k : Nat} (hk : ((Text.linesOf input).map Text.trimmed).drop k = ls)
    (hn : ∀ n ∈ note, RootedNote input n) (h : ofLines (k + 1) note ls = .error f) :
    f.Faithful input := by
  induction ls generalizing k note with
  | nil =>
    cases note with
    | none => cases h
    | some n =>
      cases h
      obtain ⟨hstands, hsaid⟩ := hn n rfl
      exact Fault.faithful_structural hstands hsaid ⟨_, rfl⟩
  | cons text ls ih =>
    obtain ⟨hstands, hrest⟩ := Text.standsOn_of_drop hk
    rcases ofLines_error h with hread | ⟨note', out, ht, h⟩
    · exact faithful_of_read hstands hread
    · exact ih hrest (ht.rooted hstands hn).1 h

theorem faithful_of_scan (h : scan input = .error f) : f.Faithful input :=
  faithful_of_ofLines (k := 0) rfl (by simp) h

end Event

namespace BlockTree

variable {es : List (Located Event)} {p q : Progress} {t : BlockTree}

theorem faithful_of_ofEvents (hes : ∀ e ∈ es, Event.Rooted input e)
    (h : ofEvents es = .error f) : f.Faithful input := by
  rcases ofEvents_error h with ⟨before, e, after, p, rfl, -, he⟩ | ⟨p, g, gs, hp, hs, rfl⟩
  · obtain ⟨hstands, s, hs, hsaid⟩ := hes e (by simp)
    obtain ⟨-, ⟨hi, rfl⟩ | ⟨hi, rfl⟩⟩ := Progress.step_error he <;> rw [hi] at hsaid
    · exact Fault.faithful_structural hstands hs hsaid
    · exact Fault.faithful_structural hstands hs hsaid
  · have hhead := ((grows_comesFrom es).made hp).stack g (by simp [hs])
    obtain ⟨hstands, s, hs, hsaid⟩ := hes _ hhead.1
    exact Fault.faithful_structural hstands hs ⟨_, hsaid⟩

end BlockTree

section References

variable {es : List (Located Event)} {b : Block} {r : Registry} {p : Place} {c : Located Clause}

theorem declare_error {bs : List Binding} {name : String} {kind : StateKind} {label : Option String}
    (h : Bindings.declare bs p name kind label line text = .error f) :
    kind.nests ∧ f = .structural (.secondBody name) line 1 text := by
  unfold Bindings.declare at h
  split at h
  · cases h
  · split at h
    · rename_i hn
      cases h
      exact ⟨(Bool.and_eq_true_iff.1 hn).1, rfl⟩
    · cases h

theorem enter_error {x : Entry} (h : r.enter x = .error f) :
    ∃ p o kind, x = .head p o kind ∧ f = o.fault (.secondBody o.item.name) := by
  obtain ⟨d, hd, hdeclare⟩ := Registry.enter_eq_error h
  obtain ⟨hn, rfl⟩ := declare_error hdeclare
  obtain ⟨p, o, kind, rfl⟩ := Entry.exists_head hd hn
  obtain rfl := Option.some.inj hd
  exact ⟨p, o, kind, rfl, rfl⟩

theorem refer_error {bs : List Binding} {name : String}
    (h : Bindings.refer bs p name c = .error f) : ∃ ids, f = c.fault (.ambiguousName name ids) := by
  unfold Bindings.refer at h
  split at h
  · rename_i ids _
    cases h
    exact ⟨ids, rfl⟩
  · cases h
  · cases h

theorem step_error {u : Resolution} (h : u.step (p, c) = .error f) :
    ∃ name ∈ c.item.names, ∃ ids, f = c.fault (.ambiguousName name ids) := by
  unfold Resolution.step at h
  cases hi : c.item with
  | transition source target label =>
    simp only [hi, Resolution.addTransition] at h
    split at h
    · rename_i g hg
      cases h
      exact ⟨source, by simp [Clause.names], refer_error hg⟩
    · split at h
      · rename_i g hg
        cases h
        exact ⟨target, by simp [Clause.names], refer_error hg⟩
      · cases h
  | final source =>
    simp only [hi, Resolution.addFinal] at h
    split at h
    · rename_i g hg
      cases h
      exact ⟨source, by simp [Clause.names], refer_error hg⟩
    · cases h
  | description name text =>
    simp only [hi, Resolution.addDescription] at h
    split at h
    · rename_i g hg
      cases h
      exact ⟨name, by simp [Clause.names], refer_error hg⟩
    · cases h
  | declare | initial | note =>
    simp only [hi] at h
    cases h

theorem stepNote_error {u : Resolution} (h : u.stepNote (p, c) = .error f) :
    ∃ name side body, c.item = .note name side body ∧
      ((∃ ids, f = c.fault (.ambiguousName name ids)) ∨ f = c.fault (.undeclaredNote name)) := by
  unfold Resolution.stepNote at h
  cases hi : c.item with
  | note name side body =>
    simp only [hi] at h
    split at h
    · rename_i ids _
      cases h
      exact ⟨name, side, body, rfl, .inl ⟨ids, rfl⟩⟩
    · cases h
      exact ⟨name, side, body, rfl, .inr rfl⟩
    · cases h
  | declare | initial | final | transition | description =>
    simp only [hi] at h
    cases h

theorem faithful_of_ofBlock (hes : ∀ e ∈ es, Event.Rooted input e)
    (hb : BlockTree.ComesFrom es b) (h : Registry.ofBlock b = .error f) : f.Faithful input := by
  rw [Registry.ofBlock, Registry.addBlock_eq] at h
  obtain ⟨x, hx, m, hm⟩ := foldlM_error h
  obtain ⟨p, o, kind, rfl, rfl⟩ := enter_error hm
  obtain ⟨hstands, s, hs, hsaid⟩ := hes _ (hb _ _ hx _ rfl)
  exact Fault.faithful_structural hstands hs ⟨_, hsaid⟩

theorem faithful_of_ofRegistry (hes : ∀ e ∈ es, Event.Rooted input e)
    (hb : BlockTree.ComesFrom es b) (hr : Registered (entriesOf [] b) r)
    (h : Resolution.ofRegistry r = .error f) : f.Faithful input := by
  have hroot : ∀ ref ∈ r.references, Event.Rooted input (ref.2.map .clause) := by
    intro ref href
    exact hes _ (hb _ _ (mem_references (hr.references ▸ href)).1 _ rfl)
  unfold Resolution.ofRegistry at h
  split at h
  · rename_i g hg
    cases h
    obtain ⟨⟨p, c⟩, href, u, hu⟩ := foldlM_error hg
    obtain ⟨hstands, s, hs, hsaid⟩ := hroot _ href
    obtain ⟨name, hname, ids, rfl⟩ := step_error hu
    exact Fault.faithful_structural hstands hs (hsaid.names hname)
  · obtain ⟨⟨p, c⟩, href, u, hu⟩ := foldlM_error h
    obtain ⟨hstands, s, hs, hsaid⟩ := hroot _ href
    obtain ⟨name, side, body, hi, ⟨ids, rfl⟩ | rfl⟩ := stepNote_error hu
    · exact Fault.faithful_structural hstands hs (hsaid.names (by simp [hi, Clause.names]))
    · have hnote : Event.Says s (.clause (.note name side body)) := hi ▸ hsaid
      obtain ⟨text, -, rfl⟩ := hnote
      exact Fault.faithful_structural hstands hs ⟨side, text, rfl⟩

theorem carryOut_error {ss : List State} {ts : List Transition} {ns : List Note}
    (h : History.carryOut ss ts ns = .error f) : ∃ n ∈ ns, ∃ cause, f = History.fault n cause := by
  obtain ⟨task, htask, o, ho⟩ := foldlM_error h
  obtain ⟨n, hn, htask⟩ := List.mem_flatMap.1 htask
  have hcases : task = .review n ∨ (∃ name, task = .attach n name) ∨ task = .keep n := by
    simp only [History.tasksOf, List.mem_append, List.mem_cons, List.mem_map, List.not_mem_nil,
      or_false] at htask
    rcases htask with (rfl | ⟨p, -, rfl⟩) | rfl
    · exact .inl rfl
    · exact .inr (.inl ⟨p.1, rfl⟩)
    · exact .inr (.inr rfl)
  refine ⟨n, hn, ?_⟩
  rcases hcases with rfl | ⟨name, rfl⟩ | rfl
  · simp only [History.step] at ho
    split at ho
    · cases ho
      exact ⟨_, rfl⟩
    · cases ho
  · simp only [History.step] at ho
    split at ho
    · rename_i cause _
      cases ho
      exact ⟨cause, rfl⟩
    · cases ho
  · cases ho

theorem faithful_of_withHistory {home : Place → String → Place} {flat : FlatChart}
    (hes : ∀ e ∈ es, Event.Rooted input e) (hb : BlockTree.ComesFrom es b)
    (hd : Drawn b home flat) (h : flat.withHistory = .error f) : f.Faithful input := by
  unfold FlatChart.withHistory at h
  split at h
  · rename_i g hg
    cases h
    obtain ⟨n, hn, cause, rfl⟩ := carryOut_error hg
    rw [hd.notes] at hn
    obtain ⟨⟨p, c⟩, href, hnote⟩ := List.mem_filterMap.1 hn
    obtain ⟨hstands, s, hs, hsaid⟩ := hes _ (hb _ _ (mem_references href).1 _ rfl)
    obtain ⟨name, side, body, hi, rfl⟩ := Resolution.note?_eq_some.1 hnote
    have hsays : Event.Says s (.clause (.note name side body)) := hi ▸ hsaid
    obtain ⟨text, -, rfl⟩ := hsays
    exact ⟨hstands, side, name, text, hs⟩
  · cases h

end References

theorem Chart.faithful_of_parse {fallback : Fallback} (h : Chart.parse fallback input = .error f) :
    f.Faithful input := by
  rcases bind_error.1 h with h | ⟨flat, hflat, h⟩
  · rcases bind_error.1 h with h | ⟨es, hes, h⟩
    · exact Event.faithful_of_scan h
    · have hroot := Event.rooted_of_scan hes
      rcases bind_error.1 h with h | ⟨t, ht, h⟩
      · exact BlockTree.faithful_of_ofEvents hroot h
      · have hfrom := (BlockTree.grows_comesFrom es).of_ofEvents ht
        unfold FlatChart.ofBlocks at h
        split at h
        · rename_i g hg
          cases h
          exact faithful_of_ofBlock hroot hfrom hg
        · rename_i r hr
          split at h
          · rename_i g hg
            cases h
            exact faithful_of_ofRegistry hroot hfrom (registered_ofBlock hr) hg
          · cases h
  · rcases bind_error.1 h with h | ⟨full, -, h⟩
    · obtain ⟨es, t, hes, ht, hf⟩ := ofText_ok hflat
      obtain ⟨home, hdrawn⟩ := drawn_ofBlocks (wellNamed_of_text hes ht) hf
      have hfrom := (BlockTree.grows_comesFrom es).of_ofEvents ht
      exact faithful_of_withHistory (Event.rooted_of_scan hes) hfrom hdrawn h
    · unfold Chart.ofFlat at h
      cases he : Rules.enforce fallback full with
      | ok c => simp [he, Except.mapError] at h
      | error d =>
        simp only [he, Except.mapError] at h
        cases h
        trivial

theorem Chart.faithful_sample :
    let input := "%% draft\n  On -> Off "
    let f := Fault.structural (.unsupported (some '>') [.char '-']) 2 5 "On -> Off"
    Chart.parse .firstChild input = .error f ∧ f.Faithful input := by
  intro input f
  have hlines : (Text.linesOf input).map Text.trimmed = ["%% draft", "On -> Off"] := by
    decide +kernel
  have hread : Event.read "On -> Off" 2 = .error f := by
    unfold Event.read Statement.parse
    rw [show "On -> Off".toList = ['O', 'n', ' ', '-', '>', ' ', 'O', 'f', 'f'] from rfl]
    rfl
  have hscan : Event.scan input = .error f := by
    rw [Event.scan, hlines, Event.ofLines, if_pos (by decide +kernel), Event.ofLines,
      if_neg (by decide +kernel), hread]
  have hparse : Chart.parse .firstChild input = .error f := by
    unfold Chart.parse FlatChart.ofText
    rw [hscan]
    rfl
  exact ⟨hparse, Chart.faithful_of_parse hparse⟩

end Statechart
