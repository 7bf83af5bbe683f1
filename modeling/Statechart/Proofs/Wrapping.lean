import Mathlib
import Statechart.Proofs.Layout

namespace Statechart

namespace Wrapping

def wrapped (d : String) : String :=
  Text.joined "\n" ["[*] --> Top", "state Top \x7b", d, "\x7d"]

def inTop (a : NodeId) : NodeId :=
  ⟨"Top/" ++ a.path⟩

def chartInTop (c : Chart) : Chart where
  states := ⟨"Top", ⟨"Top"⟩, none, none, .composite, none, 1⟩ ::
    c.states.map fun s => { s with
      id := inTop s.id
      parent := some ((s.parent.map inTop).getD ⟨"Top"⟩)
      line := s.line + 2 }
  roots := [.composite ⟨"Top"⟩ "Top" (some (inTop c.initial)) (Node.renamedAll inTop c.roots)]
  initial := ⟨"Top"⟩
  nested := (⟨"Top"⟩, inTop c.initial) :: c.nested.map fun e => (inTop e.1, inTop e.2)
  defaulted := c.defaulted.map inTop
  regions := c.regions.map fun r => { r with
    owner := inTop r.owner
    id := inTop r.id
    initial := inTop r.initial
    members := r.members.map inTop }
  transitions := c.transitions.map fun t => { t with
    source := inTop t.source
    target := inTop t.target
    line := t.line + 2 }
  finals := c.finals.map inTop
  remarks := c.remarks.map fun r => { r with
    state := inTop r.state
    line := r.line + 2 }
  direction := none

def wrapping : Relocation where
  wrapper := some "Top"
  line := (· + 2)
  increasing := fun _ _ h => Nat.add_lt_add_right h 2
  after := fun _ _ k => Nat.le_add_left 1 (k + 1)

theorem under_wrapping : wrapping.under = inTop := by
  funext a
  apply NodeId.ext_toList
  rw [Relocation.toList_under_of_mem (w := "Top") rfl, inTop, String.toList_append]
  rfl

theorem around_wrapping (a : Option NodeId) :
    wrapping.around a = some ((a.map inTop).getD ⟨"Top"⟩) := by
  rw [Relocation.around, under_wrapping]
  cases a <;> rfl

theorem chart_wrapping (c : Chart) : wrapping.chart c = chartInTop c := by
  have hstate : wrapping.state = fun s => { s with
      id := inTop s.id
      parent := some ((s.parent.map inTop).getD ⟨"Top"⟩)
      line := s.line + 2 } := by
    funext s
    rw [Relocation.state, under_wrapping, around_wrapping]
    rfl
  rw [Relocation.chart, Relocation.states, Relocation.roots, hstate]
  simp only [Relocation.table, Relocation.pairs, under_wrapping]
  rfl

section Scan

variable {d : String} {es : List (Located Event)}

theorem scan_wrapped (h : Event.scan d = .ok es) :
    ∃ last, Event.scan (wrapped d) = .ok (wrapping.events last es) := by
  have hpieces : Text.pieces (wrapped d) =
      "[*] --> Top" :: "state Top \x7b" :: (Text.pieces d ++ ["\x7d"]) := by
    have htext : wrapped d =
      "[*] --> Top" ++ "\n" ++ ("state Top \x7b" ++ "\n" ++ (d ++ "\n" ++ "\x7d")) := rfl
    rw [htext, Text.pieces_append, Text.pieces_append, Text.pieces_append,
      Text.pieces_of_notMem (s := "[*] --> Top") (by decide),
      Text.pieces_of_notMem (s := "state Top \x7b") (by decide),
      Text.pieces_of_notMem (s := "\x7d") (by decide)]
    rfl
  have hbody : Event.ofLines 3 none ((Text.pieces d).map Text.trimmed) =
      .ok (es.map wrapping.located) := by
    rw [Event.scan_eq] at h
    refine Layout.ofLines_relaid none (Layout.relaid_of_trimmed rfl false) rfl ?_ h
    intro k
    show 1 + k + 2 = 3 + k
    omega
  have hbrace : Event.read "\x7d" 1 = .ok (.inl .close) := by
    decide +kernel
  have hclose : ∀ line, Event.ofLines line none ["\x7d"] = .ok [⟨.close, line, "\x7d"⟩] :=
    fun line => Event.ofLines_cons (by decide +kernel) (Event.read_anywhere hbrace line) rfl
  have htrim : Text.trimmed "[*] --> Top" = "[*] --> Top" ∧
      Text.trimmed "state Top \x7b" = "state Top \x7b" ∧ Text.trimmed "\x7d" = "\x7d" := by
    decide +kernel
  refine ⟨3 + ((Text.pieces d).map Text.trimmed).length, ?_⟩
  rw [Event.scan_eq, hpieces, List.map_cons, List.map_cons, List.map_append, htrim.1, htrim.2.1,
    List.map_singleton, htrim.2.2]
  refine Event.ofLines_cons (by decide +kernel) (by decide +kernel) ?_
  refine Event.ofLines_cons (by decide +kernel) (by decide +kernel) ?_
  exact Event.ofLines_append hbody (hclose _)

end Scan

theorem parse_wrapped {fallback : Fallback} {d : String} {c : Chart}
    (h : Chart.parse fallback d = .ok c) (hname : ∀ s ∈ c.states, s.name ≠ "Top")
    (hpath : ∀ f, FlatChart.ofText d = .ok f →
      ∀ n ∈ f.notes, ∀ p ∈ History.phrases n.text, '/' ∉ p.1.toList) :
    Chart.parse fallback (wrapped d) = .ok (chartInTop c) := by
  obtain ⟨es, hes⟩ := Relocation.exists_scan_of_parse h
  obtain ⟨last, hscan⟩ := scan_wrapped hes
  rw [← chart_wrapping]
  refine Relocation.parse_of_events hes hscan h ?_ ?_
  · rintro s hs w ⟨⟩
    exact hname s hs
  · intro f hf n hn p hp w _
    exact hpath f hf n hn p hp

theorem parse_wrapped_sample : Chart.parse .firstChild Sample.text = .ok Sample.chart ∧
    (∀ s ∈ Sample.chart.states, s.name ≠ "Top") ∧
    (∀ f, FlatChart.ofText Sample.text = .ok f →
      ∀ n ∈ f.notes, ∀ p ∈ History.phrases n.text, '/' ∉ p.1.toList) ∧
    Chart.parse .firstChild (wrapped Sample.text) = .ok (chartInTop Sample.chart) := by
  have hname : ∀ s ∈ Sample.chart.states, s.name ≠ "Top" := by decide +kernel
  have hpath : ∀ f, FlatChart.ofText Sample.text = .ok f →
      ∀ n ∈ f.notes, ∀ p ∈ History.phrases n.text, '/' ∉ p.1.toList := by
    intro f hf
    obtain rfl : Sample.flat = f := Except.ok.inj (Sample.ofText_text.symm.trans hf)
    decide +kernel
  exact ⟨Sample.parse_text, hname, hpath, parse_wrapped Sample.parse_text hname hpath⟩

end Wrapping

end Statechart
