import Mathlib
import Statechart.Proofs.RelocatedHistory
import Statechart.Proofs.RelocatedRules
import Statechart.Proofs.WellFormed

namespace Statechart

namespace Relocation

open BlockTree

variable {m : Relocation} {w : String} {p q : Progress}

section Blocks

def openBody (m : Relocation) (o : OpenBody) : OpenBody where
  head := m.located o.head
  regions := m.blocks o.regions
  current := m.block o.current

def outline (m : Relocation) (b : Block) : Block :=
  match m.wrapper with
  | none => m.block b
  | some w => [.clause (arrow w)]

def entered (m : Relocation) (b : Block) : List OpenBody :=
  m.wrapper.toList.map fun w => ⟨head w, [], m.block b⟩

def progress (m : Relocation) (p : Progress) : Progress where
  body := m.outline p.body
  direction := m.direction p.direction
  stack := p.stack.map m.openBody ++ m.entered p.body

theorem close_openBody (m : Relocation) (o : OpenBody) : (m.openBody o).close = m.item o.close := by
  obtain ⟨o, regions, current⟩ := o
  cases regions with
  | nil => rfl
  | cons r rs =>
    show Item.composite _ _ (m.blocks rs ++ m.blocks [current]) = _
    rw [← blocks_append]
    rfl

theorem block_concat (m : Relocation) (b : Block) (i : Item) :
    m.block (b ++ [i]) = m.block b ++ [m.item i] := by
  rw [block_append]
  rfl

theorem blocks_concat (m : Relocation) (bs : List Block) (b : Block) :
    m.blocks (bs ++ [b]) = m.blocks bs ++ [m.block b] := by
  rw [blocks_append]
  rfl

theorem add_progress (m : Relocation) (p : Progress) (i : Item) :
    (m.progress p).add (m.item i) = m.progress (p.add i) := by
  obtain ⟨body, direction, stack⟩ := p
  cases stack with
  | nil =>
    rcases m.cases_wrapper with h | ⟨w, h⟩
    · simp [progress, Progress.add, outline, entered, h, block_concat]
    · simp [progress, Progress.add, outline, entered, Option.mem_def.1 h, block_concat]
  | cons o os => simp only [progress, Progress.add, List.map_cons, List.cons_append, openBody,
      block_concat]

theorem stack_progress {o : OpenBody} {os : List OpenBody} (h : p.stack = o :: os) :
    (m.progress p).stack = m.openBody o :: (m.progress { p with stack := os }).stack := by
  rw [progress, h]
  rfl

theorem direction_progress (m : Relocation) (p : Progress) (d : Direction) :
    (if (m.progress p).stack.isEmpty then { m.progress p with direction := some d }
      else m.progress p) =
      m.progress (if p.stack.isEmpty then { p with direction := some d } else p) := by
  obtain ⟨body, direction, stack⟩ := p
  cases stack with
  | nil =>
    rcases m.cases_wrapper with h | ⟨w, h⟩
    · simp [progress, entered, Relocation.direction, h]
    · simp [progress, entered, Relocation.direction, Option.mem_def.1 h]
  | cons o os => rfl

theorem step_progress {e : Located Event} (h : p.step e = .ok q) :
    (m.progress p).step (m.located e) = .ok (m.progress q) := by
  cases Progress.step_ok.1 h with
  | clause c n text => exact congrArg Except.ok (m.add_progress p (.clause ⟨c, n, text⟩))
  | opening => rfl
  | separator hs =>
    simp only [located, Progress.step, stack_progress hs, openBody, ← blocks_concat]
    rfl
  | @close o os hs =>
    simp only [located, Progress.step, stack_progress hs, close_openBody]
    exact congrArg Except.ok (m.add_progress { p with stack := os } o.close)
  | direction d => exact congrArg Except.ok (m.direction_progress p d)

theorem foldlM_progress {es : List (Located Event)} (h : es.foldlM Progress.step p = .ok q) :
    (es.map m.located).foldlM Progress.step (m.progress p) = .ok (m.progress q) :=
  (foldlM_map_ok (fun _ => True) (fun _ _ _ _ hs _ => ⟨trivial, step_progress hs⟩) h trivial).2

def events (m : Relocation) (last : Nat) (es : List (Located Event)) : List (Located Event) :=
  match m.wrapper with
  | none => es.map m.located
  | some w =>
    ⟨.clause (arrow w).item, (arrow w).line, (arrow w).text⟩ ::
      ⟨.opening (head w).item, (head w).line, (head w).text⟩ ::
        (es.map m.located ++ [⟨.close, last, "\x7d"⟩])

theorem ofEvents_events {es : List (Located Event)} {t : BlockTree} (h : ofEvents es = .ok t)
    (last : Nat) : ofEvents (m.events last es) = .ok (m.tree t) := by
  have hread := foldlM_progress (m := m) (ofEvents_ok.1 h)
  rw [ofEvents_ok, events, tree, body]
  rcases m.cases_wrapper with hw | ⟨w, hw⟩
  · have hempty : m.progress .empty = .empty := by
      simp [progress, Progress.empty, outline, entered, block, Relocation.direction, hw]
    have hdone : m.progress ⟨t.body, t.direction, []⟩ =
        ⟨m.block t.body, m.direction t.direction, []⟩ := by
      simp [progress, outline, entered, hw]
    rw [hempty, hdone] at hread
    rw [hw]
    exact hread
  · have hempty : m.progress .empty = ⟨[.clause (arrow w)], none, [⟨head w, [], []⟩]⟩ := by
      simp [progress, Progress.empty, outline, entered, block, Relocation.direction,
        Option.mem_def.1 hw]
    have hdone : m.progress ⟨t.body, t.direction, []⟩ =
        ⟨[.clause (arrow w)], m.direction t.direction, [⟨head w, [], m.block t.body⟩]⟩ := by
      simp [progress, outline, entered, Option.mem_def.1 hw]
    rw [hempty, hdone] at hread
    rw [Option.mem_def.1 hw]
    refine foldlM_cons_ok.2 ⟨_, rfl, foldlM_cons_ok.2 ⟨_, rfl, foldlM_append_ok.2 ⟨_, hread, ?_⟩⟩⟩
    rfl

end Blocks

section Parse

variable {input other : String} {es : List (Located Event)} {f : FlatChart} {c : Chart} {last : Nat}
  {fallback : Fallback}

theorem ofText_of_events (hs : Event.scan input = .ok es)
    (hs' : Event.scan other = .ok (m.events last es)) (h : FlatChart.ofText input = .ok f)
    (hfree : ∀ s ∈ f.states, m.Free s.name) : FlatChart.ofText other = .ok (m.flat f) := by
  obtain ⟨es', t, hes, ht, hf⟩ := ofText_ok h
  obtain rfl : es = es' := Except.ok.inj (hs.symm.trans hes)
  exact bind_ok.2 ⟨_, hs', bind_ok.2 ⟨_, ofEvents_events ht last, ofBlocks_flat hf hfree⟩⟩

theorem exists_scan_of_parse (h : Chart.parse fallback input = .ok c) :
    ∃ es, Event.scan input = .ok es := by
  obtain ⟨f, -, hf, -, -⟩ := stages_of_parse h
  obtain ⟨es, -, hes, -, -⟩ := ofText_ok hf
  exact ⟨es, hes⟩

theorem parse_of_events (hs : Event.scan input = .ok es)
    (hs' : Event.scan other = .ok (m.events last es)) (h : Chart.parse fallback input = .ok c)
    (hfree : ∀ s ∈ c.states, m.Free s.name)
    (hplain : ∀ f, FlatChart.ofText input = .ok f → m.PlainIn f.notes) :
    Chart.parse fallback other = .ok (m.chart c) := by
  obtain ⟨f, g, hf, hg, hc⟩ := stages_of_parse h
  have hsound := FlatChart.sound_of_ofText hf
  have hfull := hsound.withHistory hg
  have hstates : c.states = g.states := (assembled_of_enforce hfull hc).states
  have hfreeg : ∀ s ∈ g.states, m.Free s.name := hstates ▸ hfree
  have hfreef : ∀ s ∈ f.states, m.Free s.name := by
    obtain ⟨o, ho, rfl⟩ := withHistory_ok hg
    exact fun s hs => hfreeg s (hsound.mem_states ho hs)
  have hf' := ofText_of_events hs hs' hf hfreef
  have hg' := withHistory_flat hg (hplain f hf) hfreeg
  -- the parts of the other chart fit together because they come from a text, too
  have hsound' := (FlatChart.sound_of_ofText hf').withHistory hg'
  refine bind_ok.2 ⟨_, hf', bind_ok.2 ⟨_, hg', ?_⟩⟩
  rw [Chart.ofFlat, enforce_flat hfull hsound' hc]
  rfl

end Parse

end Relocation

end Statechart
