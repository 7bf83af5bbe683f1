import Mathlib
import Statechart.Proofs.RelocatedNames
import Statechart.Proofs.Sound

namespace Statechart

namespace Relocation

open History

variable {m : Relocation} {ss : List State} {n : Note} {name : String} {c : NodeId}

/-- Whether a phrase means the same inside the wrapper: paths do not, as they are read from the top. -/
def Plain (m : Relocation) (name : String) : Prop :=
  ∀ w ∈ m.wrapper, '/' ∉ name.toList

theorem names_state (hname : m.Plain name) (s : State) : names name (m.state s) = names name s := by
  unfold names
  split
  · rename_i hpath
    have hnone : m.wrapper = none :=
      Option.eq_none_iff_forall_not_mem.2 fun w hw => hname w hw hpath
    rw [state, under_of_none hnone]
  · rfl

theorem named_states (hname : m.Plain name) (hfree : m.Free name) (ss : List State) :
    named (m.states ss) name = (named ss name).map m.state := by
  refine filter_states (fun w hw => ?_) (fun s => ?_) ss
  · have hne : w ≠ name := (hfree w hw).symm
    simp [names, hname w hw, hne]
  · rw [names_state hname]
    rfl

theorem isVisibleFrom_state (m : Relocation) (n : Note) (s : State) :
    isVisibleFrom (m.note n) (m.state s) = isVisibleFrom n s := by
  unfold isVisibleFrom state note
  cases s.parent with
  | none =>
    rcases m.cases_wrapper with h | ⟨w, h⟩
    · rw [around, above, h]
      rfl
    · rw [around, mem_above h]
      simp [inside_wrapper h]
  | some p =>
    show (decide (m.under n.state = m.under p) || (m.under n.state).inside (m.under p)) = _
    rw [inside_under, decide_eq_decide.2 under_inj]

theorem filter_map_visible (m : Relocation) (n : Note) (ts : List State) :
    (ts.map m.state).filter (isVisibleFrom (m.note n)) =
      (ts.filter (isVisibleFrom n)).map m.state := by
  rw [List.filter_map]
  exact congrArg _ (List.filter_congr fun t _ => m.isVisibleFrom_state n t)

theorem filter_map_nests (m : Relocation) (ts : List State) :
    (ts.map m.state).filter (fun t => t.kind.nests) =
      (ts.filter fun t => t.kind.nests).map m.state := by
  rw [List.filter_map]
  rfl

theorem choose_states {s : State} (hname : m.Plain name) (hfree : m.Free name)
    (h : choose ss n name = .ok s) : choose (m.states ss) (m.note n) name = .ok (m.state s) := by
  rw [choose_eq_ok] at h ⊢
  rw [named_states hname hfree, filter_map_nests, filter_map_visible]
  rcases h with hone | ⟨hlen, hmany⟩
  · rw [hone]
    exact .inl rfl
  · rw [hmany, List.length_map]
    exact .inr ⟨hlen, rfl⟩

theorem composite_states (hname : m.Plain name) (hfree : m.Free name)
    (h : composite ss n name = .ok c) :
    composite (m.states ss) (m.note n) name = .ok (m.under c) := by
  obtain ⟨s, hs, hk, hi, rfl⟩ := composite_eq_ok.1 h
  exact composite_eq_ok.2 ⟨m.state s, choose_states hname hfree hs, hk,
    (m.inside_under n.state s.id).trans hi, rfl⟩

theorem free_of_composite (hname : m.Plain name) (h : composite ss n name = .ok c)
    (hfree : ∀ s ∈ ss, m.Free s.name) : m.Free name := by
  obtain ⟨s, hs, -, -, hnames, -⟩ := composite_ok h
  intro w hw
  have hown : s.name = name := by simpa [names, hname w hw] using hnames
  exact hown ▸ hfree s hs w hw

theorem idOf_under (m : Relocation) (c : NodeId) : idOf (m.under c) = m.under (idOf c) :=
  m.child_under c stateName

theorem stateOf_under (m : Relocation) (c : NodeId) (line : Nat) :
    stateOf (m.under c) (m.line line) = m.state (stateOf c line) := by
  rw [stateOf, idOf_under]
  rfl

theorem provide_states {line : Nat} {ss' : List State} (h : provide ss c line = .ok ss') :
    provide (m.states ss) (m.under c) (m.line line) = .ok (m.states ss') := by
  have hfind : (m.states ss).find? (fun s => s.id = m.under (idOf c)) =
      (ss.find? fun s => s.id = idOf c).map m.state := by
    refine find?_states (fun w hw => ?_) (fun s => decide_eq_decide.2 under_inj) ss
    simpa using wrapper_ne_under hw (idOf c)
  rw [provide_eq_ok, idOf_under, hfind]
  rcases provide_eq_ok.1 h with ⟨hf, rfl⟩ | ⟨s, hf, hk, rfl⟩
  · refine .inl ⟨by rw [hf, Option.map_none], ?_⟩
    rw [states, states, List.map_append, List.append_assoc, stateOf_under, List.map_singleton]
  · exact .inr ⟨m.state s, by rw [hf, Option.map_some], hk, rfl⟩

theorem concerns_transition (m : Relocation) (n : Note) (c : NodeId) (t : Transition) :
    concerns (m.note n) (m.under c) (m.transition t) = concerns n c t := by
  unfold concerns
  rw [idOf_under]
  simp only [note, transition, under_inj, inside_under]

theorem turn_transition (m : Relocation) (n : Note) (c : NodeId) (t : Transition) :
    turn (m.note n) (m.under c) (m.transition t) = m.transition (turn n c t) := by
  have htarget : (m.transition t).target = m.under c ↔ t.target = c := under_inj
  unfold turn
  rw [concerns_transition, idOf_under]
  simp only [htarget]
  split <;> rfl

theorem redirect_transitions {ts ts' : List Transition} (h : redirect ts n c = .ok ts') :
    redirect (ts.map m.transition) (m.note n) (m.under c) = .ok (ts'.map m.transition) := by
  obtain ⟨⟨t, ht, hc⟩, rfl⟩ := redirect_eq_ok.1 h
  refine redirect_eq_ok.2 ⟨⟨m.transition t, List.mem_map_of_mem ht, ?_⟩, ?_⟩
  · rwa [concerns_transition]
  · rw [List.map_map, List.map_map]
    exact List.map_congr_left fun t _ => (m.turn_transition n c t).symm

def attachment (m : Relocation) (a : Attachment) : Attachment :=
  { a with composite := m.under a.composite }

def outcome (m : Relocation) (o : Outcome) : Outcome where
  states := m.states o.states
  transitions := o.transitions.map m.transition
  remarks := o.remarks.map m.remark
  attachments := o.attachments.map m.attachment

def task (m : Relocation) : Task → Task
  | .review n => .review (m.note n)
  | .attach n name => .attach (m.note n) name
  | .keep n => .keep (m.note n)

theorem tasksOf_note (m : Relocation) (n : Note) : tasksOf (m.note n) = (tasksOf n).map m.task := by
  simp only [tasksOf, List.map_append, List.map_cons, List.map_map]
  rfl

theorem flatMap_tasksOf_note (m : Relocation) (ns : List Note) :
    (ns.map m.note).flatMap tasksOf = (ns.flatMap tasksOf).map m.task := by
  rw [List.flatMap_map, List.map_flatMap]
  exact List.flatMap_congr fun n _ => m.tasksOf_note n

theorem remarksOf_note (m : Relocation) (n : Note) :
    remarksOf (m.note n) = (remarksOf n).map m.remark := by
  simp only [remarksOf, note]
  split
  · rw [List.map_map]
    rfl
  · rw [List.map_append, List.map_map]
    rfl

theorem subset_of_provide {line : Nat} {ss' : List State} (h : provide ss c line = .ok ss') :
    ss ⊆ ss' := by
  rcases provide_eq_ok.1 h with ⟨-, rfl⟩ | ⟨-, -, -, rfl⟩
  · exact List.subset_append_left ss _
  · exact List.Subset.refl ss'

theorem attached_outcome (m : Relocation) (o : Outcome) (n : Note) (c : NodeId) (ss : List State)
    (ts : List Transition) : attached (m.outcome o) (m.note n) (m.under c) (m.states ss)
      (ts.map m.transition) = m.outcome (attached o n c ss ts) := by
  have hcount : (o.transitions.map m.transition).countP (fun t =>
      concerns (m.note n) (m.under c) t && t.target = m.under c) =
      o.transitions.countP fun t => concerns n c t && t.target = c := by
    rw [List.countP_map]
    refine List.countP_congr fun t _ => ?_
    rw [Function.comp_apply, concerns_transition, transition, Bool.and_eq_true, Bool.and_eq_true,
      decide_eq_true_iff, decide_eq_true_iff, under_inj]
  simp only [attached, outcome, hcount, List.map_append, List.map_singleton]
  rfl

theorem attach_outcome {o o' : Outcome} (hname : m.Plain name) (h : attach o n name = .ok o')
    (hfree : ∀ s ∈ o'.states, m.Free s.name) : (∀ s ∈ o.states, m.Free s.name) ∧
      attach (m.outcome o) (m.note n) name = .ok (m.outcome o') := by
  obtain ⟨c, ss, ts, hc, hp, hr, rfl⟩ := attach_eq_ok.1 h
  have hold : ∀ s ∈ o.states, m.Free s.name := fun s hs => hfree s (subset_of_provide hp hs)
  have hcomposite := composite_states hname (free_of_composite hname hc hold) hc
  refine ⟨hold, attach_eq_ok.2 ⟨m.under c, _, _, hcomposite, provide_states hp,
    redirect_transitions hr, (m.attached_outcome o n c ss ts).symm⟩⟩

theorem step_outcome {o o' : Outcome} {t : Task} (h : step o t = .ok o')
    (hname : ∀ n name, t = .attach n name → m.Plain name)
    (hfree : ∀ s ∈ o'.states, m.Free s.name) : (∀ s ∈ o.states, m.Free s.name) ∧
      step (m.outcome o) (m.task t) = .ok (m.outcome o') := by
  cases t with
  | review n =>
    obtain ⟨hv, rfl⟩ := review_of_step h
    exact ⟨hfree, if_neg (Bool.eq_false_iff.1 hv)⟩
  | attach n name =>
    obtain ⟨hold, hmoved⟩ := attach_outcome (hname n name rfl) (attach_of_step h) hfree
    refine ⟨hold, ?_⟩
    simp only [task, step, hmoved]
  | keep n =>
    cases h
    refine ⟨hfree, ?_⟩
    simp only [task, step, outcome, remarksOf_note, List.map_append]

def PlainIn (m : Relocation) (ns : List Note) : Prop :=
  ∀ n ∈ ns, ∀ p ∈ phrases n.text, m.Plain p.1

theorem carryOut_outcome {ts : List Transition} {ns : List Note} {o : Outcome}
    (h : carryOut ss ts ns = .ok o) (hnames : m.PlainIn ns)
    (hfree : ∀ s ∈ o.states, m.Free s.name) :
    carryOut (m.states ss) (ts.map m.transition) (ns.map m.note) = .ok (m.outcome o) := by
  have hplain : ∀ t ∈ ns.flatMap tasksOf, ∀ n name, t = .attach n name → m.Plain name := by
    rintro t ht n name rfl
    obtain ⟨hn, p, hp, rfl⟩ := phrase_of_attach_mem ht
    exact hnames n hn p hp
  have hrun := foldlM_map_ok (φ := m.outcome) (fun o : Outcome => ∀ s ∈ o.states, m.Free s.name)
    (fun t ht o o' hs hfree' => step_outcome hs (hplain t ht) hfree') h hfree
  rw [carryOut, flatMap_tasksOf_note]
  exact hrun.2

theorem withHistory_flat {f g : FlatChart} (h : f.withHistory = .ok g) (hnames : m.PlainIn f.notes)
    (hfree : ∀ s ∈ g.states, m.Free s.name) : (m.flat f).withHistory = .ok (m.flat g) := by
  obtain ⟨o, ho, rfl⟩ := withHistory_ok h
  have hmoved := carryOut_outcome ho hnames hfree
  have hcarried : carryOut (m.flat f).states (m.flat f).transitions (m.flat f).notes =
      .ok (m.outcome o) := hmoved
  rw [FlatChart.withHistory, hcarried]
  simp only [FlatChart.withOutcome, flat, outcome, List.map_append]

end Relocation

end Statechart
