import Mathlib
import Statechart.Proofs.Drawn
import Statechart.Proofs.History
import Statechart.Proofs.Nesting

namespace Statechart

/-- A flat chart whose parts fit together, as far as each scope may have any number of initial
    states. -/
structure FlatChart.Sound (f : FlatChart) : Prop where
  nested : WellNested f.states f.regions
  names : ∀ s ∈ f.states, IsName s.name
  initials : ∀ i ∈ f.initials, ∃ s ∈ f.states,
    s.id = i.target ∧ s.scope = i.scope ∧ s.kind ≠ .history
  sources : ∀ t ∈ f.transitions, ∃ s ∈ f.states, s.id = t.source
  targets : ∀ t ∈ f.transitions, ∃ s ∈ f.states, s.id = t.target
  histories : ∀ s ∈ f.states, s.kind = .history → ∃ c line, s = History.stateOf c line ∧
    ∃ t ∈ f.states, t.id = c ∧ t.kind = .composite
  outside : ∀ t ∈ f.transitions, ∀ c, t.target = History.idOf c →
    (∃ s ∈ f.states, s.id = t.target ∧ s.kind = .history) → t.source.inside c = false
  finals : ∀ x ∈ f.finals, ∃ s ∈ f.states, s.id = x

theorem Resolution.mem_foldl_addOnce {x : NodeId} {known ids : List NodeId} :
    x ∈ ids.foldl addOnce known ↔ x ∈ known ∨ x ∈ ids := by
  induction ids generalizing known with
  | nil => simp
  | cons id ids ih =>
    rw [List.foldl_cons, ih, addOnce]
    split
    · rename_i hid
      have hself : x = id → x ∈ known := fun he => he ▸ hid
      simp only [List.mem_cons]
      tauto
    · simp [or_assoc]

namespace Drawn

variable {b : Block} {home : Place → String → Place} {f : FlatChart}

theorem exists_initial (h : Drawn b home f) {i : Initial} (hi : i ∈ f.initials) :
    ∃ s ∈ f.states, s.id = i.target ∧ s.scope = i.scope ∧ s.kind ≠ .history := by
  rw [h.initials] at hi
  obtain ⟨x, hx, hxi⟩ := List.mem_filterMap.1 hi
  cases x with
  | clause p c =>
    cases hc : c.item with
    | initial target =>
      have hkey : (p, target) ∈ declarations b :=
        List.mem_filterMap.2 ⟨_, hx, by simp [Entry.key?, hc]⟩
      obtain ⟨s, hs, hid, -, hscope⟩ := h.exists_declared hkey
      simp only [Entry.initial?, hc, Option.some.injEq] at hxi
      exact ⟨s, hs, hxi ▸ hid, hxi ▸ hscope, h.leaf s hs⟩
    | declare | final | transition | description | note => simp [Entry.initial?, hc] at hxi
  | head | region => simp [Entry.initial?] at hxi

theorem exists_ends (h : Drawn b home f) {t : Transition} (ht : t ∈ f.transitions) :
    (∃ s ∈ f.states, s.id = t.source) ∧ ∃ s ∈ f.states, s.id = t.target := by
  rw [h.transitions] at ht
  refine ⟨h.exists_about ht fun ref hr => ?_, h.exists_about ht fun ref hr => ?_⟩ <;>
    obtain ⟨source, target, label, hi, rfl⟩ := Resolution.transition?_eq_some.1 hr
  · exact ⟨source, by simp [hi, Clause.names], rfl⟩
  · exact ⟨target, by simp [hi, Clause.names], rfl⟩

theorem exists_final (h : Drawn b home f) {x : NodeId} (hx : x ∈ f.finals) :
    ∃ s ∈ f.states, s.id = x := by
  rw [h.finals, Resolution.mem_foldl_addOnce] at hx
  refine h.exists_about (hx.resolve_left List.not_mem_nil) fun ref hr => ?_
  obtain ⟨source, hi, rfl⟩ := Resolution.final?_eq_some.1 hr
  exact ⟨source, by simp [hi, Clause.names], rfl⟩

theorem sound (h : Drawn b home f) : f.Sound := by
  constructor
  case nested => exact h.wellNested
  case names => exact h.isName
  case initials => exact fun i hi => h.exists_initial hi
  case sources => exact fun t ht => (h.exists_ends ht).1
  case targets => exact fun t ht => (h.exists_ends ht).2
  case histories => exact fun s hs hk => absurd hk (h.leaf s hs)
  case outside =>
    intro t _ c _ hhistory
    obtain ⟨s, hs, -, hk⟩ := hhistory
    exact absurd hk (h.leaf s hs)
  case finals => exact fun x hx => h.exists_final hx

end Drawn

theorem FlatChart.sound_of_ofText {input : String} {f : FlatChart}
    (h : FlatChart.ofText input = .ok f) : f.Sound := by
  obtain ⟨b, home, hdrawn⟩ := exists_drawn h
  exact hdrawn.sound

theorem isName_stateName : IsName History.stateName := by
  refine ⟨by decide, fun c hc => ?_⟩
  obtain rfl : c = 'H' := by simpa [History.stateName] using hc
  decide

theorem WellNested.append {ss added : List State} {slots : List RegionSlot}
    (h : WellNested ss slots) (hd : ((ss ++ added).map State.id).Nodup)
    (ha : ∀ s ∈ added, ∃ c line, s = History.stateOf c line ∧
      ∃ t ∈ ss, t.id = c ∧ t.kind = .composite) : WellNested (ss ++ added) slots := by
  have hforall : ∀ P : State → Prop, (∀ s ∈ ss, P s) → (∀ c line, (∃ t ∈ ss, t.id = c ∧
      t.kind = .composite) → P (History.stateOf c line)) → ∀ s ∈ ss ++ added, P s := by
    intro P hold hnew s hs
    rcases List.mem_append.1 hs with hs | hs
    · exact hold s hs
    · obtain ⟨c, line, rfl, ht⟩ := ha s hs
      exact hnew c line ht
  have hleft : ∀ {P : State → Prop}, (∃ t ∈ ss, P t) → ∃ t ∈ ss ++ added, P t := by
    rintro P ⟨t, ht, hP⟩
    exact ⟨t, List.mem_append_left _ ht, hP⟩
  constructor
  case distinct => exact hd
  case segment => exact hforall _ h.segment fun _ _ _ => isName_stateName.isSegment
  case qualified => exact hforall _ h.qualified fun _ _ _ => rfl
  case top => exact hforall _ h.top fun _ _ _ _ => rfl
  case composite =>
    refine hforall _ (fun s hs p hp => hleft (h.composite s hs p hp)) fun c line ht p hp => ?_
    cases hp
    exact hleft ht
  case region => exact hforall _ h.region fun c line _ p k hp => by cases hp
  case owner => exact fun r hr => ⟨(h.owner r hr).1, hleft (h.owner r hr).2⟩
  case indices => exact hforall _ h.indices fun c line _ hk => by cases hk

theorem withHistory_ok {f g : FlatChart} (h : f.withHistory = .ok g) :
    ∃ o, History.carryOut f.states f.transitions f.notes = .ok o ∧ g = f.withOutcome o := by
  unfold FlatChart.withHistory at h
  split at h
  · cases h
  · rename_i o ho
    exact ⟨o, ho, (Except.ok.inj h).symm⟩

namespace FlatChart.Sound

variable {f g : FlatChart} {o : History.Outcome} {s : State} {t : Transition}

section Outcome

variable (h : f.Sound) (ho : History.carryOut f.states f.transitions f.notes = .ok o)
include h ho

theorem states_eq : o.states =
    f.states ++ History.newcomers (f.states.map State.id) (History.calls f.states f.notes) :=
  (History.carryOut_ok h.nested.distinct ho).1.states

theorem mem_states (hs : s ∈ f.states) : s ∈ o.states := by
  rw [h.states_eq ho]
  exact List.mem_append_left _ hs

theorem wellNested : WellNested o.states f.regions := by
  rw [h.states_eq ho]
  exact h.nested.append (History.nodup_append_newcomers h.nested.distinct)
    fun s hs => History.exists_of_mem_newcomers hs

theorem isName_states (hs : s ∈ o.states) : IsName s.name := by
  rw [h.states_eq ho] at hs
  rcases List.mem_append.1 hs with hs | hs
  · exact h.names s hs
  · obtain ⟨c, line, rfl, -⟩ := History.exists_of_mem_newcomers hs
    exact isName_stateName

theorem exists_target (ht : t ∈ f.transitions) :
    ∃ s ∈ o.states, s.id = (History.recalled f.states f.notes t).target := by
  rcases History.recalled_cases f.states f.notes t with heq | ⟨k, hk, -, -, heq⟩
  · obtain ⟨s, hs, hid⟩ := h.targets t ht
    exact ⟨s, h.mem_states ho hs, by rw [hid, heq]⟩
  · obtain ⟨s, hs, hid⟩ := History.exists_provided f.states hk
    rw [← h.states_eq ho] at hs
    exact ⟨s, hs, by rw [hid, heq]⟩

theorem exists_composite (hs : s ∈ o.states) (hk : s.kind = .history) :
    ∃ c line, s = History.stateOf c line ∧ ∃ t ∈ o.states, t.id = c ∧ t.kind = .composite := by
  have hfound : ∃ c line, s = History.stateOf c line ∧
      ∃ t ∈ f.states, t.id = c ∧ t.kind = .composite := by
    rw [h.states_eq ho] at hs
    rcases List.mem_append.1 hs with hs | hs
    · exact h.histories s hs hk
    · exact History.exists_of_mem_newcomers hs
  obtain ⟨c, line, rfl, t, ht, hid, hkind⟩ := hfound
  exact ⟨c, line, rfl, t, h.mem_states ho ht, hid, hkind⟩

theorem recalled_outside (ht : t ∈ f.transitions) {c : NodeId}
    (hc : (History.recalled f.states f.notes t).target = History.idOf c) (hs : s ∈ o.states)
    (hid : s.id = (History.recalled f.states f.notes t).target) (hk : s.kind = .history) :
    t.source.inside c = false := by
  rcases History.recalled_cases f.states f.notes t with heq | ⟨k, hkc, -, hspeaks, heq⟩
  · -- an arrow that was not turned ends at a state that was there before
    rw [heq] at hc hid
    obtain ⟨u, hu, huid⟩ := h.targets t ht
    have hmem := h.mem_states ho hu
    obtain rfl := List.inj_on_of_nodup_map (h.wellNested ho).distinct hs hmem (hid.trans huid.symm)
    exact h.outside t ht c hc ⟨s, hu, hid, hk⟩
  · rw [heq] at hc
    obtain rfl := History.idOf_injective hc
    exact History.source_outside (History.mem_calls_ok hkc).2 hspeaks

end Outcome

theorem withHistory (h : f.Sound) (hg : f.withHistory = .ok g) : g.Sound := by
  obtain ⟨o, ho, rfl⟩ := withHistory_ok hg
  have htrans : (f.withOutcome o).transitions =
      f.transitions.map (History.recalled f.states f.notes) :=
    History.transitions_of_carryOut h.nested.distinct ho
  constructor
  case nested => exact h.wellNested ho
  case names => exact fun s hs => h.isName_states ho hs
  case initials =>
    intro i hi
    obtain ⟨s, hs, hi⟩ := h.initials i hi
    exact ⟨s, h.mem_states ho hs, hi⟩
  case sources =>
    rw [htrans, List.forall_mem_map]
    intro t ht
    obtain ⟨s, hs, hid⟩ := h.sources t ht
    rw [History.recalled_source]
    exact ⟨s, h.mem_states ho hs, hid⟩
  case targets =>
    rw [htrans, List.forall_mem_map]
    exact fun t ht => h.exists_target ho ht
  case histories => exact fun s hs hk => h.exists_composite ho hs hk
  case outside =>
    rw [htrans, List.forall_mem_map]
    intro t ht c hc hhistory
    obtain ⟨s, hs, hid, hk⟩ := hhistory
    rw [History.recalled_source]
    exact h.recalled_outside ho ht hc hs hid hk
  case finals =>
    intro x hx
    obtain ⟨s, hs, hid⟩ := h.finals x hx
    exact ⟨s, h.mem_states ho hs, hid⟩

end FlatChart.Sound

theorem WellNested.segments_lt {ss : List State} {slots : List RegionSlot} (h : WellNested ss slots)
    {s : State} (hs : s ∈ ss) {p : NodeId} (hp : s.parent = some p) :
    p.segments.length < s.id.segments.length := by
  have hseg := h.segment s hs
  rw [h.qualified s hs]
  cases hr : s.region with
  | none =>
    have hscope : s.scope = .composite p := scope_eq_composite.2 ⟨hp, hr⟩
    rw [hscope, Scope.id?, NodeId.segments_child_some p hseg]
    simp
  | some k =>
    have hscope : s.scope = .region p k := scope_eq_region.2 ⟨hp, hr⟩
    rw [hscope, Scope.id?, NodeId.segments_child_some _ hseg, regionId,
      NodeId.segments_child_some p (isSegment_regionName k)]
    simp

theorem WellNested.scope_of_parent {ss : List State} {slots : List RegionSlot}
    (h : WellNested ss slots) {s t : State} (hs : s ∈ ss) (ht : t ∈ ss) (hk : t.kind = .composite)
    (hp : s.parent = some t.id) : s.scope = .composite t.id := by
  cases hr : s.region with
  | none => exact scope_eq_composite.2 ⟨hp, hr⟩
  | some k =>
    obtain ⟨q, hq, hown, -⟩ := h.region s hs t.id k (scope_eq_region.2 ⟨hp, hr⟩)
    obtain ⟨-, u, hu, hid, huk⟩ := h.owner q hq
    rw [List.inj_on_of_nodup_map h.distinct hu ht (hid.trans hown), hk] at huk
    cases huk

theorem WellNested.treelike {ss : List State} {slots : List RegionSlot} (h : WellNested ss slots) :
    Nesting.Treelike ss slots := by
  have hunique : ∀ s ∈ ss, ∀ t ∈ ss, s.id = t.id → s = t :=
    fun s hs t ht => List.inj_on_of_nodup_map h.distinct hs ht
  constructor
  case distinct => exact h.distinct
  case parents =>
    intro s hs p hp
    cases hr : s.region with
    | none =>
      obtain ⟨t, ht, hid, hk⟩ := h.composite s hs p (scope_eq_composite.2 ⟨hp, hr⟩)
      exact ⟨t, ht, hid, by rw [hk]; rfl⟩
    | some k =>
      obtain ⟨q, hq, hown, -⟩ := h.region s hs p k (scope_eq_region.2 ⟨hp, hr⟩)
      obtain ⟨-, t, ht, hid, hk⟩ := h.owner q hq
      exact ⟨t, ht, hid.trans hown, by rw [hk]; rfl⟩
  case ranked =>
    exact ⟨_, Nesting.ranked_of_weight (fun s => s.id.segments.length)
      fun s hs t _ hp => h.segments_lt hs hp⟩
  case slots =>
    intro s hs t ht hk hp
    cases hr : s.region with
    | none =>
      obtain ⟨u, hu, hid, huk⟩ := h.composite s hs t.id (scope_eq_composite.2 ⟨hp, hr⟩)
      rw [hunique u hu t ht hid, hk] at huk
      cases huk
    | some k =>
      obtain ⟨q, hq, hown, hi⟩ := h.region s hs t.id k (scope_eq_region.2 ⟨hp, hr⟩)
      exact ⟨q, hq, hown, by rw [hi]⟩
  case indices =>
    intro t ht hk
    obtain ⟨n, -, hi⟩ := h.indices t ht hk
    rw [hi]
    exact List.nodup_range

end Statechart
