import Mathlib
import Statechart.Proofs.Repetition
import Statechart.Proofs.Starts

namespace Statechart

def State.LiesIn (s : State) : Scope → Prop
  | .top => s.parent = none
  | .composite p => s.parent = some p
  | .region p k => s.parent = some p ∧ s.region = some k

instance (s : State) : (scope : Scope) → Decidable (s.LiesIn scope)
  | .top => inferInstanceAs (Decidable (s.parent = none))
  | .composite p => inferInstanceAs (Decidable (s.parent = some p))
  | .region p k => inferInstanceAs (Decidable (s.parent = some p ∧ s.region = some k))

theorem State.liesIn_scope (s : State) : s.LiesIn s.scope := by
  cases hs : s.scope with
  | top => exact scope_eq_top.1 hs
  | composite p => exact (scope_eq_composite.1 hs).1
  | region p k => exact scope_eq_region.1 hs

structure Chart.Anchored (c : Chart) : Prop where
  initial : ∃ s ∈ c.states, s.id = c.initial ∧ s.LiesIn .top
  nested : ∀ e ∈ c.nested, ∃ u ∈ c.states, u.id = e.2 ∧
    ((∃ s ∈ c.states, s.id = e.1 ∧ s.kind = .composite ∧ u.LiesIn (.composite s.id)) ∨
      ∃ r ∈ c.regions, r.id = e.1 ∧ u.LiesIn (.region r.owner r.index))
  owners : ∀ r ∈ c.regions, ∃ s ∈ c.states, s.id = r.owner ∧ s.kind = .concurrent
  finals : ∀ x ∈ c.finals, ∃ s ∈ c.states, s.id = x
  remarks : ∀ r ∈ c.remarks, ∃ s ∈ c.states, s.id = r.state

namespace FlatChart

def scopes (f : FlatChart) : List Scope :=
  .top :: ((Rules.composites f).map fun s => .composite s.id) ++
    f.regions.map fun r => .region r.owner r.index

structure Grounded (f : FlatChart) : Prop where
  initials : ∀ i ∈ f.initials, i.scope ∈ f.scopes →
    ∃ s ∈ f.states, s.id = i.target ∧ s.LiesIn i.scope
  owners : ∀ r ∈ f.regions, ∃ s ∈ f.states, s.id = r.owner ∧ s.kind = .concurrent
  finals : ∀ x ∈ f.finals, ∃ s ∈ f.states, s.id = x
  remarks : ∀ r ∈ f.remarks, ∃ s ∈ f.states, s.id = r.state

end FlatChart

structure Admitted (f : FlatChart) (c : Chart) : Prop where
  states : c.states = f.states
  distinct : (c.states.map State.id).Nodup
  transitions : c.transitions = f.transitions
  ends : ∀ t ∈ c.transitions,
    (∃ s ∈ c.states, s.id = t.source) ∧ ∃ s ∈ c.states, s.id = t.target
  initial : ∃ i, Rules.declaredIn f .top = [i] ∧ c.initial = i.target
  slots : c.regions.map Region.slot = f.regions
  split : ∀ s ∈ c.states, s.kind = .concurrent → 2 ≤ c.regions.countP fun r => r.owner = s.id
  regions : ∀ r ∈ c.regions,
    ∃ i, Rules.declaredIn f (.region r.owner r.index) = [i] ∧ r.initial = i.target
  nested : ∀ e ∈ c.nested, (∃ r ∈ c.regions, r.id = e.1 ∧ r.initial = e.2) ∨
    ∃ s ∈ c.states, s.id = e.1 ∧ s.kind = .composite ∧
      ((∃ i, Rules.declaredIn f (.composite s.id) = [i] ∧ e.2 = i.target) ∨
        (s.id ∈ c.defaulted ∧
          ∃ u ∈ c.states, u.id = e.2 ∧ u.parent = some s.id ∧ u.kind ≠ .history))
  finals : c.finals = f.finals
  remarks : c.remarks = f.remarks

namespace Rules

variable {f : FlatChart} {fallback : Fallback} {c : Chart} {s : State} {ch ch' : Choice}
  {qs : List Region}

theorem checkIds_eq_ok : checkIds f = .ok () ↔ (f.states.map State.id).Nodup := by
  have hiff : firstRepeat [] (f.states.map State.id) = none ↔ (f.states.map State.id).Nodup := by
    simp [firstRepeat_eq_none]
  rw [← hiff]
  unfold checkIds
  split <;> simp_all

theorem exists_of_stateAt {line : Nat} {id : NodeId} (h : stateAt f line id = .ok s) :
    s ∈ f.states ∧ s.id = id := by
  unfold stateAt at h
  split at h
  · rename_i t ht
    cases h
    exact ⟨List.mem_of_find?_eq_some ht, by simpa using List.find?_some ht⟩
  · cases h

theorem ends_of_checkTransition {t : Transition} (h : checkTransition f t = .ok ()) :
    (∃ s ∈ f.states, s.id = t.source) ∧ ∃ s ∈ f.states, s.id = t.target := by
  obtain ⟨s, hs, h⟩ := bind_ok.1 h
  obtain ⟨u, hu, -⟩ := bind_ok.1 h
  exact ⟨⟨s, exists_of_stateAt hs⟩, u, exists_of_stateAt hu⟩

theorem two_le_of_checkRegions (h : checkRegions f s = .ok ()) (hk : s.kind = .concurrent) :
    2 ≤ f.regions.countP fun r => r.owner = s.id := by
  by_contra hfew
  rw [checkRegions, if_pos ⟨hk, Nat.lt_of_not_le hfew⟩] at h
  cases h

theorem declared_of_regionOf {r : RegionSlot} {q : Region} (h : regionOf f r = .ok q) :
    ∃ i, declaredIn f (.region q.owner q.index) = [i] ∧ q.initial = i.target := by
  obtain ⟨i, hi, rfl⟩ := regionOf_eq_ok.1 h
  exact ⟨i, hi, rfl⟩

def Sourced (f : FlatChart) (qs : List Region) (made : List State) (defaulted : List NodeId)
    (e : NodeId × NodeId) : Prop :=
  (∃ r ∈ qs, r.id = e.1 ∧ r.initial = e.2) ∨
    ∃ s ∈ made, s.id = e.1 ∧
      ((∃ i, declaredIn f (.composite s.id) = [i] ∧ e.2 = i.target) ∨
        (s.id ∈ defaulted ∧
          ∃ u ∈ f.states, u.id = e.2 ∧ u.parent = some s.id ∧ u.kind ≠ .history))

theorem Sourced.mono {made made' : List State} {ds ds' : List NodeId} {e : NodeId × NodeId}
    (h : Sourced f qs made ds e) (hm : made ⊆ made') (hd : ds ⊆ ds') :
    Sourced f qs made' ds' e := by
  rcases h with hq | ⟨s, hs, hid, hi | ⟨hdef, hu⟩⟩
  · exact .inl hq
  · exact .inr ⟨s, hm hs, hid, .inl hi⟩
  · exact .inr ⟨s, hm hs, hid, .inr ⟨hd hdef, hu⟩⟩

theorem sourced_ofRegions (f : FlatChart) (qs : List Region) :
    ∀ e ∈ (ofRegions qs).nested, Sourced f qs [] [] e := by
  unfold ofRegions
  induction qs using List.reverseRecOn with
  | nil => simp
  | append_singleton qs q ih =>
    rw [List.foldl_append, List.foldl_cons, List.foldl_nil]
    intro e he
    rcases Initials.mem_set he with rfl | he
    · exact .inl ⟨q, by simp, rfl, rfl⟩
    · rcases ih e he with ⟨r, hr, hval⟩ | ⟨s, hs, -⟩
      · exact .inl ⟨r, List.mem_append_left _ hr, hval⟩
      · cases hs

theorem sourced_step {made : List State}
    (h : ∀ e ∈ ch.nested, Sourced f qs made (ch.defaulted.map Prod.fst) e)
    (hc : chooseInitial f fallback ch s = .ok ch') :
    ∀ e ∈ ch'.nested, Sourced f qs (made ++ [s]) (ch'.defaulted.map Prod.fst) e := by
  have hmade : made ⊆ made ++ [s] := List.subset_append_left _ _
  cases chooseInitial_eq_ok.1 hc with
  | declared i hi =>
    intro e he
    rcases Initials.mem_set he with rfl | he
    · exact .inr ⟨s, by simp, rfl, .inl ⟨i, hi, rfl⟩⟩
    · exact (h e he).mono hmade (List.Subset.refl _)
  | childless => exact fun e he => (h e he).mono hmade (List.Subset.refl _)
  | defaulted u _ hu _ =>
    have hchild : u.parent = some s.id ∧ u.kind ≠ .history := by
      simpa using List.find?_some hu
    intro e he
    rcases Initials.mem_set he with rfl | he
    · exact .inr ⟨s, by simp, rfl, .inr ⟨by simp, u, List.mem_of_find?_eq_some hu, rfl, hchild⟩⟩
    · refine (h e he).mono hmade ?_
      rw [List.map_append]
      exact List.subset_append_left _ _

theorem sourced_of_foldlM {choice : Choice}
    (hc : (composites f).foldlM (chooseInitial f fallback) (ofRegions qs) = .ok choice) :
    ∀ e ∈ choice.nested, Sourced f qs (composites f) (choice.defaulted.map Prod.fst) e :=
  foldlM_invariant
    (fun made ch => ∀ e ∈ ch.nested, Sourced f qs made (ch.defaulted.map Prod.fst) e)
    (fun _ _ _ _ _ hs hstep => sourced_step hs hstep) (sourced_ofRegions f qs) hc

theorem foundation_ok {top : NodeId} {start : Choice} (h : foundation f = .ok (top, qs, start)) :
    checkIds f = .ok () ∧ (∀ t ∈ f.transitions, checkTransition f t = .ok ()) ∧
      topInitial f = .ok top ∧ (∀ s ∈ f.states, checkRegions f s = .ok ()) ∧
      f.regions.mapM (regionOf f) = .ok qs ∧ start = ofRegions qs := by
  obtain ⟨_, hids, h⟩ := bind_ok.1 h
  obtain ⟨_, htransitions, h⟩ := bind_ok.1 h
  obtain ⟨_, htop, h⟩ := bind_ok.1 h
  obtain ⟨_, hsplit, h⟩ := bind_ok.1 h
  obtain ⟨_, hregions, h⟩ := bind_ok.1 h
  cases h
  exact ⟨hids, forM_ok.1 htransitions, htop, forM_ok.1 hsplit, hregions, rfl⟩

theorem eq_of_checkCount {c' : Chart} (h : checkCount c = .ok c') : c' = c := by
  simp only [checkCount] at h
  split at h
  · exact (Except.ok.inj h).symm
  · cases h

theorem enforce_passed (hc : enforce fallback f = .ok c) : ∃ top regions choice roots,
    foundation f = .ok (top, regions, ofRegions regions) ∧
      (composites f).foldlM (chooseInitial f fallback) (ofRegions regions) = .ok choice ∧
      c = assemble f top regions choice roots := by
  obtain ⟨⟨top, regions, start⟩, hfoundation, hrest⟩ := bind_ok.1 hc
  obtain ⟨-, -, -, -, -, rfl⟩ := foundation_ok hfoundation
  obtain ⟨choice, hchoice, hrest⟩ := bind_ok.1 hrest
  obtain ⟨roots, -, hcount⟩ := bind_ok.1 hrest
  exact ⟨top, regions, choice, roots, hfoundation, hchoice, eq_of_checkCount hcount⟩

theorem admitted (hc : enforce fallback f = .ok c) : Admitted f c := by
  obtain ⟨top, qs, choice, roots, hfoundation, hchoice, rfl⟩ := enforce_passed hc
  obtain ⟨hids, htransitions, htop, hsplit, hregions, -⟩ := foundation_ok hfoundation
  have hmade := mapM_ok.1 hregions
  have hslots : qs.map Region.slot = f.regions :=
    map_eq_of_forall₂ hmade fun _ _ hq => (made_of_regionOf hq).slot
  constructor
  case states => rfl
  case distinct => exact checkIds_eq_ok.1 hids
  case transitions => rfl
  case ends => exact fun t ht => ends_of_checkTransition (htransitions t ht)
  case initial => exact topInitial_eq_ok.1 htop
  case slots => exact hslots
  case split =>
    intro s hs hk
    have htwo := two_le_of_checkRegions (hsplit s hs) hk
    rw [← hslots, List.countP_map] at htwo
    exact htwo
  case regions =>
    intro r hr
    obtain ⟨slot, -, hslot⟩ := mem_right_of_forall₂ hmade r hr
    exact declared_of_regionOf hslot
  case nested =>
    intro e he
    rcases sourced_of_foldlM hchoice e he with hq | ⟨s, hs, hid, hval⟩
    · exact .inl hq
    · obtain ⟨hs, hk⟩ := List.mem_filter.1 hs
      exact .inr ⟨s, hs, hid, by simpa using hk, hval⟩
  case finals => rfl
  case remarks => rfl

end Rules

namespace Admitted

variable {f : FlatChart} {c : Chart}

theorem exists_target (ha : Admitted f c) (hg : f.Grounded) {scope : Scope} {i : Initial}
    (hi : Rules.declaredIn f scope = [i]) (hs : scope ∈ f.scopes) :
    ∃ s ∈ c.states, s.id = i.target ∧ s.LiesIn scope := by
  obtain ⟨hmem, rfl⟩ := Rules.mem_declaredIn.1 (hi ▸ List.mem_singleton_self i)
  exact ha.states ▸ hg.initials i hmem hs

theorem mem_slots (ha : Admitted f c) {r : Region} (hr : r ∈ c.regions) : r.slot ∈ f.regions :=
  ha.slots ▸ List.mem_map_of_mem hr

theorem anchored (ha : Admitted f c) (hg : f.Grounded) : c.Anchored := by
  constructor
  case initial =>
    obtain ⟨i, hi, htarget⟩ := ha.initial
    exact htarget ▸ ha.exists_target hg hi (by simp [FlatChart.scopes])
  case nested =>
    intro e he
    rcases ha.nested e he with ⟨r, hr, hid, hval⟩ |
      ⟨s, hs, hid, hk, ⟨i, hi, hval⟩ | ⟨-, u, hu, hval, hp, -⟩⟩
    · obtain ⟨i, hi, htarget⟩ := ha.regions r hr
      have hscope : Scope.region r.owner r.index ∈ f.scopes :=
        List.mem_append_right _ (List.mem_map.2 ⟨r.slot, ha.mem_slots hr, rfl⟩)
      obtain ⟨u, hu, huid, hlies⟩ := ha.exists_target hg hi hscope
      exact ⟨u, hu, by rw [huid, ← htarget, hval], .inr ⟨r, hr, hid, hlies⟩⟩
    · have hcomposite : s ∈ Rules.composites f :=
        List.mem_filter.2 ⟨ha.states ▸ hs, by simpa using hk⟩
      have hscope : Scope.composite s.id ∈ f.scopes :=
        List.mem_append_left _ (List.mem_cons_of_mem _ (List.mem_map_of_mem hcomposite))
      obtain ⟨u, hu, huid, hlies⟩ := ha.exists_target hg hi hscope
      exact ⟨u, hu, huid.trans hval.symm, .inl ⟨s, hs, hid, hk, hlies⟩⟩
    · exact ⟨u, hu, hval, .inl ⟨s, hs, hid, hk, hp⟩⟩
  case owners => exact ha.states ▸ fun r hr => hg.owners r.slot (ha.mem_slots hr)
  case finals => exact ha.states ▸ ha.finals ▸ hg.finals
  case remarks => exact ha.states ▸ ha.remarks ▸ hg.remarks

end Admitted

namespace Drawn

variable {b : Block} {home : Place → String → Place} {f : FlatChart}

theorem exists_remarked (h : Drawn b home f) {r : Remark} (hr : r ∈ f.remarks) :
    ∃ s ∈ f.states, s.id = r.state :=
  h.exists_about (h.remarks ▸ hr) fun ref hr => by
    obtain ⟨name, text, hi, rfl⟩ := Resolution.remark?_eq_some.1 hr
    exact ⟨name, by simp [hi, Clause.names], rfl⟩

theorem exists_noted (h : Drawn b home f) {n : Note} (hn : n ∈ f.notes) :
    ∃ s ∈ f.states, s.id = n.state :=
  h.exists_about (h.notes ▸ hn) fun ref hr => by
    obtain ⟨name, side, text, hi, rfl⟩ := Resolution.note?_eq_some.1 hr
    exact ⟨name, by simp [hi, Clause.names], rfl⟩

theorem exists_told (h : Drawn b home f) {o : History.Outcome}
    (ho : History.carryOut f.states f.transitions f.notes = .ok o) {r : Remark}
    (hr : r ∈ f.remarks ++ o.remarks) : ∃ s ∈ f.states, s.id = r.state := by
  rcases List.mem_append.1 hr with hr | hr
  · exact h.exists_remarked hr
  · rw [History.remarks_foldlM ho] at hr
    obtain ⟨task, htask, hr⟩ := List.mem_flatMap.1
      ((List.mem_append.1 hr).resolve_left List.not_mem_nil)
    obtain ⟨n, hn, htask⟩ := List.mem_flatMap.1 htask
    cases task with
    | keep m =>
      obtain rfl : m = n := by simpa [History.tasksOf] using htask
      exact History.state_of_mem_remarksOf hr ▸ h.exists_noted hn
    | review | attach => cases hr

end Drawn

theorem FlatChart.grounded_of_text {input : String} {flat full : FlatChart}
    (hflat : FlatChart.ofText input = .ok flat) (hfull : flat.withHistory = .ok full) :
    full.Grounded := by
  obtain ⟨b, home, hdrawn⟩ := exists_drawn hflat
  have hsound := hdrawn.sound.withHistory hfull
  obtain ⟨o, ho, rfl⟩ := withHistory_ok hfull
  constructor
  case initials =>
    intro i hi _
    obtain ⟨s, hs, hid, hscope, -⟩ := hsound.initials i hi
    exact ⟨s, hs, hid, hscope ▸ s.liesIn_scope⟩
  case owners => exact fun r hr => (hsound.nested.owner r hr).2
  case finals => exact hsound.finals
  case remarks =>
    intro r hr
    obtain ⟨s, hs, hid⟩ := hdrawn.exists_told ho hr
    exact ⟨s, hdrawn.sound.mem_states ho hs, hid⟩

theorem Rules.admitted_of_enforce {fallback : Fallback} {f : FlatChart} {c : Chart}
    (h : Rules.enforce fallback f = .ok c) : Admitted f c ∧ (f.Grounded → c.Anchored) ∧
      ∀ input flat, FlatChart.ofText input = .ok flat → flat.withHistory = .ok f → c.Anchored :=
  ⟨Rules.admitted h, (Rules.admitted h).anchored, fun _ _ hflat hfull =>
    (Rules.admitted h).anchored (FlatChart.grounded_of_text hflat hfull)⟩

theorem Rules.admitted_sample : Rules.enforce .firstChild Sample.full = .ok Sample.chart ∧
    Admitted Sample.full Sample.chart ∧ Sample.chart.Anchored := by
  obtain ⟨hadmitted, -, htext⟩ := Rules.admitted_of_enforce Sample.enforce_full
  exact ⟨Sample.enforce_full, hadmitted, htext _ _ Sample.ofText_text Sample.withHistory_flat⟩

namespace Sample.Stray

/-- Parts put together by hand: `Ghost` is no state, and `A` does not lie in `C`. -/
def flat : FlatChart where
  states :=
    [⟨"A", ⟨"A"⟩, none, none, .simple, none, 1⟩, ⟨"C", ⟨"C"⟩, none, none, .composite, none, 1⟩]
  regions := [⟨⟨"Ghost"⟩, 0, ⟨"Ghost/region1"⟩⟩]
  transitions := []
  initials :=
    [⟨.top, ⟨"Ghost"⟩, 1⟩, ⟨.composite ⟨"C"⟩, ⟨"A"⟩, 2⟩, ⟨.region ⟨"Ghost"⟩ 0, ⟨"A"⟩, 3⟩]
  finals := [⟨"Ghost"⟩]
  notes := []
  remarks := [⟨⟨"Ghost"⟩, .note, "boo", 4⟩]
  direction := none

def chart : Chart where
  states := flat.states
  roots := [.simple ⟨"A"⟩ "A", .composite ⟨"C"⟩ "C" (some ⟨"A"⟩) []]
  initial := ⟨"Ghost"⟩
  nested := [(⟨"C"⟩, ⟨"A"⟩), (⟨"Ghost/region1"⟩, ⟨"A"⟩)]
  defaulted := []
  regions := [⟨⟨"Ghost"⟩, 0, "region1", ⟨"Ghost/region1"⟩, ⟨"A"⟩, []⟩]
  transitions := []
  finals := flat.finals
  remarks := flat.remarks
  direction := none

end Sample.Stray

theorem Rules.stray_enforced :
    Rules.enforce .firstChild Sample.Stray.flat = .ok Sample.Stray.chart ∧
    Rules.enforce .reject Sample.Stray.flat = .ok Sample.Stray.chart ∧
    ¬Sample.Stray.chart.Anchored ∧
    (∀ s ∈ Sample.Stray.chart.states, s.id ≠ Sample.Stray.chart.initial) ∧
    (∃ e ∈ Sample.Stray.chart.nested, ∀ u ∈ Sample.Stray.chart.states, u.id = e.2 →
      ¬u.LiesIn (.composite e.1) ∧
        ∀ r ∈ Sample.Stray.chart.regions, ¬u.LiesIn (.region r.owner r.index)) ∧
    (∃ r ∈ Sample.Stray.chart.regions, ∀ s ∈ Sample.Stray.chart.states, s.id ≠ r.owner) ∧
    (∃ x ∈ Sample.Stray.chart.finals, ∀ s ∈ Sample.Stray.chart.states, s.id ≠ x) ∧
    ∃ r ∈ Sample.Stray.chart.remarks, ∀ s ∈ Sample.Stray.chart.states, s.id ≠ r.state := by
  have hinitial : ∀ s ∈ Sample.Stray.chart.states, s.id ≠ Sample.Stray.chart.initial := by
    decide +kernel
  refine ⟨rfl, rfl, fun h => ?_, hinitial, ?_, ?_, ?_, ?_⟩
  · obtain ⟨s, hs, hid, -⟩ := h.initial
    exact hinitial s hs hid
  all_goals decide +kernel

end Statechart
