import Mathlib
import Statechart.Proofs.Initials

namespace Statechart

namespace WellNested

variable {ss : List State} {slots : List RegionSlot}

theorem region_ne (h : WellNested ss slots) {r : RegionSlot} {s : State} (hr : r ∈ slots)
    (hs : s ∈ ss) : r.id ≠ s.id := by
  -- a state with a region's id would stand in a region whose id is that of a shorter state
  induction hn : s.id.segments.length using Nat.strong_induction_on generalizing r s with
  | _ n ih =>
    intro heq
    obtain ⟨hid, u, hu, huid, huk⟩ := h.owner r hr
    have hshape : NodeId.child s.scope.id? s.name = .child (some r.owner) (regionName r.index) := by
      rw [← h.qualified s hs, ← heq, hid]
      rfl
    obtain ⟨hscope, -⟩ :=
      (NodeId.child_inj (h.segment s hs) (isSegment_regionName r.index)).1 hshape
    cases hsc : s.scope with
    | top =>
      rw [hsc] at hscope
      cases hscope
    | composite p =>
      obtain ⟨t, ht, htid, htk⟩ := h.composite s hs p hsc
      rw [hsc] at hscope
      have hp : p = r.owner := Option.some.inj hscope
      rw [List.inj_on_of_nodup_map h.distinct ht hu (by rw [htid, hp, huid]), huk] at htk
      cases htk
    | region p k =>
      obtain ⟨q, hq, hown, hidx⟩ := h.region s hs p k hsc
      rw [hsc] at hscope
      have hp : regionId p k = r.owner := Option.some.inj hscope
      have hlt : u.id.segments.length < n := by
        rw [← hn, ← heq, hid, huid, regionId,
          NodeId.segments_child_some _ (isSegment_regionName r.index)]
        simp
      refine ih _ hlt hq hu rfl ?_
      rw [(h.owner q hq).1, hown, hidx, hp, huid]

theorem nodup_regions (h : WellNested ss slots) : (slots.map RegionSlot.id).Nodup := by
  refine List.pairwise_map.2 (List.pairwise_iff_forall_sublist.2 fun {q r} hsub hid => ?_)
  have hq : q ∈ slots := hsub.subset (by simp)
  have hr : r ∈ slots := hsub.subset (by simp)
  rw [(h.owner q hq).1, (h.owner r hr).1, regionId_inj] at hid
  obtain ⟨hown, hidx⟩ := hid
  obtain ⟨-, t, ht, htid, htk⟩ := h.owner q hq
  obtain ⟨n, -, hi⟩ := h.indices t ht htk
  have htwo := (hsub.filter fun x => x.owner = t.id).map RegionSlot.index
  have hkeep : [q, r].filter (fun x => x.owner = t.id) = [q, r] := by simp [htid, hown]
  rw [hi, hkeep] at htwo
  have hnodup := List.nodup_range.sublist htwo
  simp [hidx] at hnodup

end WellNested

structure Assembled (f : FlatChart) (c : Chart) : Prop where
  states : c.states = f.states
  transitions : c.transitions = f.transitions
  slots : c.regions.map Region.slot = f.regions
  made : ∀ q ∈ c.regions, Rules.Made f q.slot q
  initial : ∃ i ∈ f.initials, i.scope = .top ∧ i.target = c.initial
  finals : c.finals = f.finals
  table : Rules.Tabled f c.regions (Rules.composites f) c.nested
  forest : Nesting.forest f.states f.regions c.nested = .ok c.roots
  tree : c.treeIds.Perm (f.states.map State.id)

theorem assembled_of_enforce {f : FlatChart} {fallback : Fallback} {c : Chart} (h : f.Sound)
    (hc : Rules.enforce fallback f = .ok c) : Assembled f c := by
  obtain ⟨top, regions, choice, roots, ht, hm, hch, hr, rfl⟩ := Rules.enforce_ok h hc
  obtain ⟨roots', hr', hperm⟩ := Nesting.forest_ok h.nested.treelike choice.nested
  obtain rfl : roots' = roots := Except.ok.inj (hr'.symm.trans hr)
  constructor
  case states => rfl
  case transitions => rfl
  case slots =>
    exact map_eq_of_forall₂ (mapM_ok.1 hm) fun _ _ hq => (Rules.made_of_regionOf hq).slot
  case made =>
    intro q hq
    obtain ⟨r, -, hqr⟩ := mem_right_of_forall₂ (mapM_ok.1 hm) q hq
    have hmade := Rules.made_of_regionOf hqr
    rwa [← hmade.slot] at hmade
  case initial =>
    obtain ⟨i, hi, rfl⟩ := Rules.topInitial_eq_ok.1 ht
    have hmem : i ∈ Rules.declaredIn f .top := hi ▸ List.mem_singleton_self i
    exact ⟨i, (Rules.mem_declaredIn.1 hmem).1, (Rules.mem_declaredIn.1 hmem).2, rfl⟩
  case finals => rfl
  case table => exact Rules.tabled_of_foldlM h hch
  case forest => exact hr
  case tree => exact hperm

structure Chart.WellFormed (c : Chart) : Prop where
  distinct : (c.states.map State.id).Nodup
  qualified : ∀ s ∈ c.states, s.id = .child s.scope.id? s.name
  top : ∀ s ∈ c.states, s.parent = none → s.region = none
  parents : ∀ s ∈ c.states, ∀ p, s.parent = some p → ∃ t ∈ c.states, t.id = p ∧
    ((t.kind = .composite ∧ s.region = none) ∨
      (t.kind = .concurrent ∧ ∃ k, s.region = some k ∧ k < c.regions.countP fun r => r.owner = p))
  indices : ∀ t ∈ c.states, t.kind = .concurrent → ∃ n, 2 ≤ n ∧
    (c.regions.filter fun r => r.owner = t.id).map Region.index = List.range n
  owners : ∀ r ∈ c.regions, r.id = regionId r.owner r.index ∧
    ∃ t ∈ c.states, t.id = r.owner ∧ t.kind = .concurrent
  regionIds : (c.regions.map Region.id).Nodup
  apart : ∀ r ∈ c.regions, ∀ s ∈ c.states, r.id ≠ s.id
  initial : ∃ s ∈ c.states, s.id = c.initial ∧ s.parent = none
  once : (c.nested.map Prod.fst).Nodup
  scopes : ∀ x, x ∈ c.nested.map Prod.fst ↔ (∃ r ∈ c.regions, r.id = x) ∨
    ∃ s ∈ c.states, s.id = x ∧ s.kind = .composite ∧
      ∃ u ∈ c.states, u.parent = some x ∧ u.kind ≠ .history
  targets : ∀ e ∈ c.nested, ∃ u ∈ c.states, u.id = e.2 ∧ u.kind ≠ .history ∧
    ((∃ s ∈ c.states, s.id = e.1 ∧ s.kind = .composite ∧ u.scope = .composite s.id) ∨
      ∃ r ∈ c.regions, r.id = e.1 ∧ u.scope = .region r.owner r.index)
  members : ∀ r ∈ c.regions, r.members =
    (c.states.filter fun s => s.parent = some r.owner && s.region = some r.index).map State.id
  started : ∀ r ∈ c.regions, r.initial ∈ r.members
  histories : ∀ s ∈ c.states, s.kind = .history → s.name = "H" ∧
    ∃ t ∈ c.states, t.kind = .composite ∧ s.parent = some t.id ∧ s.id = .child (some t.id) "H"
  single : ∀ s ∈ c.states, ∀ u ∈ c.states, s.kind = .history → u.kind = .history →
    s.parent = u.parent → s = u
  ends : ∀ t ∈ c.transitions, (∃ s ∈ c.states, s.id = t.source) ∧ ∃ s ∈ c.states, s.id = t.target
  outside : ∀ t ∈ c.transitions, ∀ s ∈ c.states, s.id = t.target → s.kind = .history →
    ∀ p, s.parent = some p → t.source.inside p = false
  tree : c.treeIds.Perm (c.states.map State.id)

namespace Assembled

variable {f : FlatChart} {c : Chart}

theorem filter_regions (ha : Assembled f c) (p : NodeId) :
    (c.regions.filter fun r => r.owner = p).map Region.index =
      (f.regions.filter fun r => r.owner = p).map RegionSlot.index := by
  rw [← ha.slots, List.filter_map, List.map_map]
  rfl

theorem mem_slots (ha : Assembled f c) {q : Region} (hq : q ∈ c.regions) : q.slot ∈ f.regions :=
  ha.slots ▸ List.mem_map_of_mem hq

theorem parents (h : f.Sound) (ha : Assembled f c) {s : State} (hs : s ∈ f.states) {p : NodeId}
    (hp : s.parent = some p) : ∃ t ∈ f.states, t.id = p ∧
      ((t.kind = .composite ∧ s.region = none) ∨ (t.kind = .concurrent ∧
        ∃ k, s.region = some k ∧ k < c.regions.countP fun r => r.owner = p)) := by
  cases hr : s.region with
  | none =>
    obtain ⟨t, ht, hid, hk⟩ := h.nested.composite s hs p (scope_eq_composite.2 ⟨hp, hr⟩)
    exact ⟨t, ht, hid, .inl ⟨hk, rfl⟩⟩
  | some k =>
    obtain ⟨q, hq, hown, hidx⟩ := h.nested.region s hs p k (scope_eq_region.2 ⟨hp, hr⟩)
    obtain ⟨-, t, ht, hid, hk⟩ := h.nested.owner q hq
    have hid : t.id = p := hid.trans hown
    obtain ⟨n, -, hi⟩ := h.nested.indices t ht hk
    rw [hid] at hi
    have hmem : k ∈ (f.regions.filter fun r => r.owner = p).map RegionSlot.index :=
      List.mem_map.2 ⟨q, List.mem_filter.2 ⟨hq, by simpa using hown⟩, hidx⟩
    have hlen : (c.regions.countP fun r => r.owner = p) = n := by
      have hl := congrArg List.length ((ha.filter_regions p).trans hi)
      rwa [List.length_map, List.length_range, ← List.countP_eq_length_filter] at hl
    rw [hi, List.mem_range] at hmem
    exact ⟨t, ht, hid, .inr ⟨hk, k, rfl, by omega⟩⟩

theorem scopes (ha : Assembled f c) (x : NodeId) :
    x ∈ c.nested.map Prod.fst ↔ (∃ r ∈ c.regions, r.id = x) ∨
      ∃ s ∈ f.states, s.id = x ∧ s.kind = .composite ∧
        ∃ u ∈ f.states, u.parent = some x ∧ u.kind ≠ .history := by
  rw [ha.table.keys]
  refine or_congr_right ⟨?_, ?_⟩
  · rintro ⟨s, hs, rfl, hfull⟩
    obtain ⟨hs, hk⟩ := List.mem_filter.1 hs
    unfold Rules.Childless at hfull
    push Not at hfull
    exact ⟨s, hs, rfl, by simpa using hk, hfull⟩
  · rintro ⟨s, hs, rfl, hk, u, hu, hp, hkind⟩
    exact ⟨s, List.mem_filter.2 ⟨hs, by simpa using hk⟩, rfl, fun hless => hkind (hless u hu hp)⟩

theorem region_initial (h : f.Sound) (ha : Assembled f c) {r : Region} (hr : r ∈ c.regions) :
    ∃ u ∈ f.states, u.id = r.initial ∧ u.kind ≠ .history ∧ u.scope = .region r.owner r.index := by
  obtain ⟨i, hi, hscope, htarget⟩ := (ha.made r hr).initial
  obtain ⟨u, hu, hid, huscope, hkind⟩ := h.initials i hi
  exact ⟨u, hu, hid.trans htarget, hkind, huscope.trans hscope⟩

theorem targets (h : f.Sound) (ha : Assembled f c) : ∀ e ∈ c.nested, ∃ u ∈ f.states,
    u.id = e.2 ∧ u.kind ≠ .history ∧
      ((∃ s ∈ f.states, s.id = e.1 ∧ s.kind = .composite ∧ u.scope = .composite s.id) ∨
        ∃ r ∈ c.regions, r.id = e.1 ∧ u.scope = .region r.owner r.index) := by
  intro e he
  rcases ha.table.values e he with ⟨r, hr, hid, hinit⟩ | ⟨s, hs, hid, u, hu, huid, huscope, hkind⟩
  · obtain ⟨u, hu, huid, hkind, huscope⟩ := ha.region_initial h hr
    exact ⟨u, hu, huid.trans hinit, hkind, .inr ⟨r, hr, hid, huscope⟩⟩
  · obtain ⟨hs, hk⟩ := List.mem_filter.1 hs
    exact ⟨u, hu, huid, hkind, .inl ⟨s, hs, hid, by simpa using hk, huscope⟩⟩

end Assembled

theorem stages_of_parse {fallback : Fallback} {input : String} {c : Chart}
    (h : Chart.parse fallback input = .ok c) : ∃ flat full, FlatChart.ofText input = .ok flat ∧
      flat.withHistory = .ok full ∧ Rules.enforce fallback full = .ok c := by
  obtain ⟨flat, hflat, h⟩ := bind_ok.1 h
  obtain ⟨full, hfull, h⟩ := bind_ok.1 h
  refine ⟨flat, full, hflat, hfull, ?_⟩
  unfold Chart.ofFlat at h
  cases he : Rules.enforce fallback full with
  | error d => simp [he, Except.mapError] at h
  | ok c' => simpa [he, Except.mapError] using h

theorem parse_of_stages {fallback : Fallback} {input : String} {flat full : FlatChart} {c : Chart}
    (hflat : FlatChart.ofText input = .ok flat) (hfull : flat.withHistory = .ok full)
    (hc : Rules.enforce fallback full = .ok c) : Chart.parse fallback input = .ok c := by
  refine bind_ok.2 ⟨flat, hflat, bind_ok.2 ⟨full, hfull, ?_⟩⟩
  rw [Chart.ofFlat, hc]
  rfl

theorem parse_ok {fallback : Fallback} {input : String} {c : Chart}
    (h : Chart.parse fallback input = .ok c) : ∃ f, f.Sound ∧ Assembled f c := by
  obtain ⟨flat, full, hflat, hfull, henforce⟩ := stages_of_parse h
  have hsound := (FlatChart.sound_of_ofText hflat).withHistory hfull
  exact ⟨full, hsound, assembled_of_enforce hsound henforce⟩

theorem Assembled.wellFormed {f : FlatChart} {c : Chart} (hf : f.Sound) (ha : Assembled f c) :
    c.WellFormed := by
  have hstates := ha.states
  constructor
  case distinct => exact hstates ▸ hf.nested.distinct
  case qualified => exact hstates ▸ hf.nested.qualified
  case top => exact hstates ▸ hf.nested.top
  case parents => exact hstates ▸ fun s hs p hp => ha.parents hf hs hp
  case indices =>
    rw [hstates]
    intro t ht hk
    obtain ⟨n, hn, hi⟩ := hf.nested.indices t ht hk
    exact ⟨n, hn, (ha.filter_regions t.id).trans hi⟩
  case owners => exact hstates ▸ fun r hr => hf.nested.owner r.slot (ha.mem_slots hr)
  case regionIds =>
    have hnodup := hf.nested.nodup_regions
    rw [← ha.slots, List.map_map] at hnodup
    exact hnodup
  case apart => exact hstates ▸ fun r hr s hs => hf.nested.region_ne (ha.mem_slots hr) hs
  case initial =>
    obtain ⟨i, hi, hscope, htarget⟩ := ha.initial
    obtain ⟨s, hs, hid, hsscope, -⟩ := hf.initials i hi
    exact ⟨s, hstates ▸ hs, hid.trans htarget, scope_eq_top.1 (hsscope.trans hscope)⟩
  case once => exact ha.table.ordered.nodup
  case scopes => exact hstates ▸ ha.scopes
  case targets => exact hstates ▸ ha.targets hf
  case members => exact hstates ▸ fun r hr => (ha.made r hr).members
  case started =>
    intro r hr
    obtain ⟨u, hu, hid, -, hscope⟩ := ha.region_initial hf hr
    rw [(ha.made r hr).members]
    refine List.mem_map.2 ⟨u, List.mem_filter.2 ⟨hu, ?_⟩, hid⟩
    simpa using scope_eq_region.1 hscope
  case histories =>
    rw [hstates]
    intro s hs hk
    obtain ⟨p, line, rfl, t, ht, rfl, htk⟩ := hf.histories s hs hk
    exact ⟨rfl, t, ht, htk, rfl, rfl⟩
  case single =>
    rw [hstates]
    intro s hs u hu hsk huk hp
    obtain ⟨p, line, rfl, -⟩ := hf.histories s hs hsk
    obtain ⟨p', line', rfl, -⟩ := hf.histories u hu huk
    have hpp : p = p' := Option.some.inj hp
    exact List.inj_on_of_nodup_map hf.nested.distinct hs hu (congrArg History.idOf hpp)
  case ends =>
    rw [hstates, ha.transitions]
    exact fun t ht => ⟨hf.sources t ht, hf.targets t ht⟩
  case outside =>
    rw [hstates, ha.transitions]
    intro t ht s hs hid hk p hp
    obtain ⟨q, line, rfl, -⟩ := hf.histories s hs hk
    obtain rfl : q = p := Option.some.inj hp
    exact hf.outside t ht q hid.symm ⟨_, hs, hid, hk⟩
  case tree => exact hstates ▸ ha.tree

theorem Chart.wellFormed_of_parse {fallback : Fallback} {input : String} {c : Chart}
    (h : Chart.parse fallback input = .ok c) : c.WellFormed := by
  obtain ⟨f, hf, ha⟩ := parse_ok h
  exact ha.wellFormed hf

theorem Chart.wellFormed_sample : ∃ c, Chart.parse .firstChild Sample.text = .ok c ∧
    c.WellFormed := by
  have hflat : FlatChart.ofText Sample.text = .ok Sample.flat :=
    bind_ok.2 ⟨_, Sample.scan_text, bind_ok.2 ⟨_, Sample.ofEvents_events, Sample.ofBlocks_tree⟩⟩
  have hparse : ∃ c, Chart.parse .firstChild Sample.text = .ok c := by
    unfold Chart.parse
    rw [hflat]
    exact ⟨_, rfl⟩
  obtain ⟨c, hc⟩ := hparse
  exact ⟨c, hc, Chart.wellFormed_of_parse hc⟩

namespace Sample

def chart : Chart where
  states := full.states
  roots :=
    [.composite ⟨"On"⟩ "On" (some ⟨"On/A"⟩)
        [.simple ⟨"On/A"⟩ "A", .simple ⟨"On/B"⟩ "B", .history ⟨"On/H"⟩ "H"],
      .simple ⟨"Off"⟩ "Off",
      .concurrent ⟨"Two"⟩ "Two"
        [.region ⟨"Two/region1"⟩ "region1" (some ⟨"Two/region1/A"⟩)
            [.simple ⟨"Two/region1/A"⟩ "A"],
          .region ⟨"Two/region2"⟩ "region2" (some ⟨"Two/region2/B"⟩)
            [.simple ⟨"Two/region2/B"⟩ "B"]]]
  initial := ⟨"On"⟩
  nested :=
    [(⟨"On"⟩, ⟨"On/A"⟩), (⟨"Two/region1"⟩, ⟨"Two/region1/A"⟩),
      (⟨"Two/region2"⟩, ⟨"Two/region2/B"⟩)]
  defaulted := [⟨"On"⟩]
  regions :=
    [⟨⟨"Two"⟩, 0, "region1", ⟨"Two/region1"⟩, ⟨"Two/region1/A"⟩, [⟨"Two/region1/A"⟩]⟩,
      ⟨⟨"Two"⟩, 1, "region2", ⟨"Two/region2"⟩, ⟨"Two/region2/B"⟩, [⟨"Two/region2/B"⟩]⟩]
  transitions := full.transitions
  finals := []
  remarks := []
  direction := none

theorem enforce_full : Rules.enforce .firstChild full = .ok chart := by
  rfl

theorem ofText_text : FlatChart.ofText text = .ok flat :=
  bind_ok.2 ⟨_, scan_text, bind_ok.2 ⟨_, ofEvents_events, ofBlocks_tree⟩⟩

theorem parse_text : Chart.parse .firstChild text = .ok chart := by
  refine bind_ok.2 ⟨flat, ofText_text, bind_ok.2 ⟨full, withHistory_flat, ?_⟩⟩
  rw [Chart.ofFlat, enforce_full]
  rfl

end Sample

end Statechart
