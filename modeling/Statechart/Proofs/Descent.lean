import Mathlib
import Statechart.Proofs.WellFormed

namespace Statechart

namespace WellNested

open Nesting

variable {ss : List State} {slots : List RegionSlot} {s t : State} {a : NodeId}

theorem inside_iff_scope (h : WellNested ss slots) (hs : s ∈ ss) :
    s.id.inside a ↔ ∃ b, s.scope.id? = some b ∧ (b = a ∨ b.inside a) := by
  rw [h.qualified s hs]
  cases hb : s.scope.id? with
  | none => simp [NodeId.not_inside_child_none (h.segment s hs)]
  | some b => simp [NodeId.inside_child_some (h.segment s hs)]

theorem exists_upward (h : WellNested ss slots) (hs : s ∈ ss) {p : NodeId}
    (hp : s.parent = some p) : ∃ u, Upward ss s u ∧ u.id = p := by
  obtain ⟨u, hu, rfl, -⟩ := h.treelike.parents s hs p hp
  exact ⟨u, ⟨hs, hu, hp⟩, rfl⟩

theorem inside_iff_up (h : WellNested ss slots) (hs : s ∈ ss) :
    s.id.inside a ↔ (s.scope.id? = some a ∨ s.parent = some a) ∨
      ∃ u, Upward ss s u ∧ u.id.inside a := by
  have hup : ∀ p, s.parent = some p → ((∃ u, Upward ss s u ∧ u.id.inside a) ↔ p.inside a) := by
    intro p hp
    obtain ⟨u, hu, rfl⟩ := h.exists_upward hs hp
    refine ⟨fun ⟨v, hv, hin⟩ => ?_, fun hin => ⟨u, hu, hin⟩⟩
    rwa [upward_unique h.treelike hu hv]
  rw [h.inside_iff_scope hs]
  cases hsc : s.scope with
  | top =>
    have hp := scope_eq_top.1 hsc
    simp [Scope.id?, hp, Upward]
  | composite p =>
    obtain ⟨hp, -⟩ := scope_eq_composite.1 hsc
    simp [Scope.id?, hup p hp, hp]
  | region p k =>
    obtain ⟨hp, -⟩ := scope_eq_region.1 hsc
    have hregion : (regionId p k).inside a ↔ p = a ∨ p.inside a :=
      NodeId.inside_child_some (isSegment_regionName k)
    simp [Scope.id?, hup p hp, hp, hregion, or_assoc]

theorem inside_iff_encloses (h : WellNested ss slots) (hs : s ∈ ss) :
    s.id.inside a ↔ ∃ t, Encloses ss t s ∧ (t.scope.id? = some a ∨ t.parent = some a) := by
  obtain ⟨r, hr⟩ := h.treelike.ranked
  induction hn : r s using Nat.strong_induction_on generalizing s with
  | _ n ih =>
    have hup : ∀ u, Upward ss s u → (u.id.inside a ↔
        ∃ t, Encloses ss t u ∧ (t.scope.id? = some a ∨ t.parent = some a)) := by
      intro u hu
      have hlt := hr.lower s hs u hu.2.1 hu.2.2
      exact ih (r u) (by omega) hu.2.1 rfl
    rw [h.inside_iff_up hs]
    constructor
    · rintro (hself | ⟨u, hu, hin⟩)
      · exact ⟨s, .refl, hself⟩
      · obtain ⟨t, ht, hself⟩ := (hup u hu).1 hin
        exact ⟨t, .head hu ht, hself⟩
    · rintro ⟨t, ht, hself⟩
      rcases Relation.ReflTransGen.cases_head ht with rfl | ⟨u, hu, hut⟩
      · exact .inl hself
      · exact .inr ⟨u, hu, (hup u hu).2 ⟨t, hut, hself⟩⟩

theorem scope_id?_eq_region (h : WellNested ss slots) (hs : s ∈ ss) {r : RegionSlot}
    (hr : r ∈ slots) : s.scope.id? = some r.id ↔ s.scope = .region r.owner r.index := by
  have hid := (h.owner r hr).1
  cases hsc : s.scope with
  | top => simp [Scope.id?]
  | composite p =>
    obtain ⟨u, hu, rfl, -⟩ := h.composite s hs p hsc
    simp [Scope.id?, (h.region_ne hr hu).symm]
  | region p k => simp [Scope.id?, hid, regionId_inj]

theorem scope_id?_ne (h : WellNested ss slots) (hs : s ∈ ss) (ht : t ∈ ss)
    (hp : s.parent ≠ some t.id) : s.scope.id? ≠ some t.id := by
  cases hsc : s.scope with
  | top => simp [Scope.id?]
  | composite p => simpa [Scope.id?, (scope_eq_composite.1 hsc).1] using hp
  | region p k =>
    obtain ⟨r, hr, hown, hidx⟩ := h.region s hs p k hsc
    have hne := h.region_ne hr ht
    rw [(h.owner r hr).1, hown, hidx] at hne
    simpa [Scope.id?] using hne

theorem inside_iff_region (h : WellNested ss slots) (hs : s ∈ ss) {r : RegionSlot}
    (hr : r ∈ slots) :
    s.id.inside r.id ↔ ∃ t, Encloses ss t s ∧ t.scope = .region r.owner r.index := by
  rw [h.inside_iff_encloses hs]
  refine exists_congr fun t => and_congr_right fun ht => ?_
  have htm := mem_of_encloses hs ht
  have hparent : t.parent ≠ some r.id := by
    intro hp
    obtain ⟨u, hu, hid⟩ := h.exists_upward htm hp
    exact h.region_ne hr hu.2.1 hid.symm
  rw [h.scope_id?_eq_region htm hr, or_iff_left hparent]

theorem inside_iff_transGen (h : WellNested ss slots) (hs : s ∈ ss) (ht : t ∈ ss) :
    s.id.inside t.id ↔ Relation.TransGen (Upward ss) s t := by
  rw [h.inside_iff_encloses hs, Relation.TransGen.tail'_iff]
  refine exists_congr fun u => and_congr_right fun hu => ?_
  have hum := mem_of_encloses hs hu
  have hparent : u.scope.id? = some t.id ∨ u.parent = some t.id ↔ u.parent = some t.id :=
    or_iff_right_of_imp fun hsc => by_contra fun hp => h.scope_id?_ne hum ht hp hsc
  rw [hparent]
  exact ⟨fun hp => ⟨hum, ht, hp⟩, fun hup => hup.2.2⟩

end WellNested

theorem Chart.inside_iff_upward {fallback : Fallback} {input : String} {c : Chart}
    (h : Chart.parse fallback input = .ok c) :
    (∀ s ∈ c.states, ∀ t ∈ c.states,
      s.id.inside t.id ↔ Relation.TransGen (Nesting.Upward c.states) s t) ∧
    (∀ s ∈ c.states, ∀ r ∈ c.regions, s.id.inside r.id ↔
      ∃ t, Nesting.Encloses c.states t s ∧ t.scope = .region r.owner r.index) ∧
    ∀ r ∈ c.regions, r.id = regionId r.owner r.index ∧ ∀ s ∈ c.states, s.id ≠ r.id := by
  obtain ⟨f, hf, ha⟩ := parse_ok h
  rw [ha.states]
  refine ⟨fun s hs t ht => hf.nested.inside_iff_transGen hs ht, fun s hs r hr => ?_,
    fun r hr => ⟨?_, fun s hs => ?_⟩⟩
  · exact hf.nested.inside_iff_region hs (ha.mem_slots hr)
  · exact (hf.nested.owner r.slot (ha.mem_slots hr)).1
  · exact (hf.nested.region_ne (ha.mem_slots hr) hs).symm

theorem Chart.inside_iff_upward_sample : Chart.parse .firstChild Sample.text = .ok Sample.chart ∧
    ∃ a ∈ Sample.chart.states, ∃ two ∈ Sample.chart.states, ∃ on ∈ Sample.chart.states,
      a.id = ⟨"Two/region1/A"⟩ ∧ two.id = ⟨"Two"⟩ ∧ on.id = ⟨"On"⟩ ∧
        Relation.TransGen (Nesting.Upward Sample.chart.states) a two ∧
        ¬Relation.TransGen (Nesting.Upward Sample.chart.states) a on := by
  have hall := (Chart.inside_iff_upward Sample.parse_text).1
  refine ⟨Sample.parse_text, ⟨"A", ⟨"Two/region1/A"⟩, some ⟨"Two"⟩, some 0, .simple, none, 7⟩,
    by decide, ⟨"Two", ⟨"Two"⟩, none, none, .concurrent, none, 6⟩, by decide,
    ⟨"On", ⟨"On"⟩, none, none, .composite, none, 1⟩, by decide, rfl, rfl, rfl, ?_, ?_⟩
  · exact (hall _ (by decide) _ (by decide)).1 (by decide)
  · rw [← hall _ (by decide) _ (by decide)]
    decide

end Statechart
