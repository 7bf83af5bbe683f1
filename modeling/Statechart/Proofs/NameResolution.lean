import Mathlib
import Statechart.Proofs.Drawn

namespace Statechart

structure Resolved (b : Block) (home : Place → String → Place) (f : FlatChart) : Prop where
  transitions : f.transitions = (references b).filterMap (Resolution.transition? home)
  finals : f.finals =
    ((references b).filterMap (Resolution.final? home)).foldl Resolution.addOnce []
  remarks : f.remarks = (references b).filterMap (Resolution.remark? home)
  notes : f.notes = (references b).filterMap (Resolution.note? home)
  distinct : (f.states.map State.id).Nodup
  places : ∀ p q, Open (entriesOf [] b) p → Open (entriesOf [] b) q → p.id? = q.id? → p = q
  meaning : ∀ ref ∈ references b, ∀ x ∈ ref.2.item.names,
    Open (entriesOf [] b) (home ref.1 x) ∧ ∃ s ∈ f.states,
      s.id = Resolution.idAt home ref.1 x ∧ s.name = x ∧ s.scope = (home ref.1 x).scope
  kin : ∀ ref ∈ references b, ∀ x ∈ ref.2.item.names,
    home ref.1 x <:+ ref.1 ∨ ref.1 <:+ home ref.1 x
  nearest : ∀ ref ∈ references b, ∀ x ∈ ref.2.item.names, ∀ q, q <:+ ref.1 →
    (q, x) ∈ declarations b →
      (home ref.1 x, x) ∈ declarations b ∧ home ref.1 x <:+ ref.1 ∧ q <:+ home ref.1 x
  origin : ∀ s ∈ f.states, ∃ p, Open (entriesOf [] b) p ∧ s.id = .child p.id? s.name ∧
    s.scope = p.scope ∧ ((p, s.name) ∈ declarations b ∨
      (∃ c, (p, c) ∈ references b ∧ s.name ∈ Resolution.reads c.item) ∧
        ∀ q, q <:+ p ∨ p <:+ q → (q, s.name) ∉ declarations b)

namespace Drawn

variable {b : Block} {home : Place → String → Place} {f : FlatChart}

theorem origin (h : Drawn b home f) : ∀ s ∈ f.states, ∃ p, Open (entriesOf [] b) p ∧
    s.id = .child p.id? s.name ∧ s.scope = p.scope ∧ ((p, s.name) ∈ declarations b ∨
      (∃ c, (p, c) ∈ references b ∧ s.name ∈ Resolution.reads c.item) ∧
        ∀ q, q <:+ p ∨ p <:+ q → (q, s.name) ∉ declarations b) := by
  obtain ⟨bs, hc, hs, -⟩ := h.states
  rw [hs]
  intro s hm
  obtain ⟨e, he, rfl⟩ := List.mem_map.1 hm
  refine ⟨e.place, (hc.place_and_name h.coherent he).1, rfl, e.scope_toState, ?_⟩
  rcases hc.origin e he with hk | ⟨hun, c, hmem, hread⟩
  · exact .inl hk
  · refine .inr ⟨⟨c, List.mem_filterMap.2 ⟨_, hmem, ?_⟩, hread⟩, hun⟩
    cases hi : c.item <;> simp_all [Entry.reference?, Resolution.reads]

theorem nearest (h : Drawn b home f) {ref : Place × Located Clause} (href : ref ∈ references b)
    {x : String} (hx : x ∈ ref.2.item.names) {q : Place} (hq : q <:+ ref.1)
    (hk : (q, x) ∈ declarations b) :
    (home ref.1 x, x) ∈ declarations b ∧ home ref.1 x <:+ ref.1 ∧ q <:+ home ref.1 x := by
  obtain ⟨bs, hc, hs, hm⟩ := h.states
  obtain ⟨hmem, hreach⟩ := hm ref href x hx
  have hqk := hc.declared _ hk
  rcases hreach with ⟨hup, hmin⟩ | ⟨-, hnone⟩
  · have hqh := hmin q hq hqk
    refine ⟨?_, hup, hqh⟩
    obtain ⟨e, he, hkey⟩ := List.mem_map.1 hmem
    rcases hc.origin e he with hdecl | ⟨hun, -⟩
    · rwa [hkey] at hdecl
    · -- a state that nothing declares has no declaration of its name around it
      obtain ⟨hp, rfl⟩ := Prod.mk.inj hkey
      exact absurd hk (hun q (.inl (hp ▸ hqh)))
  · exact absurd hqk (hnone q hq)

theorem open_home (h : Drawn b home f) {ref : Place × Located Clause} (href : ref ∈ references b)
    {x : String} (hx : x ∈ ref.2.item.names) : Open (entriesOf [] b) (home ref.1 x) := by
  obtain ⟨bs, hc, -, hm⟩ := h.states
  obtain ⟨e, he, hkey⟩ := List.mem_map.1 (hm ref href x hx).1
  have hopen := (hc.place_and_name h.coherent he).1
  rwa [show e.place = home ref.1 x from congrArg Prod.fst hkey] at hopen

theorem kin (h : Drawn b home f) {ref : Place × Located Clause} (href : ref ∈ references b)
    {x : String} (hx : x ∈ ref.2.item.names) : home ref.1 x <:+ ref.1 ∨ ref.1 <:+ home ref.1 x := by
  obtain ⟨bs, -, -, hm⟩ := h.states
  obtain ⟨-, ⟨hup, -⟩ | ⟨hdown, -⟩⟩ := hm ref href x hx
  · exact .inl hup
  · exact .inr hdown

end Drawn

theorem exists_resolved {input : String} {es : List (Located Event)} {t : BlockTree} {f : FlatChart}
    (hs : Event.scan input = .ok es) (ht : BlockTree.ofEvents es = .ok t)
    (hf : FlatChart.ofBlocks t = .ok f) : ∃ home, Resolved t.body home f := by
  obtain ⟨home, h⟩ := drawn_ofBlocks (wellNamed_of_text hs ht) hf
  refine ⟨home, ?_⟩
  constructor
  case transitions => exact h.transitions
  case finals => exact h.finals
  case remarks => exact h.remarks
  case notes => exact h.notes
  case distinct => exact h.wellNested.distinct
  case places => exact fun p q hp hq => h.coherent.place_eq hp hq
  case meaning => exact fun ref href x hx => ⟨h.open_home href hx, h.exists_referred href hx⟩
  case kin => exact fun ref href x hx => h.kin href hx
  case nearest => exact fun ref href x hx q hq hk => h.nearest href hx hq hk
  case origin => exact h.origin

theorem exists_resolved_sample : Event.scan Sample.text = .ok Sample.events ∧
    BlockTree.ofEvents Sample.events = .ok Sample.tree ∧
    FlatChart.ofBlocks Sample.tree = .ok Sample.flat ∧
    ∃ home, Resolved Sample.tree.body home Sample.flat :=
  ⟨Sample.scan_text, Sample.ofEvents_events, Sample.ofBlocks_tree,
    exists_resolved Sample.scan_text Sample.ofEvents_events Sample.ofBlocks_tree⟩

end Statechart
