import Mathlib
import Statechart.Proofs.WellFormed

namespace Statechart

theorem Initials.get?_eq_some_iff {m : Initials} (hd : (m.map Prod.fst).Nodup) {scope i : NodeId} :
    m.get? scope = some i ↔ (scope, i) ∈ m := by
  induction m with
  | nil => simp [get?]
  | cons e m ih =>
    obtain ⟨hnew, hd⟩ := List.nodup_cons.1 hd
    by_cases he : scope = e.1
    · have hnot : (scope, i) ∉ m := fun hm => hnew (he ▸ List.mem_map_of_mem hm)
      have hcons : (scope, i) = e ↔ e.2 = i := by
        rw [he]
        exact ⟨fun h => congrArg Prod.snd h.symm, fun h => by rw [← h]⟩
      rw [get?, List.lookup_cons, beq_iff_eq.2 he, List.mem_cons, or_iff_left hnot, hcons]
      exact Option.some_inj
    · have hcons : (scope, i) ≠ e := fun h => he (congrArg Prod.fst h)
      rw [get?, List.lookup_cons, beq_eq_false_iff_ne.2 he, List.mem_cons, or_iff_right hcons]
      exact ih hd

namespace Chart

variable {c : Chart} {scope : Scope} {i : NodeId} {s : State}

def scopes (c : Chart) : List Scope :=
  .top :: ((c.states.filter fun s => s.kind = .composite).map fun s => .composite s.id) ++
    c.regions.map fun r => .region r.owner r.index

def startIn (c : Chart) : Option NodeId → Option NodeId
  | none => some c.initial
  | some id => c.nested.get? id

def initialOf (c : Chart) (scope : Scope) : Option NodeId :=
  c.startIn scope.id?

def holds (c : Chart) (scope : Scope) (id : NodeId) : Bool :=
  c.states.any fun s => s.id = id && s.scope = scope

def StartsAt (c : Chart) (id : NodeId) : Prop :=
  ∃ s ∈ c.states, s.id = id ∧ c.initialOf s.scope = some id

instance (c : Chart) (id : NodeId) : Decidable (c.StartsAt id) :=
  inferInstanceAs (Decidable (∃ s ∈ c.states, s.id = id ∧ c.initialOf s.scope = some id))

def starts (c : Chart) : List (Option NodeId × NodeId) :=
  (none, c.initial) :: c.nested.map fun e => (some e.1, e.2)

theorem mem_scopes : scope ∈ c.scopes ↔ scope = .top ∨
    (∃ s ∈ c.states, s.kind = .composite ∧ scope = .composite s.id) ∨
      ∃ r ∈ c.regions, scope = .region r.owner r.index := by
  simp only [scopes, List.mem_append, List.mem_cons, List.mem_map, List.mem_filter,
    decide_eq_true_eq, or_assoc, and_assoc, @eq_comm _ scope]

theorem nodup_scopes_starts (hkeys : (c.nested.map Prod.fst).Nodup) :
    (c.starts.map Prod.fst).Nodup := by
  have hsome : (c.nested.map fun e => some e.1).Nodup := by
    simpa [Function.comp_def] using hkeys.map (Option.some_injective _)
  rw [Chart.starts, List.map_cons, List.map_map]
  exact List.nodup_cons.2 ⟨by simp, hsome⟩

theorem startsAt_iff (hd : (c.states.map State.id).Nodup) (hs : s ∈ c.states) :
    c.StartsAt s.id ↔ c.initialOf s.scope = some s.id := by
  constructor
  · rintro ⟨t, ht, hid, hstart⟩
    rwa [← List.inj_on_of_nodup_map hd ht hs hid, hid]
  · exact fun h => ⟨s, hs, rfl, h⟩

theorem startIn_eq_some_iff (hd : (c.nested.map Prod.fst).Nodup) {x : Option NodeId} :
    c.startIn x = some i ↔ (x, i) ∈ c.starts := by
  cases x with
  | none => simp [startIn, starts, eq_comm]
  | some id => simp [startIn, starts, Initials.get?_eq_some_iff hd]

namespace WellFormed

theorem id_region (h : c.WellFormed) {r : Region} (hr : r ∈ c.regions) :
    (Scope.region r.owner r.index).id? = some r.id := by
  rw [(h.owners r hr).1]
  rfl

theorem scope_mem (h : c.WellFormed) (hs : s ∈ c.states) : s.scope ∈ c.scopes := by
  rw [mem_scopes]
  cases hp : s.parent with
  | none => exact .inl (scope_eq_top.2 hp)
  | some p =>
    obtain ⟨t, ht, rfl, ⟨hk, hr⟩ | ⟨hk, k, hr, hlt⟩⟩ := h.parents s hs p hp
    · exact .inr (.inl ⟨t, ht, hk, scope_eq_composite.2 ⟨hp, hr⟩⟩)
    · obtain ⟨n, -, hn⟩ := h.indices t ht hk
      have hlen := congrArg List.length hn
      rw [List.length_map, List.length_range, ← List.countP_eq_length_filter] at hlen
      have hmem : k ∈ (c.regions.filter fun r => r.owner = t.id).map Region.index := by
        rw [hn, List.mem_range]
        omega
      obtain ⟨r, hr', rfl⟩ := List.mem_map.1 hmem
      obtain ⟨hr', hown⟩ := List.mem_filter.1 hr'
      have hown : r.owner = t.id := by simpa using hown
      exact .inr (.inr ⟨r, hr', scope_eq_region.2 ⟨hown ▸ hp, hr⟩⟩)

theorem scope_inj (h : c.WellFormed) {a b : Scope} (ha : a ∈ c.scopes) (hb : b ∈ c.scopes)
    (hid : a.id? = b.id?) : a = b := by
  rcases mem_scopes.1 ha with rfl | ⟨s, hs, -, rfl⟩ | ⟨r, hr, rfl⟩
  · rcases mem_scopes.1 hb with rfl | ⟨t, -, -, rfl⟩ | ⟨q, -, rfl⟩
    · rfl
    · cases hid
    · cases hid
  · rcases mem_scopes.1 hb with rfl | ⟨t, -, -, rfl⟩ | ⟨q, hq, rfl⟩
    · cases hid
    · exact congrArg Scope.composite (Option.some.inj hid)
    · rw [h.id_region hq] at hid
      exact absurd (Option.some.inj hid).symm (h.apart q hq s hs)
  · rcases mem_scopes.1 hb with rfl | ⟨t, ht, -, rfl⟩ | ⟨q, -, rfl⟩
    · cases hid
    · rw [h.id_region hr] at hid
      exact absurd (Option.some.inj hid) (h.apart r hr t ht)
    · obtain ⟨hown, hidx⟩ := regionId_inj.1 (Option.some.inj hid)
      rw [hown, hidx]

theorem scope_of_start (h : c.WellFormed) {e : Option NodeId × NodeId} (he : e ∈ c.starts) :
    ∃ u ∈ c.states, u.id = e.2 ∧ u.scope.id? = e.1 := by
  rcases List.mem_cons.1 he with rfl | he
  · obtain ⟨s, hs, hid, hp⟩ := h.initial
    exact ⟨s, hs, hid, by rw [scope_eq_top.2 hp]; rfl⟩
  · obtain ⟨x, hx, rfl⟩ := List.mem_map.1 he
    obtain ⟨u, hu, hid, -, ⟨s, -, hsid, -, hscope⟩ | ⟨r, hr, hrid, hscope⟩⟩ := h.targets x hx
    · exact ⟨u, hu, hid, by rw [hscope, ← hsid]; rfl⟩
    · exact ⟨u, hu, hid, by rw [hscope, h.id_region hr, hrid]⟩

theorem exists_initial (h : c.WellFormed) (hscope : scope ∈ c.scopes)
    (hi : c.initialOf scope = some i) : ∃ s ∈ c.states, s.id = i ∧ s.scope = scope := by
  obtain ⟨u, hu, hid, hsame⟩ := h.scope_of_start ((startIn_eq_some_iff h.once).1 hi)
  exact ⟨u, hu, hid, h.scope_inj (h.scope_mem hu) hscope hsame⟩

theorem starts_and_holds (h : c.WellFormed) (hscope : scope ∈ c.scopes) (x : NodeId) :
    c.StartsAt x ∧ c.holds scope x ↔ c.initialOf scope = some x := by
  have hholds : c.holds scope x ↔ ∃ s ∈ c.states, s.id = x ∧ s.scope = scope := by
    simp [holds]
  rw [hholds]
  constructor
  · rintro ⟨hstart, s, hs, rfl, rfl⟩
    exact (startsAt_iff h.distinct hs).1 hstart
  · intro hi
    obtain ⟨s, hs, rfl, rfl⟩ := h.exists_initial hscope hi
    exact ⟨⟨s, hs, rfl, hi⟩, s, hs, rfl, rfl⟩

theorem startsAt_iff_mem (h : c.WellFormed) {x : NodeId} :
    c.StartsAt x ↔ x ∈ c.starts.map Prod.snd := by
  constructor
  · rintro ⟨s, -, -, hstart⟩
    exact List.mem_map_of_mem ((startIn_eq_some_iff h.once).1 hstart)
  · intro hx
    obtain ⟨e, he, rfl⟩ := List.mem_map.1 hx
    obtain ⟨u, hu, hid, hscope⟩ := h.scope_of_start he
    exact ⟨u, hu, hid, (startIn_eq_some_iff h.once).2 (hscope ▸ he)⟩

theorem nodup_starts (h : c.WellFormed) : (c.starts.map Prod.snd).Nodup := by
  have hkeys : (c.starts.map Prod.fst).Nodup := by
    have hsome : (c.nested.map fun e => some e.1).Nodup := by
      simpa [Function.comp_def] using h.once.map (Option.some_injective _)
    rw [starts, List.map_cons, List.map_map]
    exact List.nodup_cons.2 ⟨by simp, hsome⟩
  refine (List.Nodup.of_map _ hkeys).map_on fun e he d hd heq => ?_
  obtain ⟨u, hu, huid, huscope⟩ := h.scope_of_start he
  obtain ⟨v, hv, hvid, hvscope⟩ := h.scope_of_start hd
  obtain rfl : u = v := List.inj_on_of_nodup_map h.distinct hu hv (huid.trans (heq.trans hvid.symm))
  exact Prod.ext (huscope.symm.trans hvscope) heq

theorem initialOf_eq_none_iff (h : c.WellFormed) (hscope : scope ∈ c.scopes) :
    c.initialOf scope = none ↔ ∃ s ∈ c.states, s.kind = .composite ∧ scope = .composite s.id ∧
      ∀ u ∈ c.states, u.parent = some s.id → u.kind = .history := by
  have hkey : ∀ x, c.nested.get? x = none ↔ x ∉ c.nested.map Prod.fst := by
    intro x
    rw [Initials.get?, List.lookup_eq_none_iff, List.mem_map, not_exists]
    simp [@eq_comm _ x]
  rcases mem_scopes.1 hscope with rfl | ⟨s, hs, hk, rfl⟩ | ⟨r, hr, rfl⟩
  · constructor
    · intro hn
      cases hn
    · rintro ⟨s, -, -, hs, -⟩
      cases hs
  · have hregion : ¬∃ r ∈ c.regions, r.id = s.id := by
      rintro ⟨r, hr, hid⟩
      exact h.apart r hr s hs hid
    have hnone : c.initialOf (.composite s.id) = c.nested.get? s.id := rfl
    rw [hnone, hkey, h.scopes, or_iff_right hregion]
    constructor
    · intro hn
      refine ⟨s, hs, hk, rfl, fun u hu hp => ?_⟩
      by_contra hkind
      exact hn ⟨s, hs, rfl, hk, u, hu, hp, hkind⟩
    · rintro ⟨t, ht, -, hst, hall⟩ ⟨-, -, -, -, u, hu, hp, hkind⟩
      exact hkind (hall u hu (by rw [hp, Scope.composite.inj hst]))
  · constructor
    · intro hn
      rw [initialOf, h.id_region hr] at hn
      exact absurd ((h.scopes r.id).2 (.inl ⟨r, hr, rfl⟩)) ((hkey r.id).1 hn)
    · rintro ⟨s, -, -, hs, -⟩
      cases hs

end WellFormed

end Chart

end Statechart
