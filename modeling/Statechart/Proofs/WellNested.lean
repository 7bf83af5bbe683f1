import Mathlib
import Statechart.Chart.Parse
import Statechart.Proofs.Place

namespace Statechart

def State.scope (s : State) : Scope :=
  match s.parent, s.region with
  | none, _ => .top
  | some p, none => .composite p
  | some p, some k => .region p k

theorem scope_eq_composite {s : State} {p : NodeId} :
    s.scope = .composite p ↔ s.parent = some p ∧ s.region = none := by
  unfold State.scope
  split <;> simp_all

theorem scope_eq_region {s : State} {p : NodeId} {k : Nat} :
    s.scope = .region p k ↔ s.parent = some p ∧ s.region = some k := by
  unfold State.scope
  split <;> simp_all

theorem scope_eq_top {s : State} : s.scope = .top ↔ s.parent = none := by
  unfold State.scope
  split <;> simp_all

structure WellNested (ss : List State) (slots : List RegionSlot) : Prop where
  distinct : (ss.map State.id).Nodup
  segment : ∀ s ∈ ss, IsSegment s.name
  qualified : ∀ s ∈ ss, s.id = .child s.scope.id? s.name
  top : ∀ s ∈ ss, s.parent = none → s.region = none
  composite : ∀ s ∈ ss, ∀ p, s.scope = .composite p → ∃ t ∈ ss, t.id = p ∧ t.kind = .composite
  region : ∀ s ∈ ss, ∀ p k, s.scope = .region p k → ∃ r ∈ slots, r.owner = p ∧ r.index = k
  owner : ∀ r ∈ slots, r.id = regionId r.owner r.index ∧
    ∃ t ∈ ss, t.id = r.owner ∧ t.kind = .concurrent
  indices : ∀ t ∈ ss, t.kind = .concurrent →
    ∃ n, 2 ≤ n ∧ (slots.filter fun r => r.owner = t.id).map RegionSlot.index = List.range n

namespace Place

theorem id?_scope (p : Place) : p.scope.id? = p.id? := by
  cases p with
  | nil => rfl
  | cons x p => cases x <;> rfl

end Place

theorem Binding.scope_toState (e : Binding) : e.toState.scope = e.place.scope := by
  cases hp : e.place with
  | nil => simp [State.scope, toState, hp, Place.owner?, Place.scope]
  | cons x p =>
    cases x <;> simp [State.scope, toState, hp, Place.owner?, Place.region?, Place.scope]

theorem Binding.id_toState (e : Binding) : e.toState.id = .child e.place.id? e.name := rfl

theorem names_of_key? {x : Entry} {k : Place × String} (h : x.key? = some k) :
    x.place = k.1 ∧ k.2 ∈ x.names := by
  cases x with
  | clause p c =>
    cases hi : c.item with
    | declare | initial =>
      obtain rfl : _ = k := by simpa [Entry.key?, hi] using h
      simp [Entry.place, Entry.names, Clause.names, hi]
    | final | transition | description | note => simp [Entry.key?, hi] at h
  | head p o kind =>
    cases h
    simp [Entry.place, Entry.names]
  | region => cases h

theorem coherent_ofBlock {b : Block} {r : Registry} (hw : BlockTree.WellNamed b)
    (hr : Registered (entriesOf [] b) r) : Coherent (entriesOf [] b) := by
  refine ⟨open_of_mem, hw [], fun p name => ?_⟩
  by_cases hk : (p, name) ∈ r.bindings.map Binding.key
  · obtain ⟨e, he, hek⟩ := List.mem_map.1 hk
    obtain ⟨rfl, rfl⟩ := Prod.mk.inj hek
    rw [hr.declared.kinds e he]
    split <;> simp
  · rw [kindsAt_of_notMem fun hm => hk ((hr.declared.mem_keys _).2 hm)]
    simp

namespace Charted

variable {es : List Entry} {bs : List Binding} {b : Block}

theorem perm {bs' : List Binding} (h : Charted es bs) (hp : bs'.Perm bs) : Charted es bs' := by
  have hkeys := hp.map Binding.key
  refine ⟨hkeys.nodup_iff.2 h.keys, fun k hk => hkeys.mem_iff.2 (h.declared k hk), ?_, ?_, ?_⟩
  · exact fun e he => h.origin e (hp.mem_iff.1 he)
  · exact fun e he => h.kinds e (hp.mem_iff.1 he)
  · exact fun e he => h.leaf e (hp.mem_iff.1 he)

theorem place_and_name (h : Charted es bs) (hc : Coherent es) {e : Binding} (he : e ∈ bs) :
    Open es e.place ∧ IsName e.name := by
  rcases h.origin e he with hk | ⟨-, c, hm, hn⟩
  · obtain ⟨x, hx, hxk⟩ := List.mem_filterMap.1 hk
    obtain ⟨hp, hn⟩ := names_of_key? hxk
    have hopen := hc.opened x hx
    rw [hp] at hopen
    exact ⟨hopen, hc.names x hx _ hn⟩
  · refine ⟨hc.opened _ hm, hc.names _ hm _ ?_⟩
    cases hi : c.item <;> simp_all [Resolution.reads, Entry.names, Clause.names]

theorem distinct (h : Charted es bs) (hc : Coherent es) :
    ((bs.map Binding.toState).map State.id).Nodup := by
  rw [List.map_map]
  refine List.Nodup.map_on (fun d hd e he hid => ?_) (List.Nodup.of_map _ h.keys)
  obtain ⟨hdp, hdn⟩ := h.place_and_name hc hd
  obtain ⟨hep, hen⟩ := h.place_and_name hc he
  have hkey := (hc.child_eq hdp hep hdn hen).1 hid
  exact List.inj_on_of_nodup_map h.keys hd he (Prod.ext hkey.1 hkey.2)

theorem exists_owner (h : Charted es bs) {p : Place} {o : Located Opening} {kind : StateKind}
    (ho : .head p o kind ∈ es) :
    ∃ t ∈ bs.map Binding.toState, t.id = .child p.id? o.item.name ∧ t.kind = kind := by
  obtain ⟨e, he, hk⟩ := List.mem_map.1 (h.declared _ (List.mem_filterMap.2 ⟨_, ho, rfl⟩))
  obtain ⟨hp, hn⟩ := Prod.mk.inj hk
  refine ⟨e.toState, List.mem_map_of_mem he, by rw [Binding.id_toState, hp, hn], ?_⟩
  have hmem : kind ∈ kindsAt e.place e.name es :=
    List.mem_filterMap.2 ⟨_, ho, by simp [hp, hn]⟩
  rw [h.kinds e he] at hmem
  split at hmem
  · exact (List.mem_singleton.1 hmem).symm
  · cases hmem

theorem slot?_eq_some {x : Entry} {r : RegionSlot} (h : x.slot? = some r) :
    ∃ p name, x = .region p name r.index ∧ r.owner = .child p.id? name ∧
      r.id = regionId r.owner r.index := by
  cases x with
  | region p name k =>
    cases h
    exact ⟨p, name, rfl, rfl, rfl⟩
  | clause | head => cases h

theorem indices (h : Charted (entriesOf [] b) bs) (hc : Coherent (entriesOf [] b)) {e : Binding}
    (he : e ∈ bs) :
    (((entriesOf [] b).filterMap Entry.slot?).filter fun r => r.owner = e.id).map
      RegionSlot.index = indicesAt e.place e.name (entriesOf [] b) := by
  rw [List.filter_filterMap, List.map_filterMap, indicesAt]
  refine List.filterMap_congr fun x hx => ?_
  cases x with
  | region p name k =>
    obtain ⟨o, ho, rfl⟩ := head_of_region_mem hx
    obtain ⟨hep, hen⟩ := h.place_and_name hc he
    have hiff : NodeId.child p.id? o.item.name = e.id ↔ p = e.place ∧ o.item.name = e.name :=
      hc.child_eq (hc.opened _ ho) hep (hc.names _ ho _ (by simp [Entry.names])) hen
    by_cases hid : NodeId.child p.id? o.item.name = e.id
    · simp [Entry.slot?, hiff.1 hid, Binding.id]
    · simp [Entry.slot?, hid, hiff.not.1 hid]
  | clause | head => rfl

theorem wellNested (h : Charted (entriesOf [] b) bs) (hc : Coherent (entriesOf [] b)) :
    WellNested (bs.map Binding.toState) ((entriesOf [] b).filterMap Entry.slot?) := by
  have hforall : ∀ P : State → Prop, (∀ e ∈ bs, P e.toState) →
      ∀ s ∈ bs.map Binding.toState, P s := by
    intro P hP s hs
    obtain ⟨e, he, rfl⟩ := List.mem_map.1 hs
    exact hP e he
  constructor
  case distinct => exact h.distinct hc
  case segment => exact hforall _ fun e he => (h.place_and_name hc he).2.isSegment
  case qualified =>
    refine hforall _ fun e _ => ?_
    rw [Binding.scope_toState, Place.id?_scope, Binding.id_toState]
    rfl
  case top =>
    refine hforall _ fun e _ hp => ?_
    cases hq : e.place with
    | nil => simp [Binding.toState, hq, Place.region?]
    | cons x q => cases x <;> simp [Binding.toState, hq, Place.owner?] at hp
  case composite =>
    refine hforall _ fun e he p hp => ?_
    rw [Binding.scope_toState] at hp
    have hopen := (h.place_and_name hc he).1
    generalize e.place = q at hp hopen
    cases hopen with
    | top => cases hp
    | body ho _ =>
      cases hp
      exact h.exists_owner ho
    | region _ _ _ => cases hp
  case region =>
    refine hforall _ fun e he p k hp => ?_
    rw [Binding.scope_toState] at hp
    have hopen := (h.place_and_name hc he).1
    generalize e.place = q at hp hopen
    cases hopen with
    | top => cases hp
    | body _ _ => cases hp
    | region _ hr _ =>
      cases hp
      exact ⟨_, List.mem_filterMap.2 ⟨_, hr, rfl⟩, rfl, rfl⟩
  case owner =>
    intro r hr
    obtain ⟨x, hx, hxr⟩ := List.mem_filterMap.1 hr
    obtain ⟨p, name, rfl, hown, hid⟩ := slot?_eq_some hxr
    obtain ⟨o, ho, rfl⟩ := head_of_region_mem hx
    exact ⟨hid, hown ▸ h.exists_owner ho⟩
  case indices =>
    refine hforall _ fun e he hk => ?_
    have hkinds : kindsAt e.place e.name (entriesOf [] b) = [.concurrent] := by
      rw [h.kinds e he, show e.kind = .concurrent from hk]
      rfl
    obtain ⟨n, hn, hi⟩ := indicesAt_of_kindsAt hkinds
    exact ⟨n, hn, (h.indices hc he).trans hi⟩

end Charted

end Statechart
