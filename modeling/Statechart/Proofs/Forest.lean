import Mathlib
import Statechart.Proofs.Tree

namespace Statechart.Nesting

variable {ss : List State} {rs : List RegionSlot} {m : Initials} {s t : State} {depth : Nat}

/-- Flat states whose way up ends at the top level, and that lie in a region where they have to. -/
structure Nestable (ss : List State) (rs : List RegionSlot) : Prop extends Rooted ss where
  slots : ∀ s ∈ ss, ∀ t ∈ ss, t.kind = .concurrent → s.parent = some t.id →
    ∃ r ∈ rs, r.owner = t.id ∧ s.region = some r.index

/-- What is directly below a node: the children of its state, or its regions by index, and in each
region the children of that index. -/
def Laid (ss : List State) (rs : List RegionSlot) (m : Initials) : Node → Prop
  | .simple _ _ | .history _ _ | .region _ _ _ _ => True
  | .composite id _ initial ns =>
    initial = m.get? id ∧ List.Forall₂ StandsFor (ss.filter fun s => s.parent = some id) ns
  | .concurrent id _ ns => ∃ qs : List RegionSlot,
    qs.Perm (rs.filter fun r => r.owner = id) ∧ qs.Pairwise (fun q r => q.index < r.index) ∧
      List.Forall₂ (RegionNode ss m StandsFor id) qs ns

structure Laden (ss : List State) (rs : List RegionSlot) (m : Initials) (roots : List Node) :
    Prop where
  once : (Node.idsOf roots).Perm (ss.map State.id)
  top : List.Forall₂ StandsFor (ss.filter fun s => s.parent.isNone) roots
  within : ∀ p ∈ Node.partsOf roots, Laid ss rs m p

theorem nodup_indices (hslots : (rs.map fun r => (r.owner, r.index)).Nodup) (owner : NodeId) :
    ((rs.filter fun r => r.owner = owner).map RegionSlot.index).Nodup := by
  refine List.Nodup.map_on (fun q hq r hr hi => ?_) ((List.Nodup.of_map _ hslots).filter _)
  obtain ⟨hq, hqo⟩ := List.mem_filter.1 hq
  obtain ⟨hr, hro⟩ := List.mem_filter.1 hr
  have howner : q.owner = r.owner := by
    rw [of_decide_eq_true hqo, of_decide_eq_true hro]
  exact List.inj_on_of_nodup_map hslots hq hr (Prod.ext howner hi)

theorem Nestable.treelike (h : Nestable ss rs)
    (hslots : (rs.map fun r => (r.owner, r.index)).Nodup) : Treelike ss rs :=
  ⟨h.distinct, h.parents, h.ranked, h.slots, fun t _ _ => nodup_indices hslots t.id⟩

section Checks

theorem endsWithin_of_upward (hd : (ss.map State.id).Nodup) {n : Nat} (h : endsWithin ss n s)
    (hup : Upward ss s t) : ∃ k < n, endsWithin ss k t := by
  obtain ⟨-, ht, hp⟩ := hup
  unfold endsWithin at h
  simp only [hp] at h
  cases n with
  | zero => cases h
  | succ k =>
    simp only [find?_of_mem hd ht] at h
    exact ⟨k, k.lt_succ_self, h⟩

theorem endsWithin_of_transGen (hd : (ss.map State.id).Nodup) {n : Nat} (h : endsWithin ss n s)
    (hup : Relation.TransGen (Upward ss) s t) : ∃ k < n, endsWithin ss k t := by
  induction hup with
  | single hup => exact endsWithin_of_upward hd h hup
  | tail _ hup ih =>
    obtain ⟨k, hk, h⟩ := ih
    obtain ⟨j, hj, h⟩ := endsWithin_of_upward hd h hup
    exact ⟨j, hj.trans hk, h⟩

theorem not_transGen_self (hd : (ss.map State.id).Nodup) {n : Nat} (h : endsWithin ss n s) :
    ¬ Relation.TransGen (Upward ss) s s := by
  intro hcycle
  induction n using Nat.strong_induction_on with
  | _ n ih =>
    -- once around, fewer steps are left
    obtain ⟨k, hk, h⟩ := endsWithin_of_transGen hd h hcycle
    exact ih k hk h

theorem exists_parent (h : checkParent ss s = .ok ()) {p : NodeId} (hp : s.parent = some p) :
    ∃ t ∈ ss, t.id = p ∧ t.kind.nests := by
  unfold checkParent at h
  simp only [hp] at h
  cases hf : find? ss p with
  | none => simp only [hf, reduceCtorEq] at h
  | some t =>
    refine ⟨t, List.mem_of_find?_eq_some hf, by simpa using List.find?_some hf, ?_⟩
    by_contra hn
    simp [hf, hn] at h

theorem mem_of_transGen (h : Relation.TransGen (Upward ss) s t) : s ∈ ss := by
  obtain ⟨u, hup, -⟩ := Relation.TransGen.head'_iff.1 h
  exact hup.1

theorem forest_eq_ok {roots : List Node} : forest ss rs m = .ok roots ↔ Rooted ss ∧
    (ss.filter fun s => s.parent.isNone).mapM (nodeOf ss rs m ss.length) = .ok roots := by
  constructor
  · intro h
    unfold forest at h
    split at h
    · cases h
    · rename_i hfirst
      obtain ⟨_, hparents, h⟩ := bind_ok.1 h
      obtain ⟨_, hdescent, h⟩ := bind_ok.1 h
      have hd := (firstRepeat_eq_none.1 hfirst).1
      refine ⟨⟨hd, fun s hs p => exists_parent (forM_ok.1 hparents s hs), fun s hcycle => ?_⟩, h⟩
      have hends := forM_ok.1 hdescent s (mem_of_transGen hcycle)
      unfold checkDescent at hends
      split at hends
      · exact not_transGen_self hd ‹_› hcycle
      · cases hends
  · rintro ⟨hr, h⟩
    rwa [forest_eq hr]

end Checks

section Levels

theorem nodeOf_add {r : State → Nat} (hr : Ranked ss r) (k : Nat) (hs : s ∈ ss)
    (hd : ss.length ≤ r s + depth) :
    nodeOf ss rs m (depth + k) s = nodeOf ss rs m depth s := by
  induction depth generalizing s with
  | zero =>
    have hlt := hr.bounded s hs
    omega
  | succ d ih =>
    have hchildren : ∀ t ∈ childrenOf ss s.id,
        nodeOf ss rs m (d + k) t = nodeOf ss rs m d t := by
      intro t ht
      obtain ⟨ht, hp⟩ := mem_childrenOf.1 ht
      have hlt := hr.lower t ht s hs hp
      exact ih ht (by omega)
    have hslots : ∀ q, nodeOfSlot (childrenOf ss s.id) m (nodeOf ss rs m (d + k)) q =
        nodeOfSlot (childrenOf ss s.id) m (nodeOf ss rs m d) q := by
      intro q
      unfold nodeOfSlot
      rw [mapM_congr fun t ht => hchildren t (List.mem_of_mem_filter ht)]
    rw [Nat.add_right_comm]
    unfold nodeOf
    cases s.kind with
    | simple | history => rfl
    | composite => simp only [mapM_congr hchildren]
    | concurrent => simp only [mapM_congr fun q _ => hslots q]

end Levels

section Slots

theorem isStray_eq_false {qs : List RegionSlot} :
    isStray qs t = false ↔ ∃ q ∈ qs, t.region = some q.index := by
  unfold isStray
  cases t.region with
  | none => simp
  | some index => simp [@eq_comm _ index]

theorem exists_slot_of_nodeOf {n : Node} (h : nodeOf ss rs m depth s = .ok n)
    (hk : s.kind = .concurrent) (ht : t ∈ childrenOf ss s.id) :
    ∃ q ∈ slotsOf rs s.id, t.region = some q.index := by
  obtain ⟨k, ns, -, hstray, -, -⟩ := (nodeOf_concurrent hk).1 h
  exact isStray_eq_false.1 (by simpa using List.find?_eq_none.1 hstray t ht)

theorem exists_nodeOf_child {n : Node} (h : nodeOf ss rs m depth s = .ok n)
    (hk : s.kind.nests) (ht : t ∈ childrenOf ss s.id) :
    ∃ d n', nodeOf ss rs m d t = .ok n' := by
  cases hc : s.kind with
  | simple | history => simp [hc, StateKind.nests] at hk
  | composite =>
    obtain ⟨k, ns, -, hns, -⟩ := (nodeOf_composite hc).1 h
    obtain ⟨n', -, hn'⟩ := mem_left_of_forall₂ (mapM_ok.1 hns) t ht
    exact ⟨k, n', hn'⟩
  | concurrent =>
    obtain ⟨q, hq, hregion⟩ := exists_slot_of_nodeOf h hc ht
    obtain ⟨k, ns, -, -, hns, -⟩ := (nodeOf_concurrent hc).1 h
    obtain ⟨n', -, hn'⟩ := mem_left_of_forall₂ (mapM_ok.1 hns) q hq
    obtain ⟨cs, hcs, -⟩ := bind_ok.1 hn'
    have hmem : t ∈ (childrenOf ss s.id).filter fun t => t.region = some q.index :=
      List.mem_filter.2 ⟨ht, by simpa using hregion⟩
    obtain ⟨c, -, hc⟩ := mem_left_of_forall₂ (mapM_ok.1 hcs) t hmem
    exact ⟨k, c, hc⟩

theorem exists_nodeOf_of_encloses (hr : Rooted ss) {n : Node}
    (h : nodeOf ss rs m depth s = .ok n) (he : Encloses ss s t) :
    ∃ d n', nodeOf ss rs m d t = .ok n' := by
  induction he using Relation.ReflTransGen.head_induction_on with
  | refl => exact ⟨depth, n, h⟩
  | @head t u hup _ ih =>
    obtain ⟨ht, hu, hp⟩ := hup
    obtain ⟨d, n', hn'⟩ := ih
    obtain ⟨v, hv, hid, hnests⟩ := hr.parents t ht u.id hp
    obtain rfl := List.inj_on_of_nodup_map hr.distinct hv hu hid
    exact exists_nodeOf_child hn' hnests (mem_childrenOf.2 ⟨ht, hp⟩)

theorem nestable_of_forest {roots : List Node} (h : forest ss rs m = .ok roots) :
    Nestable ss rs := by
  obtain ⟨hr, h⟩ := forest_eq_ok.1 h
  refine ⟨hr, fun s hs t ht hk hp => ?_⟩
  obtain ⟨r, hrank⟩ := hr.ranked
  obtain ⟨root, hroot, htop, he⟩ := exists_root hr hrank ht
  have hmem : root ∈ ss.filter fun s => s.parent.isNone :=
    List.mem_filter.2 ⟨hroot, by simp [htop]⟩
  obtain ⟨n, -, hn⟩ := mem_left_of_forall₂ (mapM_ok.1 h) root hmem
  obtain ⟨d, n', hn'⟩ := exists_nodeOf_of_encloses hr hn he
  obtain ⟨q, hq, hregion⟩ := exists_slot_of_nodeOf hn' hk (mem_childrenOf.2 ⟨hs, hp⟩)
  obtain ⟨hq, howner⟩ := List.mem_filter.1 ((slotsOf_perm rs t.id).mem_iff.1 hq)
  exact ⟨q, hq, by simpa using howner, hregion⟩

end Slots

section Order

theorem pairwise_slotsOf {owner : NodeId}
    (h : ((rs.filter fun r => r.owner = owner).map RegionSlot.index).Nodup) :
    (slotsOf rs owner).Pairwise fun q r => q.index < r.index := by
  have hsorted : (slotsOf rs owner).Pairwise fun q r => q.index ≤ r.index := by
    rw [slotsOf_eq_insertionSort]
    exact List.pairwise_insertionSort ..
  have hnodup := ((slotsOf_perm rs owner).map RegionSlot.index).nodup_iff.2 h
  exact hsorted.imp₂ (fun _ _ => lt_of_le_of_ne) (List.pairwise_map.1 hnodup)

theorem local_laid (hslots : (rs.map fun r => (r.owner, r.index)).Nodup) :
    Local ss rs m (Laid ss rs m) where
  simple _ _ _ := trivial
  history _ _ _ := trivial
  composite _ _ _ _ hns := ⟨rfl, hns⟩
  concurrent s _ _ _ hns :=
    ⟨slotsOf rs s.id, slotsOf_perm rs s.id, pairwise_slotsOf (nodup_indices hslots s.id), hns⟩
  region _ _ _ _ := trivial

theorem laden_of_forest (hslots : (rs.map fun r => (r.owner, r.index)).Nodup) {roots : List Node}
    (h : forest ss rs m = .ok roots) : Laden ss rs m roots := by
  obtain ⟨roots', hok, hperm⟩ := forest_ok ((nestable_of_forest h).treelike hslots) m
  obtain rfl := Except.ok.inj (hok.symm.trans h)
  obtain ⟨htop, hwithin⟩ := (local_laid hslots).forest h
  exact ⟨hperm, htop, hwithin⟩

end Order

theorem forest_outcome (ss : List State) (rs : List RegionSlot)
    (hslots : (rs.map fun r => (r.owner, r.index)).Nodup) (m : Initials) :
    ((∃ roots, forest ss rs m = .ok roots) ↔ Nestable ss rs) ∧
      (∀ roots, forest ss rs m = .ok roots → Laden ss rs m roots) ∧
      (Rooted ss → ∀ s ∈ ss, ∀ k,
        nodeOf ss rs m (ss.length + k) s = nodeOf ss rs m ss.length s) := by
  refine ⟨⟨?_, fun h => ?_⟩, fun _ => laden_of_forest hslots, fun h s hs k => ?_⟩
  · rintro ⟨roots, h⟩
    exact nestable_of_forest h
  · obtain ⟨roots, hok, -⟩ := forest_ok (h.treelike hslots) m
    exact ⟨roots, hok⟩
  · obtain ⟨r, hr⟩ := h.ranked
    exact nodeOf_add hr k hs (by omega)

namespace Sample.Lamp

def states : List State :=
  [⟨"On", ⟨"Lamp/region2/On"⟩, some ⟨"Lamp"⟩, some 1, .simple, none, 1⟩,
    ⟨"Lamp", ⟨"Lamp"⟩, none, none, .concurrent, none, 2⟩,
    ⟨"Off", ⟨"Lamp/region1/Off"⟩, some ⟨"Lamp"⟩, some 0, .simple, none, 3⟩,
    ⟨"Room", ⟨"Room"⟩, none, none, .composite, none, 4⟩]

def slots : List RegionSlot :=
  [⟨⟨"Lamp"⟩, 1, ⟨"Lamp/region2"⟩⟩, ⟨⟨"Lamp"⟩, 0, ⟨"Lamp/region1"⟩⟩]

def trees : List Node :=
  [.concurrent ⟨"Lamp"⟩ "Lamp"
      [.region ⟨"Lamp/region1"⟩ "region1" none [.simple ⟨"Lamp/region1/Off"⟩ "Off"],
        .region ⟨"Lamp/region2"⟩ "region2" none [.simple ⟨"Lamp/region2/On"⟩ "On"]],
    .composite ⟨"Room"⟩ "Room" none []]

theorem forest_lamp : (slots.map fun r => (r.owner, r.index)).Nodup ∧
    forest states slots [] = .ok trees ∧ Nestable states slots ∧ Laden states slots [] trees := by
  have hslots : (slots.map fun r => (r.owner, r.index)).Nodup := by decide
  have htrees : forest states slots [] = .ok trees := by rfl
  obtain ⟨hok, hladen, -⟩ := forest_outcome states slots hslots []
  exact ⟨hslots, htrees, hok.1 ⟨trees, htrees⟩, hladen trees htrees⟩

end Sample.Lamp

end Statechart.Nesting
