import Mathlib
import Statechart.Proofs.Config
import Statechart.Proofs.Graph

namespace Statechart

def Chart.clusterIds (c : Chart) : List NodeId :=
  (c.states.filter fun s => s.kind.nests).map State.id ++ c.regions.map Region.id

/-- The states and regions that an id lies inside, outermost first. -/
structure Chart.Surrounds (c : Chart) (ids : List NodeId) (a : NodeId) : Prop where
  members : ∀ x, x ∈ ids ↔ x ∈ c.clusterIds ∧ a.inside x
  inward : ids.Pairwise fun x y => y.inside x

namespace Dot

section Places

variable {c : Chart} {style : Style}

mutual

def places (around : List String) : Node → List Placed
  | .simple id _ | .history id _ => [⟨around, .node id.path⟩]
  | .composite id _ _ ns | .concurrent id _ ns =>
    ⟨around, .cluster (clusterId id)⟩ :: ⟨around ++ [clusterId id], .node id.path⟩ ::
      placesOf (around ++ [clusterId id]) ns
  | .region id _ _ ns => ⟨around, .cluster (clusterId id)⟩ :: placesOf (around ++ [clusterId id]) ns

def placesOf (around : List String) : List Node → List Placed
  | [] => []
  | n :: ns => places around n ++ placesOf around ns

end

def saidBy (rs : List Row) : List Said :=
  rs.map fun r => r.statement.said

theorem placed_close (around : List String) (name : String) (ss : List Said) :
    placed (around ++ [name]) (.close :: ss) = placed around ss := by
  rw [placed, if_neg (by simp), List.dropLast_concat]

theorem saidBy_append (rs rs' : List Row) : saidBy (rs ++ rs') = saidBy rs ++ saidBy rs' :=
  List.map_append

theorem saidBy_clusterHead (depth : Nat) (id : NodeId) (ls : List String) :
    saidBy (clusterHead depth id ls) =
      [.cluster (clusterId id), .other, .other, .node id.path] := rfl

theorem saidBy_regionHead (depth : Nat) (id : NodeId) :
    saidBy (regionHead depth id) = [.cluster (clusterId id), .other, .other] := rfl

mutual

theorem placed_nodeRows (depth : Nat) (ss : List Said) : ∀ (n : Node) (around : List String),
    placed around (saidBy (nodeRows c style depth n) ++ ss) =
      (placed around ss).map (places around n ++ ·)
  | .simple _ _, _ | .history _ _, _ => rfl
  | .composite _ _ _ ns, around | .concurrent _ _ ns, around => by
    simp only [nodeRows, saidBy_append, saidBy_clusterHead, List.append_assoc, List.cons_append,
      List.nil_append, placed, placed_nodesRows (depth + 1) _ ns]
    simp [saidBy, Statement.said, placed_close, places, Function.comp_def]
  | .region _ _ _ ns, around => by
    simp only [nodeRows, saidBy_append, saidBy_regionHead, List.append_assoc, List.cons_append,
      List.nil_append, placed, placed_nodesRows (depth + 1) _ ns]
    simp [saidBy, Statement.said, placed_close, places, Function.comp_def]

theorem placed_nodesRows (depth : Nat) (ss : List Said) : ∀ (ns : List Node) (around : List String),
    placed around (saidBy (nodesRows c style depth ns) ++ ss) =
      (placed around ss).map (placesOf around ns ++ ·)
  | [], _ => by simp [nodesRows, saidBy, placesOf]
  | n :: ns, around => by
    rw [nodesRows, saidBy_append, List.append_assoc, placed_nodeRows depth _ n around,
      placed_nodesRows depth ss ns around, Option.map_map]
    simp [placesOf, Function.comp_def]

end

def edgePlace (t : Transition) : Placed :=
  ⟨[], .edge t.source.path t.target.path⟩

theorem placed_edges (c : Chart) (ts : List Transition) :
    placed [] (saidBy (ts.map (edgeRow c) ++ [⟨0, .close⟩])) = some (ts.map edgePlace) := by
  induction ts with
  | nil => rfl
  | cons t ts ih =>
    show Option.map _ (placed [] (saidBy (ts.map (edgeRow c) ++ [⟨0, .close⟩]))) = _
    rw [ih]
    rfl

theorem readGraph_layout (c : Chart) (style : Style) : readGraph (layout c style) =
    some (style.title, placesOf [] c.roots ++ c.transitions.map edgePlace) := by
  have hrows : saidBy (rows c style) = .graph style.title :: .other :: .other ::
      .other :: .other :: (saidBy (nodesRows c style 1 c.roots) ++
        saidBy (c.transitions.map (edgeRow c) ++ [⟨0, .close⟩])) := by
    rw [rows, List.append_assoc, List.append_assoc, saidBy_append, saidBy_append]
    rfl
  rw [readGraph, layout, map_said_textOf (legible_rows c style), ← saidBy, hrows]
  simp only [placed, placed_nodesRows, placed_edges, Option.map_some]

end Places

section Saids

def saids : Node → List Said
  | .simple id _ | .history id _ => [.node id.path]
  | .composite id _ _ _ | .concurrent id _ _ => [.cluster (clusterId id), .node id.path]
  | .region id _ _ _ => [.cluster (clusterId id)]

mutual

theorem map_said_places : ∀ (n : Node) (around : List String),
    (places around n).map Placed.said = n.parts.flatMap saids
  | .simple _ _, _ | .history _ _, _ => rfl
  | .composite _ _ _ ns, around | .concurrent _ _ ns, around | .region _ _ _ ns, around => by
    simp [places, Node.parts, saids, map_said_placesOf ns]

theorem map_said_placesOf : ∀ (ns : List Node) (around : List String),
    (placesOf around ns).map Placed.said = (Node.partsOf ns).flatMap saids
  | [], _ => rfl
  | n :: ns, around => by
    rw [placesOf, Node.partsOf, List.map_append, List.flatMap_append, map_said_places n,
      map_said_placesOf ns]

end

theorem clusterId_injective : Function.Injective clusterId := by
  intro a b h
  have hpath : a.path = b.path := by simpa [clusterId, ← String.toList_inj] using h
  rwa [NodeId.mk.injEq]

theorem mem_saids {n : Node} {d : Said} (h : d ∈ saids n) :
    d = .node n.id.path ∨ d = .cluster (clusterId n.id) := by
  cases n <;> simp [saids, Node.id] at h ⊢ <;> tauto

theorem node_mem_saids {n : Node} {k : StateKind} (h : n.kind? = some k) :
    .node n.id.path ∈ saids n := by
  cases n with
  | region => cases h
  | simple | history | composite | concurrent => simp [saids, Node.id]

theorem cluster_mem_saids {n : Node} {k : StateKind} (h : n.kind? = some k)
    (hk : k.nests = true) : .cluster (clusterId n.id) ∈ saids n := by
  cases n with
  | composite | concurrent => exact List.mem_cons_self
  | simple | history =>
    cases h
    cases hk
  | region => cases h

theorem disjoint_saids {n m : Node} (h : n.id ≠ m.id) : (saids n).Disjoint (saids m) := by
  have hpath : n.id.path ≠ m.id.path := fun hp => h ((NodeId.mk.injEq ..).symm ▸ hp)
  intro d hn hm
  rcases mem_saids hn with rfl | rfl <;> rcases mem_saids hm with he | he
  · exact hpath (Said.node.inj he)
  · cases he
  · cases he
  · exact h (clusterId_injective (Said.cluster.inj he))

theorem nodup_saids {ns : List Node} (h : (ns.map Node.id).Nodup) : (ns.flatMap saids).Nodup := by
  rw [List.nodup_flatMap]
  refine ⟨fun n _ => ?_, (List.pairwise_map.1 h).imp disjoint_saids⟩
  cases n <;> simp [saids]

end Saids

end Dot

namespace Chart

open Dot

variable {c : Chart} {f : FlatChart} {ids : List NodeId} {a : NodeId}

theorem Surrounds.child (h : c.Surrounds ids a) (ha : a ∈ c.clusterIds) {name : String}
    (hn : IsSegment name) : c.Surrounds (ids ++ [a]) (.child (some a) name) := by
  constructor
  case members =>
    intro x
    rw [List.mem_append, List.mem_singleton, h.members, NodeId.inside_child_some hn, and_or_left,
      or_comm, eq_comm (a := x)]
    exact or_congr_left ⟨fun hx => ⟨hx ▸ ha, hx⟩, And.right⟩
  case inward =>
    refine List.pairwise_append.2 ⟨h.inward, List.pairwise_singleton _ _, fun x hx y hy => ?_⟩
    rw [List.mem_singleton.1 hy]
    exact ((h.members x).1 hx).2

theorem surrounds_nil {name : String} (hn : IsSegment name) :
    c.Surrounds [] (.child none name) := by
  refine ⟨fun x => ?_, .nil⟩
  simp [NodeId.not_inside_child_none hn]

inductive InPlace (c : Chart) : Placed → Prop
  | node {s : State} {ids : List NodeId} (hs : s ∈ c.states) (h : c.Surrounds ids s.id) :
      InPlace c ⟨(if s.kind.nests then ids ++ [s.id] else ids).map clusterId, .node s.id.path⟩
  | cluster {x : NodeId} {ids : List NodeId} (hx : x ∈ c.clusterIds) (h : c.Surrounds ids x) :
      InPlace c ⟨ids.map clusterId, .cluster (clusterId x)⟩

def Settled (c : Chart) (id : NodeId) (n : Node) : Prop :=
  ∀ ids, c.Surrounds ids id → ∀ p ∈ places (ids.map clusterId) n, c.InPlace p

theorem inPlace_members {scope : Option NodeId} {ts : List State} {ns : List Node} (hf : f.Sound)
    (hns : List.Forall₂ (fun t n => c.Settled t.id n) ts ns) (hts : ∀ t ∈ ts, t ∈ f.states)
    (hscope : ∀ t ∈ ts, t.scope.id? = scope)
    (h : ∀ name, IsSegment name → c.Surrounds ids (.child scope name)) :
    ∀ p ∈ placesOf (ids.map clusterId) ns, c.InPlace p := by
  induction hns with
  | nil => exact fun p hp => absurd hp List.not_mem_nil
  | @cons t n ts ns hn _ ih =>
    obtain ⟨ht, hts⟩ := List.forall_mem_cons.1 hts
    obtain ⟨hat, hscope⟩ := List.forall_mem_cons.1 hscope
    have hid := hf.nested.qualified t ht
    rw [hat] at hid
    refine List.forall_mem_append.2 ⟨hn _ ?_, ih hts hscope⟩
    rw [hid]
    exact h t.name (hf.nested.segment t ht)

theorem mem_clusterIds_of_nests (ha : Assembled f c) {s : State} (hs : s ∈ f.states)
    (hk : s.kind.nests = true) : s.id ∈ c.clusterIds := by
  refine List.mem_append_left _ (List.mem_map.2 ⟨s, List.mem_filter.2 ⟨?_, hk⟩, rfl⟩)
  rwa [ha.states]

theorem mem_clusterIds_of_slot (ha : Assembled f c) {q : RegionSlot} (hq : q ∈ f.regions) :
    q.id ∈ c.clusterIds := by
  rw [← ha.slots] at hq
  obtain ⟨r, hr, rfl⟩ := List.mem_map.1 hq
  exact List.mem_append_right _ (List.mem_map_of_mem hr)

theorem settled_leaf (ha : Assembled f c) {s : State} (hs : s ∈ f.states)
    (hk : s.kind.nests = false) {n : Node}
    (hn : ∀ around, places around n = [⟨around, .node s.id.path⟩]) : c.Settled s.id n := by
  intro ids hids
  have hnode := InPlace.node (ha.states ▸ hs) hids
  rw [hk, if_neg Bool.false_ne_true] at hnode
  rw [hn]
  exact List.forall_mem_singleton.2 hnode

theorem inPlace_inside (ha : Assembled f c) {s : State} (hs : s ∈ f.states)
    (hk : s.kind.nests = true) (hids : c.Surrounds ids s.id) {inside : List Placed}
    (h : ∀ p ∈ inside, c.InPlace p) :
    ∀ p ∈ ⟨ids.map clusterId, .cluster (clusterId s.id)⟩ ::
      ⟨ids.map clusterId ++ [clusterId s.id], .node s.id.path⟩ :: inside, c.InPlace p := by
  have hnode := InPlace.node (ha.states ▸ hs) hids
  rw [hk, if_pos rfl, List.map_append] at hnode
  have hcluster := InPlace.cluster (mem_clusterIds_of_nests ha hs hk) hids
  exact List.forall_mem_cons.2 ⟨hcluster, List.forall_mem_cons.2 ⟨hnode, h⟩⟩

theorem settled_region (hf : f.Sound) (ha : Assembled f c) {m : Initials} {q : RegionSlot}
    (hq : q ∈ f.regions) {n : Node}
    (hn : Nesting.RegionNode f.states m (fun t n => c.Settled t.id n) q.owner q n) :
    c.Settled q.id n := by
  obtain ⟨ns, rfl, hns⟩ := hn
  intro ids hids
  have hself := mem_clusterIds_of_slot ha hq
  have hmembers := inPlace_members hf hns
    (fun t ht => List.mem_of_mem_filter (List.mem_of_mem_filter ht))
    (hf.nested.scope_of_mem_members hq) fun name => hids.child hself
  rw [List.map_append, List.map_singleton] at hmembers
  exact List.forall_mem_cons.2 ⟨.cluster hself hids, hmembers⟩

theorem inPlace_regions (hf : f.Sound) (ha : Assembled f c) {m : Initials} {qs : List RegionSlot}
    {ns : List Node} (hqs : ∀ q ∈ qs, q ∈ f.regions ∧ q.owner = a)
    (hns : List.Forall₂ (Nesting.RegionNode f.states m (fun t n => c.Settled t.id n) a) qs ns)
    (hself : a ∈ c.clusterIds) (hids : c.Surrounds ids a) :
    ∀ p ∈ placesOf ((ids ++ [a]).map clusterId) ns, c.InPlace p := by
  induction hns with
  | nil => exact fun p hp => absurd hp List.not_mem_nil
  | @cons q n qs ns hn _ ih =>
    obtain ⟨⟨hq, rfl⟩, hqs⟩ := List.forall_mem_cons.1 hqs
    refine List.forall_mem_append.2 ⟨settled_region hf ha hq hn _ ?_, ih hqs⟩
    rw [(hf.nested.owner q hq).1]
    exact hids.child hself (isSegment_regionName q.index)

theorem hereditary_settled (hf : f.Sound) (ha : Assembled f c) {m : Initials} :
    Nesting.Hereditary f.states f.regions m fun s n => c.Settled s.id n := by
  constructor
  case simple =>
    exact fun s hs hk => settled_leaf ha hs (by rw [hk]; rfl) fun _ => rfl
  case history =>
    exact fun s hs hk => settled_leaf ha hs (by rw [hk]; rfl) fun _ => rfl
  case composite =>
    intro s hs hk ns hns ids hids
    have hnests : s.kind.nests = true := by rw [hk]; rfl
    have hself := mem_clusterIds_of_nests ha hs hnests
    have hmembers := inPlace_members hf hns (fun t ht => (Nesting.mem_childrenOf.1 ht).1)
      (hf.nested.scope_of_mem_childrenOf hs hk) fun name => hids.child hself
    rw [List.map_append, List.map_singleton] at hmembers
    exact inPlace_inside ha hs hnests hids hmembers
  case concurrent =>
    intro s hs hk ns hns ids hids
    have hnests : s.kind.nests = true := by rw [hk]; rfl
    have hslots : ∀ q ∈ Nesting.slotsOf f.regions s.id, q ∈ f.regions ∧ q.owner = s.id := by
      intro q hq
      simpa using (Nesting.slotsOf_perm f.regions s.id).mem_iff.1 hq
    have hregions := inPlace_regions hf ha hslots hns (mem_clusterIds_of_nests ha hs hnests) hids
    rw [List.map_append, List.map_singleton] at hregions
    exact inPlace_inside ha hs hnests hids hregions

theorem inPlace_roots (hf : f.Sound) (ha : Assembled f c) :
    ∀ p ∈ placesOf [] c.roots, c.InPlace p := by
  have hforest := Nesting.forest_induction (hereditary_settled hf ha) ha.forest
  have hscope : ∀ t ∈ f.states.filter fun s => s.parent.isNone, t.scope.id? = none := by
    intro t ht
    rw [scope_eq_top.2 (by simpa using (List.mem_filter.1 ht).2)]
    rfl
  have hnil : ∀ name, IsSegment name → c.Surrounds [] (.child none name) :=
    fun name => surrounds_nil
  have hmembers := inPlace_members hf hforest (fun t ht => List.mem_of_mem_filter ht) hscope hnil
  exact hmembers

end Chart

namespace Dot

def Said.cluster? : Said → Option String
  | cluster name => some name
  | graph _ | node _ | edge _ _ | other | close => none

def Said.edge? : Said → Option (String × String)
  | edge source target => some (source, target)
  | graph _ | cluster _ | node _ | other | close => none

structure Mirrors (c : Chart) (ps : List Placed) : Prop where
  nodes : ∀ s ∈ c.states, ∃ ids, c.Surrounds ids s.id ∧
    (ps.filter fun p => p.said = .node s.id.path) =
      [⟨(if s.kind.nests then ids ++ [s.id] else ids).map clusterId, .node s.id.path⟩]
  clusters : ∀ x ∈ c.clusterIds, ∃ ids, c.Surrounds ids x ∧
    (ps.filter fun p => p.said = .cluster (clusterId x)) =
      [⟨ids.map clusterId, .cluster (clusterId x)⟩]
  distinct : ((ps.map Placed.said).filterMap Said.cluster?).Nodup
  edges : (ps.map Placed.said).filterMap Said.edge? =
    c.transitions.map fun t => (t.source.path, t.target.path)
  all : ∀ p ∈ ps, (∃ s ∈ c.states, p.said = .node s.id.path) ∨
    (∃ x ∈ c.clusterIds, p.said = .cluster (clusterId x)) ∨
      ∃ t ∈ c.transitions, p.said = .edge t.source.path t.target.path

section Mirrors

variable {c : Chart} {f : FlatChart}

theorem said_edgePlace {p : Placed} (hp : p ∈ c.transitions.map edgePlace) :
    ∃ t ∈ c.transitions, p.said = .edge t.source.path t.target.path := by
  obtain ⟨t, ht, rfl⟩ := List.mem_map.1 hp
  exact ⟨t, ht, rfl⟩

theorem nodup_places (hf : f.Sound) (ha : Assembled f c) :
    ((placesOf [] c.roots).map Placed.said).Nodup := by
  rw [map_said_placesOf]
  exact nodup_saids (ha.nodup_parts hf)

theorem filter_said (hf : f.Sound) (ha : Assembled f c) {p : Placed}
    (hp : p ∈ placesOf [] c.roots) :
    ((placesOf [] c.roots ++ c.transitions.map edgePlace).filter fun q => q.said = p.said) =
      [p] := by
  have hnodup := nodup_places hf ha
  have hedges : (c.transitions.map edgePlace).filter (fun q => q.said = p.said) = [] := by
    refine List.filter_eq_nil_iff.2 fun q hq hsaid => ?_
    obtain ⟨t, -, hedge⟩ := said_edgePlace hq
    have hsaid : q.said = p.said := by simpa using hsaid
    rw [hedge] at hsaid
    cases Chart.inPlace_roots hf ha p hp <;> cases hsaid
  rw [List.filter_append, hedges, List.append_nil, filter_key_eq hnodup hp]

theorem exists_place {d : Said} {n : Node} (hn : n ∈ Node.partsOf c.roots) (hd : d ∈ saids n) :
    ∃ p ∈ placesOf [] c.roots, p.said = d := by
  have hmem : d ∈ (placesOf [] c.roots).map Placed.said := by
    rw [map_said_placesOf]
    exact List.mem_flatMap.2 ⟨n, hn, hd⟩
  exact List.mem_map.1 hmem

theorem exists_cluster (hf : f.Sound) (ha : Assembled f c) {x : NodeId} (hx : x ∈ c.clusterIds) :
    ∃ p ∈ placesOf [] c.roots, p.said = .cluster (clusterId x) := by
  rcases List.mem_append.1 hx with hx | hx
  · obtain ⟨s, hs, rfl⟩ := List.mem_map.1 hx
    obtain ⟨hs, hk⟩ := List.mem_filter.1 hs
    obtain ⟨n, hn, hid, -, hkind⟩ := ha.exists_part hf (ha.states ▸ hs)
    exact exists_place hn (hid ▸ cluster_mem_saids hkind hk)
  · obtain ⟨q, hq, rfl⟩ := List.mem_map.1 hx
    obtain ⟨n, hn, hid⟩ := ha.exists_region_part hf (ha.mem_slots hq)
    refine exists_place hn ?_
    cases n with
    | region =>
      cases hid
      exact List.mem_singleton_self _
    | simple | history | composite | concurrent => cases hid

theorem mirrors (hf : f.Sound) (ha : Assembled f c) :
    Mirrors c (placesOf [] c.roots ++ c.transitions.map edgePlace) := by
  have hplace := Chart.inPlace_roots hf ha
  constructor
  case nodes =>
    intro s hs
    obtain ⟨n, hn, hid, -, hkind⟩ := ha.exists_part hf (ha.states ▸ hs)
    obtain ⟨p, hp, hsaid⟩ := exists_place hn (hid ▸ node_mem_saids hkind)
    have hfilter := filter_said hf ha hp
    cases hplace p hp with
    | cluster => cases hsaid
    | @node t ids ht hids =>
      have hpath : t.id = s.id := congrArg NodeId.mk (Said.node.inj hsaid)
      obtain rfl : t = s := List.inj_on_of_nodup_map (ha.states ▸ hf.nested.distinct) ht hs hpath
      exact ⟨ids, hids, hfilter⟩
  case clusters =>
    intro x hx
    obtain ⟨p, hp, hsaid⟩ := exists_cluster hf ha hx
    have hfilter := filter_said hf ha hp
    cases hplace p hp with
    | node => cases hsaid
    | @cluster y ids _ hids =>
      obtain rfl := clusterId_injective (Said.cluster.inj hsaid)
      exact ⟨ids, hids, hfilter⟩
  case distinct =>
    have hnone : ((c.transitions.map edgePlace).map Placed.said).filterMap Said.cluster? = [] := by
      simp [edgePlace, Said.cluster?]
    rw [List.map_append, List.filterMap_append, hnone, List.append_nil]
    refine (nodup_places hf ha).filterMap fun d d' name hd hd' => ?_
    cases d <;> cases hd
    cases d' <;> cases hd'
    rfl
  case edges =>
    have hnone : ((placesOf [] c.roots).map Placed.said).filterMap Said.edge? = [] := by
      refine List.filterMap_eq_nil_iff.2 (List.forall_mem_map.2 fun p hp => ?_)
      cases hplace p hp <;> rfl
    rw [List.map_append, List.filterMap_append, hnone, List.nil_append, List.map_map,
      List.filterMap_map]
    exact congrFun List.filterMap_eq_map c.transitions
  case all =>
    intro p hp
    rcases List.mem_append.1 hp with hp | hp
    · cases hplace p hp with
      | node hs _ => exact .inl ⟨_, hs, rfl⟩
      | cluster hx _ => exact .inr (.inl ⟨_, hx, rfl⟩)
    · exact .inr (.inr (said_edgePlace hp))

end Mirrors

theorem mirrors_of_parse {fallback : Fallback} {input : String} {c : Chart}
    (h : Chart.parse fallback input = .ok c) (style : Style) :
    ∃ ps, readGraph (layout c style) = some (style.title, ps) ∧ Mirrors c ps := by
  obtain ⟨f, hf, ha⟩ := parse_ok h
  exact ⟨_, readGraph_layout c style, mirrors hf ha⟩

theorem mirrors_sample : Chart.parse .firstChild Sample.text = .ok Sample.chart ∧
    ∃ ps, readGraph (layout Sample.chart {}) = some ("StateMachine", ps) ∧ Mirrors Sample.chart ps ∧
      ⟨["cluster_Two", "cluster_Two/region1"], .node "Two/region1/A"⟩ ∈ ps := by
  obtain ⟨ps, hread, hmirrors⟩ := mirrors_of_parse Sample.parse_text {}
  have hps : _ = ps := congrArg Prod.snd (Option.some.inj ((readGraph_layout ..).symm.trans hread))
  refine ⟨Sample.parse_text, ps, hread, hmirrors, ?_⟩
  rw [← hps]
  decide

end Dot

end Statechart
