import Mathlib
import Statechart.Config
import Statechart.Proofs.Tree

namespace Statechart

namespace NodeId

def ofSegments (names : List String) : NodeId :=
  ⟨String.ofList (Text.join separator (names.map String.toList))⟩

theorem ofSegments_segments (a : NodeId) : ofSegments a.segments = a := by
  have hlists : a.segments.map String.toList = Text.split separator a.path.toList := by
    simp [segments]
  rw [ofSegments, hlists, Text.join_split, String.ofList_toList]

end NodeId

inductive Part where
  | state
  | region
  deriving DecidableEq, Repr

structure Visit where
  part : Part
  names : List String
  node : ConfigNode

def Visit.id (v : Visit) : NodeId :=
  .ofSegments v.names

namespace ConfigNode

def children : ConfigNode → List ConfigNode
  | name _ => []
  | composite _ ns _ | parallel _ ns => ns

def initial? : ConfigNode → Option String
  | composite _ _ initial => initial
  | name _ | parallel _ _ => none

mutual

/-- A node and those below it. Below a parallel node are regions, below any other one are states. -/
def visits (part : Part) (above : List String) : ConfigNode → List Visit
  | name n => [⟨part, above ++ [n], name n⟩]
  | composite n ns initial =>
    ⟨part, above ++ [n], composite n ns initial⟩ :: visitsOf .state (above ++ [n]) ns
  | parallel n ns => ⟨part, above ++ [n], parallel n ns⟩ :: visitsOf .region (above ++ [n]) ns

def visitsOf (part : Part) (above : List String) : List ConfigNode → List Visit
  | [] => []
  | n :: ns => visits part above n ++ visitsOf part above ns

end

end ConfigNode

namespace Config

def visits (g : Config) : List Visit :=
  ConfigNode.visitsOf .state [] g.states

def idsOf (g : Config) (part : Part) : List NodeId :=
  (g.visits.filter fun v => v.part = part).map Visit.id

/-- A path that leads to one node alone, the node of a state. -/
def Names (g : Config) (path : String) : Prop :=
  ∃ v, v.part = .state ∧ (g.visits.filter fun u => u.id.path = path) = [v]

structure SelfContained (g : Config) (c : Chart) : Prop where
  states : (g.idsOf .state).Perm (c.states.map State.id)
  regions : (g.idsOf .region).Perm (c.regions.map Region.id)
  distinct : (g.visits.map Visit.id).Nodup
  initial : g.Names g.initial
  ends : ∀ t ∈ g.transitions, g.Names t.source ∧ g.Names t.target
  finals : ∀ path ∈ g.finals, g.Names path
  nested : ∀ v ∈ g.visits, ∀ i, v.node.initial? = some i →
    (v.node.children.countP fun n => n.ownName = i) = 1

theorem names_of_mem {g : Config} (hd : (g.visits.map Visit.id).Nodup) {v : Visit}
    (hv : v ∈ g.visits) (hp : v.part = .state) : g.Names v.id.path := by
  have hpaths : (g.visits.map fun u => u.id.path).Nodup := by
    refine (List.Nodup.of_map _ hd).map_on fun u hu w hw hpath => ?_
    refine List.inj_on_of_nodup_map hd hu hw ?_
    rwa [NodeId.mk.injEq]
  exact ⟨v, hp, filter_key_eq hpaths hv⟩

end Config

namespace Node

def part : Node → Part
  | region _ _ _ _ => .region
  | simple _ _ | history _ _ | composite _ _ _ _ | concurrent _ _ _ => .state

def visit (n : Node) : Visit :=
  ⟨n.part, n.id.segments, .ofNode n⟩

theorem id_visit (n : Node) : n.visit.id = n.id :=
  n.id.ofSegments_segments

theorem filter_part_state (ps : List Node) :
    (ps.filter fun p => p.part = .state).map id = ps.filterMap stateId? := by
  induction ps with
  | nil => rfl
  | cons p ps ih =>
    cases p with
    | region => exact ih
    | simple | history | composite | concurrent => exact congrArg (_ :: ·) ih

theorem filter_part_region (ps : List Node) :
    (ps.filter fun p => p.part = .region).map id = ps.filterMap regionId? := by
  induction ps with
  | nil => rfl
  | cons p ps ih =>
    cases p with
    | region => exact congrArg (_ :: ·) ih
    | simple | history | composite | concurrent => exact ih

end Node

theorem Initials.mem_of_get? {m : Initials} {scope target : NodeId}
    (h : m.get? scope = some target) : (scope, target) ∈ m := by
  obtain ⟨before, after, rfl, -⟩ := List.lookup_eq_some_iff.1 h
  simp

namespace WellNested

variable {ss : List State} {rs : List RegionSlot} {m : Initials}

theorem segments_id (h : WellNested ss rs) {s : State} (hs : s ∈ ss) :
    s.id.segments = NodeId.segmentsOf? s.scope.id? ++ [s.name] := by
  rw [h.qualified s hs, NodeId.segments_child _ (h.segment s hs)]

theorem segments_region (h : WellNested ss rs) {q : RegionSlot} (hq : q ∈ rs) :
    q.id.segments = q.owner.segments ++ [regionName q.index] := by
  rw [(h.owner q hq).1, regionId, NodeId.segments_child_some _ (isSegment_regionName q.index)]

theorem scope_of_mem_childrenOf (h : WellNested ss rs) {s : State} (hs : s ∈ ss)
    (hk : s.kind = .composite) : ∀ t ∈ Nesting.childrenOf ss s.id, t.scope.id? = some s.id := by
  intro t ht
  obtain ⟨ht, hp⟩ := Nesting.mem_childrenOf.1 ht
  rw [h.scope_of_parent ht hs hk hp]
  rfl

theorem scope_of_mem_members (h : WellNested ss rs) {q : RegionSlot} (hq : q ∈ rs) :
    ∀ t ∈ (Nesting.childrenOf ss q.owner).filter fun t => t.region = some q.index,
      t.scope.id? = some q.id := by
  intro t ht
  obtain ⟨ht, hk⟩ := List.mem_filter.1 ht
  have hp : t.parent = some q.owner := by simpa using (List.mem_filter.1 ht).2
  rw [scope_eq_region.2 ⟨hp, by simpa using hk⟩, (h.owner q hq).1]
  rfl

def Walked (s : State) (n : Node) : Prop :=
  (ConfigNode.ofNode n).visits .state (NodeId.segmentsOf? s.scope.id?) = n.parts.map Node.visit

theorem walked_all {ts : List State} {ns : List Node} (h : List.Forall₂ Walked ts ns)
    {scope : Option NodeId} (hscope : ∀ t ∈ ts, t.scope.id? = scope) :
    ConfigNode.visitsOf .state (NodeId.segmentsOf? scope) (ConfigNode.ofNodes ns) =
      (Node.partsOf ns).map Node.visit := by
  induction h with
  | nil => rfl
  | cons ht _ ih =>
    obtain ⟨hfirst, hrest⟩ := List.forall_mem_cons.1 hscope
    rw [ConfigNode.ofNodes, ConfigNode.visitsOf, Node.partsOf, List.map_append, ← hfirst, ht,
      hfirst, ih hrest]

theorem walked_regions (h : WellNested ss rs) {owner : NodeId} {qs : List RegionSlot}
    {ns : List Node} (hqs : ∀ q ∈ qs, q ∈ rs ∧ q.owner = owner)
    (hns : List.Forall₂ (Nesting.RegionNode ss m Walked owner) qs ns) :
    ConfigNode.visitsOf .region owner.segments (ConfigNode.ofNodes ns) =
      (Node.partsOf ns).map Node.visit := by
  induction hns with
  | nil => rfl
  | @cons q n qs ns hn _ ih =>
    obtain ⟨⟨hq, rfl⟩, hrest⟩ := List.forall_mem_cons.1 hqs
    obtain ⟨cs, rfl, hcs⟩ := hn
    have hself := walked_all hcs (h.scope_of_mem_members hq)
    rw [ConfigNode.ofNodes, ConfigNode.visitsOf, ih hrest, Node.partsOf, List.map_append,
      ConfigNode.ofNode, ConfigNode.visits, ← h.segments_region hq, Node.parts, List.map_cons]
    exact congrArg (_ :: · ++ _) hself

theorem hereditary_walked (h : WellNested ss rs) : Nesting.Hereditary ss rs m Walked := by
  constructor
  case simple =>
    intro s hs _
    rw [Walked, ConfigNode.ofNode, ConfigNode.visits, ← h.segments_id hs]
    rfl
  case history =>
    intro s hs _
    rw [Walked, ConfigNode.ofNode, ConfigNode.visits, ← h.segments_id hs]
    rfl
  case composite =>
    intro s hs hk ns hns
    rw [Walked, ConfigNode.ofNode, ConfigNode.visits, ← h.segments_id hs]
    exact congrArg (_ :: ·) (walked_all hns (h.scope_of_mem_childrenOf hs hk))
  case concurrent =>
    intro s hs _ ns hns
    have hslots : ∀ q ∈ Nesting.slotsOf rs s.id, q ∈ rs ∧ q.owner = s.id := by
      intro q hq
      simpa using (Nesting.slotsOf_perm rs s.id).mem_iff.1 hq
    rw [Walked, ConfigNode.ofNode, ConfigNode.visits, ← h.segments_id hs]
    exact congrArg (_ :: ·) (h.walked_regions hslots hns)

theorem nodup_names (h : WellNested ss rs) {ts : List State} (hts : ts.Sublist ss)
    {scope : Option NodeId} (hscope : ∀ t ∈ ts, t.scope.id? = scope) :
    (ts.map State.name).Nodup := by
  have hnodup : ts.Nodup := (List.Nodup.of_map _ h.distinct).sublist hts
  refine hnodup.map_on fun t ht u hu hname => ?_
  refine List.inj_on_of_nodup_map h.distinct (hts.subset ht) (hts.subset hu) ?_
  rw [h.qualified t (hts.subset ht), h.qualified u (hts.subset hu), hscope t ht, hscope u hu, hname]

theorem countP_ownName (h : WellNested ss rs) {ts : List State} (hts : ts.Sublist ss)
    {scope : Option NodeId} (hscope : ∀ t ∈ ts, t.scope.id? = scope) {ns : List Node}
    (hns : List.Forall₂ Nesting.StandsFor ts ns) {u : State} (hu : u ∈ ts) :
    ((ConfigNode.ofNodes ns).countP fun n => n.ownName = u.id.baseName) = 1 := by
  have hbase : u.id.baseName = u.name := by
    rw [NodeId.baseName, h.segments_id (hts.subset hu)]
    simp
  have hnames : (ConfigNode.ofNodes ns).map ConfigNode.ownName = ts.map State.name := by
    clear hu hts hscope
    induction hns with
    | nil => rfl
    | @cons t n ts ns hn _ ih =>
      have hown : (ConfigNode.ofNode n).ownName = t.name := by
        rw [← hn.2.1]
        cases n <;> rfl
      rw [ConfigNode.ofNodes, List.map_cons, List.map_cons, ih, hown]
  have hcount : (ts.map State.name).count u.name = 1 :=
    List.count_eq_one_of_mem (h.nodup_names hts hscope) (List.mem_map_of_mem hu)
  rw [hbase, ← hcount, ← hnames, List.count, List.countP_map]
  rfl

end WellNested

namespace Assembled

variable {f : FlatChart} {c : Chart}

theorem visits_ofChart (h : f.Sound) (ha : Assembled f c) :
    (Config.ofChart c).visits = (Node.partsOf c.roots).map Node.visit := by
  have htop : ∀ s ∈ f.states.filter fun s => s.parent.isNone, s.scope.id? = none := by
    intro s hs
    have hp : s.parent = none := by simpa using (List.mem_filter.1 hs).2
    rw [scope_eq_top.2 hp]
    rfl
  have hwalked := Nesting.forest_induction (WellNested.hereditary_walked h.nested) ha.forest
  exact WellNested.walked_all hwalked htop

theorem idsOf_ofChart (h : f.Sound) (ha : Assembled f c) (part : Part) :
    (Config.ofChart c).idsOf part =
      ((Node.partsOf c.roots).filter fun p => p.part = part).map Node.id := by
  rw [Config.idsOf, ha.visits_ofChart h, List.filter_map, List.map_map]
  exact List.map_congr_left fun p _ => p.id_visit

theorem nodup_visits (h : f.Sound) (ha : Assembled f c) :
    ((Config.ofChart c).visits.map Visit.id).Nodup := by
  rw [ha.visits_ofChart h, List.map_map]
  exact (List.map_congr_left fun p _ => Node.id_visit p) ▸ ha.nodup_parts h

theorem names (h : f.Sound) (ha : Assembled f c) {x : NodeId} (hx : ∃ s ∈ f.states, s.id = x) :
    (Config.ofChart c).Names x.path := by
  obtain ⟨s, hs, rfl⟩ := hx
  obtain ⟨p, hp, hid, -, hk⟩ := ha.exists_part h hs
  have hpart : p.part = .state := by
    cases p with
    | region => cases hk
    | simple | history | composite | concurrent => rfl
  have hvisit : p.visit ∈ (Config.ofChart c).visits := by
    rw [ha.visits_ofChart h]
    exact List.mem_map_of_mem hp
  have hnames := Config.names_of_mem (ha.nodup_visits h) hvisit hpart
  rwa [p.id_visit, hid] at hnames

theorem initial_named (h : f.Sound) (ha : Assembled f c) :
    ∀ p ∈ Node.partsOf c.roots, ∀ i, (ConfigNode.ofNode p).initial? = some i →
      ((ConfigNode.ofNode p).children.countP fun n => n.ownName = i) = 1 := by
  intro p hp i hi
  cases ha.shape p hp with
  | simple | history | concurrent => cases hi
  | @composite s ns hs hk hns =>
    obtain ⟨x, hx, rfl⟩ := Option.map_eq_some_iff.1 hi
    obtain ⟨u, hu, rfl, -, hplace⟩ := ha.targets h (s.id, x) (Initials.mem_of_get? hx)
    refine h.nested.countP_ownName List.filter_sublist (h.nested.scope_of_mem_childrenOf hs hk) hns
      (Nesting.mem_childrenOf.2 ⟨hu, ?_⟩)
    rcases hplace with ⟨t, -, hid, -, hscope⟩ | ⟨r, hr, hid, -⟩
    · rw [(scope_eq_composite.1 hscope).1, hid]
    · exact absurd hid (h.nested.region_ne (ha.mem_slots hr) hs)
  | @region q ns hq hns =>
    obtain ⟨x, hx, rfl⟩ := Option.map_eq_some_iff.1 hi
    obtain ⟨u, hu, rfl, -, hplace⟩ := ha.targets h (q.id, x) (Initials.mem_of_get? hx)
    refine h.nested.countP_ownName (List.filter_sublist.trans List.filter_sublist)
      (h.nested.scope_of_mem_members hq) hns ?_
    rcases hplace with ⟨t, ht, hid, -⟩ | ⟨r, hr, hid, hscope⟩
    · exact absurd hid.symm (h.nested.region_ne hq ht)
    · have hregion : regionId r.owner r.index = regionId q.owner q.index := by
        rw [← (h.nested.owner q hq).1, ← show r.id = q.id from hid]
        exact (h.nested.owner r.slot (ha.mem_slots hr)).1.symm
      obtain ⟨hown, hidx⟩ := regionId_inj.1 hregion
      obtain ⟨hp, hk⟩ := scope_eq_region.1 hscope
      rw [hown] at hp
      rw [hidx] at hk
      have hchild : u ∈ Nesting.childrenOf f.states q.owner :=
        List.mem_filter.2 ⟨hu, by simpa using hp⟩
      exact List.mem_filter.2 ⟨hchild, by simpa using hk⟩

end Assembled

theorem Config.selfContained_of_parse {fallback : Fallback} {input : String} {c : Chart}
    (h : Chart.parse fallback input = .ok c) : (Config.ofChart c).SelfContained c := by
  obtain ⟨f, hf, ha⟩ := parse_ok h
  constructor
  case states =>
    rw [ha.idsOf_ofChart hf, Node.filter_part_state, ha.states]
    exact ha.stateIds_perm
  case regions =>
    rw [ha.idsOf_ofChart hf, Node.filter_part_region]
    have hperm := ha.regionIds_perm hf
    rw [← ha.slots, List.map_map] at hperm
    exact hperm
  case distinct => exact ha.nodup_visits hf
  case initial =>
    obtain ⟨i, hi, -, htarget⟩ := ha.initial
    obtain ⟨s, hs, hid, -⟩ := hf.initials i hi
    exact ha.names hf ⟨s, hs, hid.trans htarget⟩
  case ends =>
    intro t ht
    obtain ⟨a, ha', rfl⟩ := List.mem_map.1 ht
    rw [ha.transitions] at ha'
    exact ⟨ha.names hf (hf.sources a ha'), ha.names hf (hf.targets a ha')⟩
  case finals =>
    intro path hpath
    obtain ⟨x, hx, rfl⟩ := List.mem_map.1 hpath
    rw [ha.finals] at hx
    exact ha.names hf (hf.finals x hx)
  case nested =>
    rw [ha.visits_ofChart hf, List.forall_mem_map]
    exact ha.initial_named hf

theorem Config.selfContained_sample : Chart.parse .firstChild Sample.text = .ok Sample.chart ∧
    (Config.ofChart Sample.chart).SelfContained Sample.chart :=
  ⟨Sample.parse_text, Config.selfContained_of_parse Sample.parse_text⟩

end Statechart
