import Mathlib
import Statechart.Proofs.WellFormed

namespace Statechart

theorem filter_key_eq {α κ : Type} [DecidableEq κ] {key : α → κ} {as : List α}
    (hd : (as.map key).Nodup) {a : α} (ha : a ∈ as) :
    (as.filter fun b => key b = key a) = [a] := by
  have hcount := List.count_eq_one_of_mem hd (List.mem_map_of_mem ha)
  rw [List.count, List.countP_map, List.countP_eq_length_filter, List.length_eq_one_iff] at hcount
  obtain ⟨b, hb⟩ := hcount
  have hmem : a ∈ [b] := by
    rw [← hb]
    exact List.mem_filter.2 ⟨ha, by simp⟩
  obtain rfl := List.mem_singleton.1 hmem
  rw [← hb]
  exact List.filter_congr fun c _ => (beq_eq_decide ..).symm

namespace Node

def children : Node → List Node
  | simple _ _ | history _ _ => []
  | composite _ _ _ ns | concurrent _ _ ns | region _ _ _ ns => ns

mutual

def parts : Node → List Node
  | simple id name => [simple id name]
  | history id name => [history id name]
  | composite id name initial ns => composite id name initial ns :: partsOf ns
  | concurrent id name ns => concurrent id name ns :: partsOf ns
  | region id name initial ns => region id name initial ns :: partsOf ns

def partsOf : List Node → List Node
  | [] => []
  | n :: ns => parts n ++ partsOf ns

end

theorem partsOf_eq_flatMap (ns : List Node) : partsOf ns = ns.flatMap parts := by
  induction ns with
  | nil => rfl
  | cons n ns ih => rw [partsOf, List.flatMap_cons, ih]

def stateId? : Node → Option NodeId
  | region _ _ _ _ => none
  | n => some n.id

def regionId? : Node → Option NodeId
  | region id _ _ _ => some id
  | _ => none

def kind? : Node → Option StateKind
  | simple _ _ => some .simple
  | history _ _ => some .history
  | composite _ _ _ _ => some .composite
  | concurrent _ _ _ => some .concurrent
  | region _ _ _ _ => none

mutual

theorem ids_eq : ∀ n : Node, n.ids = n.parts.filterMap stateId?
  | simple _ _ | history _ _ => rfl
  | composite _ _ _ ns | concurrent _ _ ns => by simp [ids, parts, stateId?, id, idsOf_eq ns]
  | region _ _ _ ns => by rw [ids, parts, List.filterMap_cons_none rfl, idsOf_eq ns]

theorem idsOf_eq : ∀ ns : List Node, idsOf ns = (partsOf ns).filterMap stateId?
  | [] => rfl
  | n :: ns => by rw [idsOf, partsOf, List.filterMap_append, ids_eq n, idsOf_eq ns]

end

theorem map_id_perm (ps : List Node) :
    (ps.map id).Perm (ps.filterMap stateId? ++ ps.filterMap regionId?) := by
  induction ps with
  | nil => exact .refl _
  | cons p ps ih =>
    cases p with
    | region rid name initial ns => exact (ih.cons rid).trans List.perm_middle.symm
    | simple | history | composite | concurrent => exact ih.cons _

end Node

namespace Nesting

variable {ss : List State} {rs : List RegionSlot} {m : Initials} {M : State → Node → Prop}

def RegionNode (ss : List State) (m : Initials) (M : State → Node → Prop) (owner : NodeId)
    (q : RegionSlot) (n : Node) : Prop :=
  ∃ ns, n = .region q.id (regionName q.index) (m.get? q.id) ns ∧
    List.Forall₂ M ((childrenOf ss owner).filter fun t => t.region = some q.index) ns

/-- What holds of a state and its node when it holds of its children and their nodes. -/
structure Hereditary (ss : List State) (rs : List RegionSlot) (m : Initials)
    (M : State → Node → Prop) : Prop where
  simple : ∀ s ∈ ss, s.kind = .simple → M s (.simple s.id s.name)
  history : ∀ s ∈ ss, s.kind = .history → M s (.history s.id s.name)
  composite : ∀ s ∈ ss, s.kind = .composite → ∀ ns, List.Forall₂ M (childrenOf ss s.id) ns →
    M s (.composite s.id s.name (m.get? s.id) ns)
  concurrent : ∀ s ∈ ss, s.kind = .concurrent → ∀ ns,
    List.Forall₂ (RegionNode ss m M s.id) (slotsOf rs s.id) ns → M s (.concurrent s.id s.name ns)

theorem forall₂_of_mapM {f : State → Except Defect Node} {ts : List State} {ns : List Node}
    (h : ts.mapM f = .ok ns) (hf : ∀ t ∈ ts, ∀ n, f t = .ok n → M t n) : List.Forall₂ M ts ns :=
  ((List.forall₂_and_left ts ns).2 ⟨hf, mapM_ok.1 h⟩).imp fun _ n ht => ht.1 n ht.2

theorem nodeOf_induction (hM : Hereditary ss rs m M) {depth : Nat} {s : State} {n : Node}
    (hs : s ∈ ss) (h : nodeOf ss rs m depth s = .ok n) : M s n := by
  induction depth using Nat.strong_induction_on generalizing s n with
  | _ depth ih =>
    cases hk : s.kind with
    | simple =>
      obtain rfl := Except.ok.inj ((nodeOf_simple hk m depth).symm.trans h)
      exact hM.simple s hs hk
    | history =>
      obtain rfl := Except.ok.inj ((nodeOf_history hk m depth).symm.trans h)
      exact hM.history s hs hk
    | composite =>
      obtain ⟨k, ns, rfl, hns, rfl⟩ := (nodeOf_composite hk).1 h
      refine hM.composite s hs hk ns (forall₂_of_mapM hns fun t ht n hn => ?_)
      exact ih k k.lt_succ_self (mem_childrenOf.1 ht).1 hn
    | concurrent =>
      obtain ⟨k, ns, rfl, -, hns, rfl⟩ := (nodeOf_concurrent hk).1 h
      refine hM.concurrent s hs hk ns ((mapM_ok.1 hns).imp fun q n hq => ?_)
      obtain ⟨cs, hcs, hn⟩ := bind_ok.1 hq
      cases hn
      refine ⟨cs, rfl, forall₂_of_mapM hcs fun t ht n hn => ?_⟩
      exact ih k k.lt_succ_self (mem_childrenOf.1 (List.mem_of_mem_filter ht)).1 hn

theorem forest_induction (hM : Hereditary ss rs m M) {roots : List Node}
    (h : forest ss rs m = .ok roots) :
    List.Forall₂ M (ss.filter fun s => s.parent.isNone) roots := by
  unfold forest at h
  split at h
  · cases h
  · obtain ⟨_, -, h⟩ := bind_ok.1 h
    obtain ⟨_, -, h⟩ := bind_ok.1 h
    exact forall₂_of_mapM h fun s hs n hn => nodeOf_induction hM (List.mem_of_mem_filter hs) hn

section Regions

theorem slotsOf_eq_nil (h : WellNested ss rs) {s : State} (hs : s ∈ ss)
    (hk : s.kind ≠ .concurrent) : slotsOf rs s.id = [] := by
  refine List.eq_nil_iff_forall_not_mem.2 fun q hq => hk ?_
  obtain ⟨hq, hown⟩ := List.mem_filter.1 ((slotsOf_perm rs s.id).mem_iff.1 hq)
  obtain ⟨-, t, ht, hid, htk⟩ := h.owner q hq
  have hown : q.owner = s.id := by simpa using hown
  rwa [← List.inj_on_of_nodup_map h.distinct ht hs (hid.trans hown)]

def slotIds (rs : List RegionSlot) (ids : List NodeId) : List NodeId :=
  ids.flatMap fun x => (slotsOf rs x).map RegionSlot.id

theorem slotIds_append (ids ids' : List NodeId) :
    slotIds rs (ids ++ ids') = slotIds rs ids ++ slotIds rs ids' :=
  List.flatMap_append

def HoldsRegions (rs : List RegionSlot) (ps : List Node) : Prop :=
  (ps.filterMap Node.regionId?).Perm (slotIds rs (ps.filterMap Node.stateId?))

theorem HoldsRegions.append {ps qs : List Node} (hp : HoldsRegions rs ps)
    (hq : HoldsRegions rs qs) : HoldsRegions rs (ps ++ qs) := by
  unfold HoldsRegions
  rw [List.filterMap_append, List.filterMap_append, slotIds_append]
  exact List.Perm.append hp hq

theorem holdsRegions_partsOf {ns : List Node} (h : ∀ n ∈ ns, HoldsRegions rs n.parts) :
    HoldsRegions rs (Node.partsOf ns) := by
  induction ns with
  | nil => exact .refl _
  | cons n ns ih =>
    obtain ⟨hn, hns⟩ := List.forall_mem_cons.1 h
    exact hn.append (ih hns)

theorem partsOf_regions {M : State → Node → Prop} (hM : ∀ t n, M t n → HoldsRegions rs n.parts)
    {owner : NodeId} {qs : List RegionSlot} {ns : List Node}
    (h : List.Forall₂ (RegionNode ss m M owner) qs ns) :
    ((Node.partsOf ns).filterMap Node.regionId?).Perm
      (qs.map RegionSlot.id ++ slotIds rs ((Node.partsOf ns).filterMap Node.stateId?)) := by
  induction h with
  | nil => exact .refl _
  | @cons q n qs ns hn _ ih =>
    obtain ⟨cs, rfl, hcs⟩ := hn
    have hparts : HoldsRegions rs (Node.partsOf cs) := by
      refine holdsRegions_partsOf fun c hc => ?_
      obtain ⟨t, -, htc⟩ := mem_right_of_forall₂ hcs c hc
      exact hM t c htc
    simp only [Node.partsOf, Node.parts, List.cons_append, List.map_cons, List.filterMap_append,
      slotIds_append, List.filterMap_cons_some (show Node.regionId? (.region q.id _ _ cs) = _ from rfl),
      List.filterMap_cons_none (show Node.stateId? (.region q.id _ _ cs) = _ from rfl)]
    exact ((List.Perm.append hparts ih).trans (List.perm_append_comm_assoc ..)).cons q.id

theorem hereditary_holdsRegions (h : WellNested ss rs) :
    Hereditary ss rs m fun _ n => HoldsRegions rs n.parts := by
  have hleaf : ∀ s ∈ ss, s.kind ≠ .concurrent → slotIds rs [s.id] = [] := by
    intro s hs hk
    simp [slotIds, slotsOf_eq_nil h hs hk]
  constructor
  case simple =>
    intro s hs hk
    exact .of_eq (hleaf s hs (by simp [hk])).symm
  case history =>
    intro s hs hk
    exact .of_eq (hleaf s hs (by simp [hk])).symm
  case composite =>
    intro s hs hk ns hns
    have hparts : HoldsRegions rs (Node.partsOf ns) := by
      refine holdsRegions_partsOf fun n hn => ?_
      obtain ⟨t, -, htn⟩ := mem_right_of_forall₂ hns n hn
      exact htn
    have hself : HoldsRegions rs [.composite s.id s.name (m.get? s.id) ns] :=
      .of_eq (hleaf s hs (by simp [hk])).symm
    exact hself.append hparts
  case concurrent =>
    intro s _ _ ns hns
    have hregions := partsOf_regions (fun _ _ ht => ht) hns
    have hone : slotIds rs [s.id] = (slotsOf rs s.id).map RegionSlot.id := List.flatMap_singleton ..
    rw [← hone, ← slotIds_append] at hregions
    exact hregions

end Regions

section Shapes

def StandsFor (s : State) (n : Node) : Prop :=
  n.id = s.id ∧ n.name = s.name ∧ n.kind? = some s.kind

inductive Shape (ss : List State) (rs : List RegionSlot) (m : Initials) : Node → Prop
  | simple {s : State} (hs : s ∈ ss) (hk : s.kind = .simple) : Shape ss rs m (.simple s.id s.name)
  | history {s : State} (hs : s ∈ ss) (hk : s.kind = .history) :
      Shape ss rs m (.history s.id s.name)
  | composite {s : State} {ns : List Node} (hs : s ∈ ss) (hk : s.kind = .composite)
      (hns : List.Forall₂ StandsFor (childrenOf ss s.id) ns) :
      Shape ss rs m (.composite s.id s.name (m.get? s.id) ns)
  | concurrent {s : State} {ns : List Node} (hs : s ∈ ss) (hk : s.kind = .concurrent) :
      Shape ss rs m (.concurrent s.id s.name ns)
  | region {q : RegionSlot} {ns : List Node} (hq : q ∈ rs) (hns : List.Forall₂ StandsFor
        ((childrenOf ss q.owner).filter fun t => t.region = some q.index) ns) :
      Shape ss rs m (.region q.id (regionName q.index) (m.get? q.id) ns)

theorem forall_mem_partsOf {P : Node → Prop} {ns : List Node} (h : ∀ n ∈ ns, ∀ p ∈ n.parts, P p) :
    ∀ p ∈ Node.partsOf ns, P p := by
  intro p hp
  rw [Node.partsOf_eq_flatMap] at hp
  obtain ⟨n, hn, hp⟩ := List.mem_flatMap.1 hp
  exact h n hn p hp

/-- What holds of each node of a tree, whatever the nodes below its own children are. -/
structure Local (ss : List State) (rs : List RegionSlot) (m : Initials) (Q : Node → Prop) :
    Prop where
  simple : ∀ s ∈ ss, s.kind = .simple → Q (.simple s.id s.name)
  history : ∀ s ∈ ss, s.kind = .history → Q (.history s.id s.name)
  composite : ∀ s ∈ ss, s.kind = .composite → ∀ ns, List.Forall₂ StandsFor (childrenOf ss s.id) ns →
    Q (.composite s.id s.name (m.get? s.id) ns)
  concurrent : ∀ s ∈ ss, s.kind = .concurrent → ∀ ns,
    List.Forall₂ (RegionNode ss m StandsFor s.id) (slotsOf rs s.id) ns →
      Q (.concurrent s.id s.name ns)
  region : ∀ q ∈ rs, ∀ ns, List.Forall₂ StandsFor
    ((childrenOf ss q.owner).filter fun t => t.region = some q.index) ns →
      Q (.region q.id (regionName q.index) (m.get? q.id) ns)

theorem Local.hereditary {Q : Node → Prop} (hQ : Local ss rs m Q) :
    Hereditary ss rs m fun s n => StandsFor s n ∧ ∀ p ∈ n.parts, Q p := by
  have hbelow : ∀ {ts : List State} {ns : List Node},
      List.Forall₂ (fun t n => StandsFor t n ∧ ∀ p ∈ n.parts, Q p) ts ns →
        ∀ p ∈ Node.partsOf ns, Q p := by
    intro ts ns hns
    refine forall_mem_partsOf fun n hn => ?_
    obtain ⟨t, -, -, hparts⟩ := mem_right_of_forall₂ hns n hn
    exact hparts
  constructor
  case simple =>
    intro s hs hk
    exact ⟨⟨rfl, rfl, by rw [hk]; rfl⟩, List.forall_mem_singleton.2 (hQ.simple s hs hk)⟩
  case history =>
    intro s hs hk
    exact ⟨⟨rfl, rfl, by rw [hk]; rfl⟩, List.forall_mem_singleton.2 (hQ.history s hs hk)⟩
  case composite =>
    intro s hs hk ns hns
    refine ⟨⟨rfl, rfl, by rw [hk]; rfl⟩, List.forall_mem_cons.2 ⟨?_, hbelow hns⟩⟩
    exact hQ.composite s hs hk ns (hns.imp fun _ _ ht => ht.1)
  case concurrent =>
    intro s hs hk ns hns
    refine ⟨⟨rfl, rfl, by rw [hk]; rfl⟩, List.forall_mem_cons.2 ⟨?_, ?_⟩⟩
    · refine hQ.concurrent s hs hk ns (hns.imp fun q n => ?_)
      rintro ⟨cs, rfl, hcs⟩
      exact ⟨cs, rfl, hcs.imp fun _ _ ht => ht.1⟩
    · refine forall_mem_partsOf fun n hn => ?_
      obtain ⟨q, hq, cs, rfl, hcs⟩ := mem_right_of_forall₂ hns n hn
      obtain ⟨hq, hown⟩ := List.mem_filter.1 ((slotsOf_perm rs s.id).mem_iff.1 hq)
      rw [← of_decide_eq_true hown] at hcs
      exact List.forall_mem_cons.2 ⟨hQ.region q hq cs (hcs.imp fun _ _ ht => ht.1), hbelow hcs⟩

theorem Local.forest {Q : Node → Prop} (hQ : Local ss rs m Q) {roots : List Node}
    (h : forest ss rs m = .ok roots) :
    List.Forall₂ StandsFor (ss.filter fun s => s.parent.isNone) roots ∧
      ∀ p ∈ Node.partsOf roots, Q p := by
  have hroots := forest_induction hQ.hereditary h
  refine ⟨hroots.imp fun _ _ hs => hs.1, forall_mem_partsOf fun n hn => ?_⟩
  obtain ⟨s, -, -, hparts⟩ := mem_right_of_forall₂ hroots n hn
  exact hparts

theorem local_shape : Local ss rs m (Shape ss rs m) where
  simple _ hs hk := .simple hs hk
  history _ hs hk := .history hs hk
  composite _ hs hk _ hns := .composite hs hk hns
  concurrent _ hs hk _ _ := .concurrent hs hk
  region _ hq _ hns := .region hq hns

theorem Shape.standsFor (h : WellNested ss rs) {p : Node} (hp : Shape ss rs m p) {s : State}
    (hs : s ∈ ss) (hid : p.stateId? = some s.id) : StandsFor s p := by
  have hunique : ∀ t ∈ ss, t.id = s.id → t = s :=
    fun t ht => List.inj_on_of_nodup_map h.distinct ht hs
  cases hp with
  | simple ht hk | history ht hk | composite ht hk _ | concurrent ht hk =>
    obtain rfl := hunique _ ht (Option.some.inj hid)
    exact ⟨rfl, rfl, by rw [hk]; rfl⟩
  | region _ _ => cases hid

end Shapes

end Nesting

namespace Assembled

variable {f : FlatChart} {c : Chart}

theorem shape (ha : Assembled f c) :
    ∀ p ∈ Node.partsOf c.roots, Nesting.Shape f.states f.regions c.nested p :=
  (Nesting.local_shape.forest ha.forest).2

theorem stateIds_perm (ha : Assembled f c) :
    ((Node.partsOf c.roots).filterMap Node.stateId?).Perm (f.states.map State.id) := by
  rw [← Node.idsOf_eq]
  exact ha.tree

theorem regionIds_perm (h : f.Sound) (ha : Assembled f c) :
    ((Node.partsOf c.roots).filterMap Node.regionId?).Perm (f.regions.map RegionSlot.id) := by
  have hholds : Nesting.HoldsRegions f.regions (Node.partsOf c.roots) := by
    refine Nesting.holdsRegions_partsOf fun n hn => ?_
    have hroots := Nesting.forest_induction (Nesting.hereditary_holdsRegions h.nested) ha.forest
    obtain ⟨s, -, hs⟩ := mem_right_of_forall₂ hroots n hn
    exact hs
  have howners : ∀ q ∈ f.regions, q.owner ∈ f.states.map State.id := by
    intro q hq
    obtain ⟨-, t, ht, hid, -⟩ := h.nested.owner q hq
    exact List.mem_map.2 ⟨t, ht, hid⟩
  have hslots : (Nesting.slotIds f.regions (f.states.map State.id)).Perm
      ((f.states.map State.id).flatMap fun x =>
        (f.regions.filter fun q => q.owner = x).map RegionSlot.id) :=
    .flatMap_left _ fun x _ => (Nesting.slotsOf_perm f.regions x).map _
  have hgroup := (flatMap_filter_perm RegionSlot.owner h.nested.distinct howners).map RegionSlot.id
  rw [List.map_flatMap] at hgroup
  exact hholds.trans ((ha.stateIds_perm.flatMap_right _).trans (hslots.trans hgroup))

theorem nodup_parts (h : f.Sound) (ha : Assembled f c) :
    ((Node.partsOf c.roots).map Node.id).Nodup := by
  rw [(Node.map_id_perm _).nodup_iff, (ha.stateIds_perm.append (ha.regionIds_perm h)).nodup_iff]
  refine h.nested.distinct.append h.nested.nodup_regions fun x hx hx' => ?_
  obtain ⟨s, hs, rfl⟩ := List.mem_map.1 hx
  obtain ⟨q, hq, hid⟩ := List.mem_map.1 hx'
  exact h.nested.region_ne hq hs hid

theorem exists_part (h : f.Sound) (ha : Assembled f c) {s : State} (hs : s ∈ f.states) :
    ∃ p ∈ Node.partsOf c.roots, Nesting.StandsFor s p := by
  obtain ⟨p, hp, hid⟩ :=
    List.mem_filterMap.1 (ha.stateIds_perm.mem_iff.2 (List.mem_map_of_mem hs))
  exact ⟨p, hp, (ha.shape p hp).standsFor h.nested hs hid⟩

theorem exists_region_part (h : f.Sound) (ha : Assembled f c) {q : RegionSlot}
    (hq : q ∈ f.regions) : ∃ p ∈ Node.partsOf c.roots, p.regionId? = some q.id :=
  List.mem_filterMap.1 ((ha.regionIds_perm h).mem_iff.2 (List.mem_map_of_mem hq))

end Assembled

end Statechart
