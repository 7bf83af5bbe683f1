import Mathlib
import Statechart.Proofs.Arcs

namespace Statechart

namespace Dot

section Reading

variable {c : Chart} {style : Style} {around : List String}

/-- The name of the scope that a statement opens, which is none for the graph itself. -/
def Said.opens? : Said → Option (Option String)
  | graph _ => some none
  | cluster name => some (some name)
  | node _ | edge _ _ | other | close => none

def saidAfter (c : Chart) (d : Said) : List Said :=
  (c.starts.filter fun e => d.opens? = some (e.1.map clusterId)).flatMap saidOf

theorem saidAfter_said (c : Chart) (r : Row) :
    saidAfter c r.statement.said = (startsAfter c r).flatMap saidOf := by
  have hopens : r.statement.said.opens? = r.opened?.map (Option.map clusterId) := by
    obtain ⟨depth, s⟩ := r
    cases s <;> rfl
  refine congrArg (List.flatMap saidOf) (List.filter_congr fun e _ => decide_eq_decide.2 ?_)
  rw [hopens]
  exact (Option.map_injective (Option.map_injective clusterId_injective)).eq_iff (a := r.opened?)
    (b := some e.1)

theorem saidAfter_eq_nil {d : Said} (h : d.opens? = none) : saidAfter c d = [] := by
  simp [saidAfter, h]

theorem map_said_marked (h : Drawable c) (ht : OneLine style.title) :
    (statementsOf (Text.joined "\n" (markedLines c (rows c style)) ++ "\n")).map said =
      (saidBy (rows c style)).flatMap fun d => d :: saidAfter c d := by
  rw [statementsOf_markedLines c ht, List.map_flatMap, saidBy, List.flatMap_map]
  refine List.flatMap_congr fun r hr => ?_
  rw [List.map_cons, said_unreturned_rows h ht r hr, said_markersAfter, saidAfter_said]

theorem placed_saidAfter (around : List String) (d : Said) (ss : List Said) :
    placed around (saidAfter c d ++ ss) =
      (placed around ss).map ((saidAfter c d).map (Placed.mk around) ++ ·) := by
  rw [saidAfter]
  induction c.starts.filter fun e => d.opens? = some (e.1.map clusterId) with
  | nil => simp
  | cons e es ih =>
    rw [List.flatMap_cons, List.append_assoc, saidOf, List.cons_append, List.singleton_append, placed,
      placed, ih]
    simp [Function.comp_def]

def Placed.inner (p : Placed) : List String :=
  p.around ++ p.said.cluster?.toList

def marked (c : Chart) (p : Placed) : List Placed :=
  p :: (saidAfter c p.said).map (Placed.mk p.inner)

theorem marked_eq {p : Placed} (h : p.said.opens? = none) : marked c p = [p] := by
  rw [marked, saidAfter_eq_nil h, List.map_nil]

theorem placed_marked (around : List String) (ss : List Said) :
    placed around (ss.flatMap fun d => d :: saidAfter c d) =
      (placed around ss).map fun ps => ps.flatMap (marked c) := by
  induction ss generalizing around with
  | nil => rfl
  | cons d ss ih =>
    rw [List.flatMap_cons, List.cons_append]
    cases d with
    | graph title => rfl
    | other =>
      rw [saidAfter_eq_nil rfl, List.nil_append, placed, placed]
      exact ih around
    | close =>
      have hempty : (ss.flatMap fun d => d :: saidAfter c d) = [] ↔ ss = [] := by
        cases ss <;> simp
      rw [saidAfter_eq_nil rfl, List.nil_append, placed, placed, ih]
      split
      · simp only [hempty]
        split <;> rfl
      · rfl
    | cluster name =>
      rw [placed, placed, placed_saidAfter, ih, Option.map_map, Option.map_map, Option.map_map]
      refine congrArg (Option.map · _) (funext fun ps => ?_)
      simp [marked, Placed.inner, Said.cluster?]
    | node name | edge source target =>
      rw [saidAfter_eq_nil rfl, List.nil_append, placed, placed, ih, Option.map_map, Option.map_map]
      refine congrArg (Option.map · _) (funext fun ps => ?_)
      exact (congrArg (· ++ ps.flatMap (marked c)) (marked_eq rfl)).symm

def markedPlaces (c : Chart) (style : Style) : List Placed :=
  (saidAfter c (.graph style.title)).map (Placed.mk []) ++
    (placesOf [] c.roots ++ c.transitions.map edgePlace).flatMap (marked c)

theorem readGraph_marked (h : Drawable c) (ht : OneLine style.title) :
    readGraph (Text.joined "\n" (markedLines c (rows c style)) ++ "\n") =
      some (style.title, markedPlaces c style) := by
  have hrows : saidBy (rows c style) = .graph style.title :: saidBy (rows c style).tail := rfl
  have hplain := readGraph_layout c style
  rw [readGraph, layout, map_said_textOf (legible_rows c style), ← saidBy, hrows] at hplain
  obtain ⟨ps, hps, hread⟩ := Option.map_eq_some_iff.1 hplain
  obtain rfl := congrArg Prod.snd hread
  rw [readGraph, map_said_marked h ht, hrows, List.flatMap_cons, List.cons_append]
  simp only [placed_saidAfter, placed_marked, hps, Option.map_some, markedPlaces]

end Reading

end Dot

namespace Chart

open Dot

variable {c : Chart} {style : Style} {f : FlatChart} {s t : State} {x : NodeId}

def Around (c : Chart) (scope : Option NodeId) (names : List String) : Prop :=
  ∀ x ∈ c.clusterIds, clusterId x ∈ names ↔ ∃ a, scope = some a ∧ (a = x ∨ a.inside x)

theorem around_none : c.Around none [] := by
  simp [Around]

theorem Surrounds.around {ids : List NodeId} (h : c.Surrounds ids x) :
    c.Around (some x) (ids.map clusterId ++ [clusterId x]) := by
  intro y hy
  rw [List.mem_append, List.mem_map_of_injective clusterId_injective, h.members, List.mem_singleton,
    clusterId_injective.eq_iff, and_iff_right hy, or_comm, eq_comm (a := y)]
  exact ⟨fun hxy => ⟨x, rfl, hxy⟩, fun ⟨a, ha, hxy⟩ => Option.some.inj ha ▸ hxy⟩

theorem Surrounds.mem_around (hd : (c.states.map State.id).Nodup) (hs : s ∈ c.states)
    (ht : t ∈ c.states) (hk : t.kind.nests) (hx : t.id ∈ c.clusterIds) {ids : List NodeId}
    (h : c.Surrounds ids s.id) :
    clusterId t.id ∈ (if s.kind.nests then ids ++ [s.id] else ids).map clusterId ↔
      s = t ∨ s.id.inside t.id := by
  rw [List.mem_map_of_injective clusterId_injective]
  by_cases hst : s = t
  · subst hst
    simp [hk]
  · have hid : t.id ≠ s.id := fun he => hst (List.inj_on_of_nodup_map hd hs ht he.symm)
    split <;> simp [h.members, hx, hst, hid]

inductive InMarked (c : Chart) : Placed → Prop
  | row {p : Placed} (h : c.InPlace p) : InMarked c p
  | edge {t : Transition} (ht : t ∈ c.transitions) : InMarked c (edgePlace t)
  | marker {e : Option NodeId × NodeId} {d : Dot.Said} {names : List String} (he : e ∈ c.starts)
      (hd : d ∈ saidOf e) (h : c.Around e.1 names) : InMarked c ⟨names, d⟩

theorem inMarked_of_saidAfter {names : List String} {d d' : Dot.Said}
    (h : ∀ scope, d.opens? = some (scope.map clusterId) → c.Around scope names)
    (hd : d' ∈ saidAfter c d) : c.InMarked ⟨names, d'⟩ := by
  obtain ⟨e, he, hd⟩ := List.mem_flatMap.1 hd
  obtain ⟨he, hopens⟩ := List.mem_filter.1 he
  exact .marker he hd (h e.1 (by simpa using hopens))

theorem inMarked (hf : f.Sound) (ha : Assembled f c) (style : Style) :
    ∀ p ∈ markedPlaces c style, c.InMarked p := by
  refine List.forall_mem_append.2 ⟨List.forall_mem_map.2 fun d hd => ?_, fun p hp => ?_⟩
  · refine inMarked_of_saidAfter (fun scope hscope => ?_) hd
    cases scope with
    | none => exact around_none
    | some a => cases hscope
  · obtain ⟨q, hq, hp⟩ := List.mem_flatMap.1 hp
    rcases List.mem_append.1 hq with hq | hq
    · have hplace := inPlace_roots hf ha q hq
      rcases List.mem_cons.1 hp with rfl | hp
      · exact .row hplace
      · obtain ⟨d, hd, rfl⟩ := List.mem_map.1 hp
        refine inMarked_of_saidAfter (fun scope hscope => ?_) hd
        cases hplace with
        | node => cases hscope
        | @cluster x ids hx hids =>
          cases scope with
          | none => cases hscope
          | some a =>
            obtain rfl := clusterId_injective (Option.some.inj (Option.some.inj hscope))
            exact hids.around
    · obtain ⟨t, ht, rfl⟩ := List.mem_map.1 hq
      rw [marked_eq rfl, List.mem_singleton] at hp
      exact hp ▸ .edge ht

end Chart

namespace Dot

section Drawn

variable {c : Chart} {style : Style} {f : FlatChart} {s t : State}

def Said.nodes : Said → List String
  | node name => [name]
  | edge source target => [source, target]
  | graph _ | cluster _ | other | close => []

def Drawn (ps : List Placed) (cluster name : String) : Prop :=
  ∃ p ∈ ps, cluster ∈ p.around ∧ name ∈ p.said.nodes

theorem mem_nodes_of_saidOf {e : Option NodeId × NodeId} {d : Said} (hd : d ∈ saidOf e)
    {name : String} (h : name ∈ d.nodes) : name = markerNode e.1 ∨ name = e.2.path := by
  simp only [saidOf, List.mem_cons, List.not_mem_nil, or_false] at hd
  rcases hd with rfl | rfl
  · exact .inl (List.mem_singleton.1 h)
  · simpa [Said.nodes] using h

theorem ne_markerNode (hfree : ∀ s ∈ c.states, s.id.path ∉ markerNames c) (hs : s ∈ c.states)
    {e : Option NodeId × NodeId} (he : e ∈ c.starts) : s.id.path ≠ markerNode e.1 :=
  fun heq => hfree s hs (heq ▸ List.mem_map_of_mem he)

theorem drawn_state (hf : f.Sound) (ha : Assembled f c)
    (hfree : ∀ s ∈ c.states, s.id.path ∉ markerNames c) (hs : s ∈ c.states) (ht : t ∈ c.states)
    (hk : t.kind.nests) : Drawn (markedPlaces c style) (clusterId t.id) s.id.path ↔
      s = t ∨ s.id.inside t.id := by
  have hw := ha.wellFormed hf
  have hx := Chart.mem_clusterIds_of_nests ha (ha.states ▸ ht) hk
  constructor
  · rintro ⟨p, hp, hin, hname⟩
    cases Chart.inMarked hf ha style p hp with
    | row h =>
      cases h with
      | cluster => cases hname
      | @node u ids hu hids =>
        have hid : s.id = u.id := congrArg NodeId.mk (List.mem_singleton.1 hname)
        obtain rfl := List.inj_on_of_nodup_map hw.distinct hs hu hid
        exact (hids.mem_around hw.distinct hs ht hk hx).1 hin
    | edge => cases hin
    | @marker e d names he hd har =>
      obtain ⟨a, hscope, hat⟩ := (har t.id hx).1 hin
      obtain ⟨u, hu, huid, huscope⟩ := hw.scope_of_start he
      have hpath := (mem_nodes_of_saidOf hd hname).resolve_left (ne_markerNode hfree hs he)
      have hid : s.id = u.id := huid ▸ congrArg NodeId.mk hpath
      obtain rfl := List.inj_on_of_nodup_map hw.distinct hs hu hid
      exact .inr ((hf.nested.inside_iff_scope (ha.states ▸ hs)).2 ⟨a, huscope.trans hscope, hat⟩)
  · intro h
    obtain ⟨ids, hids, hfilter⟩ := (mirrors hf ha).nodes s hs
    have hp := List.mem_of_mem_filter (hfilter ▸ List.mem_singleton_self _)
    refine ⟨_, List.mem_append_right _ (List.mem_flatMap.2 ⟨_, hp, List.mem_cons_self⟩), ?_,
      List.mem_singleton_self _⟩
    exact (hids.mem_around hw.distinct hs ht hk hx).2 h

theorem not_drawn_marker (hf : f.Sound) (ha : Assembled f c)
    (hfree : ∀ s ∈ c.states, s.id.path ∉ markerNames c) {e : Option NodeId × NodeId}
    (he : e ∈ c.starts) (ht : t ∈ c.states) (hid : t.id = e.2) (hk : t.kind.nests) :
    ¬Drawn (markedPlaces c style) (clusterId t.id) (markerNode e.1) := by
  have hw := ha.wellFormed hf
  have hx := Chart.mem_clusterIds_of_nests ha (ha.states ▸ ht) hk
  rintro ⟨p, hp, hin, hname⟩
  cases Chart.inMarked hf ha style p hp with
  | row h =>
    cases h with
    | cluster => cases hname
    | @node u ids hu hids => exact ne_markerNode hfree hu he (List.mem_singleton.1 hname).symm
  | edge => cases hin
  | @marker e' d names he' hd har =>
    obtain ⟨a, hscope, hat⟩ := (har t.id hx).1 hin
    obtain ⟨u, hu, huid, huscope⟩ := hw.scope_of_start he
    obtain ⟨u', hu', huid', -⟩ := hw.scope_of_start he'
    rcases mem_nodes_of_saidOf hd hname with hsame | htarget
    · have hnamed := named_starts (hw.named_nested (ha.states ▸ hf.names))
      have hscopes := markerNode_inj (hnamed e he) (hnamed e' he') hsame
      have hself : u.id.inside t.id :=
        (hf.nested.inside_iff_scope (ha.states ▸ hu)).2 ⟨a, huscope.trans (hscopes.trans hscope), hat⟩
      rw [huid, hid, History.inside_self] at hself
      cases hself
    · exact ne_markerNode hfree hu' he (huid' ▸ htarget.symm)

end Drawn

section Borders

variable {c : Chart} {style : Style} {f : FlatChart} {s t : State} {cluster : String}

def IsBorder (c : Chart) (ps : List Placed) (own other cluster : String) : Prop :=
  ∃ t ∈ c.states, t.kind.nests ∧ t.id.path = own ∧ clusterId t.id = cluster ∧
    ¬Drawn ps cluster other

theorem nests_id (hd : (c.states.map State.id).Nodup) (ht : t ∈ c.states) :
    c.nests t.id = t.kind.nests := by
  have hfind : c.state? t.id = some t := by
    rw [Chart.state?, ← List.head?_filter, filter_key_eq hd ht, List.head?_cons]
  rw [Chart.nests, hfind]
  rfl

theorem isBorder_state (hd : (c.states.map State.id).Nodup) (ht : t ∈ c.states) {ps : List Placed}
    {other : String} : IsBorder c ps t.id.path other cluster ↔
      t.kind.nests ∧ clusterId t.id = cluster ∧ ¬Drawn ps cluster other := by
  constructor
  · rintro ⟨u, hu, hk, hpath, h⟩
    obtain rfl := List.inj_on_of_nodup_map hd hu ht (congrArg NodeId.mk hpath)
    exact ⟨hk, h⟩
  · exact fun ⟨hk, h⟩ => ⟨t, ht, hk, rfl, h⟩

theorem cutAt_iff (hf : f.Sound) (ha : Assembled f c)
    (hfree : ∀ s ∈ c.states, s.id.path ∉ markerNames c) (hs : s ∈ c.states) (ht : t ∈ c.states) :
    (cutAt c t.id s.id).map clusterId = some cluster ↔
      IsBorder c (markedPlaces c style) t.id.path s.id.path cluster := by
  have hd := (ha.wellFormed hf).distinct
  rw [isBorder_state hd ht, cutAt, nests_id hd ht]
  constructor
  · intro h
    obtain ⟨id, hcut, rfl⟩ := Option.map_eq_some_iff.1 h
    split at hcut
    · rename_i hcond
      obtain ⟨hne, hk, hout⟩ := hcond
      cases hcut
      refine ⟨hk, rfl, ?_⟩
      rw [drawn_state hf ha hfree hs ht hk]
      rintro (rfl | hin)
      · exact hne rfl
      · rw [hin] at hout
        cases hout
    · cases hcut
  · rintro ⟨hk, rfl, hout⟩
    rw [drawn_state hf ha hfree hs ht hk, not_or] at hout
    obtain ⟨hne, hout⟩ := hout
    have hid : t.id ≠ s.id := fun he => hne (List.inj_on_of_nodup_map hd hs ht he.symm)
    rw [if_pos ⟨hid, hk, by simpa using hout⟩]
    rfl

theorem markerArc_iff (hf : f.Sound) (ha : Assembled f c)
    (hfree : ∀ s ∈ c.states, s.id.path ∉ markerNames c) {e : Option NodeId × NodeId}
    (he : e ∈ c.starts) : (markerArc c e).head = some cluster ↔
      IsBorder c (markedPlaces c style) e.2.path (markerNode e.1) cluster := by
  have hw := ha.wellFormed hf
  obtain ⟨u, hu, huid, -⟩ := hw.scope_of_start he
  rw [markerArc, ← huid, isBorder_state hw.distinct hu]
  dsimp only
  rw [nests_id hw.distinct hu]
  constructor
  · intro h
    split at h
    · rename_i hk
      cases h
      exact ⟨hk, rfl, not_drawn_marker hf ha hfree he hu huid hk⟩
    · cases h
  · rintro ⟨hk, rfl, -⟩
    exact if_pos hk

end Borders

structure Clipped (c : Chart) (dot : String) (ps : List Placed) : Prop where
  edges : ((arcs dot).map Arc.ends).Perm
    (c.transitions.map (fun t => (t.source.path, t.target.path)) ++
      c.starts.map fun e => (markerNode e.1, e.2.path))
  nodes : ∀ a ∈ arcs dot, ∀ name ∈ [a.source, a.target],
    (ps.map Placed.said).count (.node name) = 1
  tail : ∀ a ∈ arcs dot, ∀ cluster,
    a.tail = some cluster ↔ IsBorder c ps a.source a.target cluster
  head : ∀ a ∈ arcs dot, ∀ cluster,
    a.head = some cluster ↔ IsBorder c ps a.target a.source cluster

section Counted

def Said.isPlaced : Said → Bool
  | cluster _ | node _ | edge _ _ => true
  | graph _ | other | close => false

theorem map_said_placed {around : List String} {ss : List Said} {ps : List Placed}
    (h : placed around ss = some ps) : ps.map Placed.said = ss.filter Said.isPlaced := by
  induction ss generalizing around ps with
  | nil => cases h
  | cons d ss ih =>
    cases d with
    | graph title => cases h
    | other => exact ih h
    | close =>
      rw [placed] at h
      split at h
      · split at h
        · rename_i hss
          cases h
          rw [hss]
          rfl
        · cases h
      · exact ih h
    | cluster name | node name | edge source target =>
      obtain ⟨qs, hqs, rfl⟩ := Option.map_eq_some_iff.1 h
      exact congrArg _ (ih hqs)

theorem readGraph_cases {dot title : String} {ps : List Placed}
    (h : readGraph dot = some (title, ps)) : ∃ ss,
      (statementsOf dot).map said = .graph title :: ss ∧ placed [] ss = some ps := by
  unfold readGraph at h
  split at h
  · rename_i heq
    obtain ⟨qs, hqs, hread⟩ := Option.map_eq_some_iff.1 h
    cases hread
    exact ⟨_, heq, hqs⟩
  · cases h

theorem count_said {dot title : String} {ps : List Placed} (h : readGraph dot = some (title, ps))
    (name : String) : (ps.map Placed.said).count (.node name) = (nodeNames dot).count name := by
  obtain ⟨ss, hss, hps⟩ := readGraph_cases h
  have hnames : nodeNames dot = ss.filterMap Said.node? := by
    rw [nodeNames, ← Function.comp_def, ← List.filterMap_map, hss]
    rfl
  rw [map_said_placed hps, List.count_filter rfl, hnames, List.count_filterMap, List.count]
  refine List.countP_congr fun d _ => ?_
  cases d <;> simp [Said.node?]

end Counted

section Marked

variable {c : Chart} {style : Style} {f : FlatChart} {dot : String}

theorem Marked.count_node (hf : f.Sound) (ha : Assembled f c) (ht : OneLine style.title)
    (hfree : ∀ s ∈ c.states, s.id.path ∉ markerNames c) (h : Marked c style dot) {name : String}
    (hname : name ∈ markerNames c ++ c.states.map fun s => s.id.path) :
    (nodeNames dot).count name = 1 := by
  have hdeclares := ha.declares hf ht h
  exact List.count_eq_one_of_mem (hdeclares.distinct.2 hfree) (hdeclares.nodes.mem_iff.2 hname)

theorem Marked.clipped (hf : f.Sound) (ha : Assembled f c) (ht : OneLine style.title)
    (hlabels : ∀ t ∈ c.transitions, OneLine t.label.text)
    (hfree : ∀ s ∈ c.states, s.id.path ∉ markerNames c) (h : Marked c style dot) :
    readGraph dot = some (style.title, markedPlaces c style) ∧
      Clipped c dot (markedPlaces c style) := by
  have hd := ha.drawable hf
  have hw := ha.wellFormed hf
  have hread : readGraph dot = some (style.title, markedPlaces c style) :=
    h.text ▸ readGraph_marked hd ht
  have hperm : (arcs dot).Perm (c.transitions.map (edgeArc c) ++ c.starts.map (markerArc c)) :=
    h.text ▸ arcs_perm hd ht hlabels
  -- what is claimed of every edge is claimed of the two kinds of them
  have hall : ∀ {P : Arc → Prop}, (∀ t ∈ c.transitions, P (edgeArc c t)) →
      (∀ e ∈ c.starts, P (markerArc c e)) → ∀ a ∈ arcs dot, P a := by
    intro P hedge hmarker a ha
    exact List.forall_mem_append.2 ⟨List.forall_mem_map.2 hedge, List.forall_mem_map.2 hmarker⟩ a
      (hperm.mem_iff.1 ha)
  refine ⟨hread, ?_⟩
  constructor
  case edges =>
    have hends := hperm.map Arc.ends
    rwa [List.map_append, List.map_map, List.map_map] at hends
  case nodes =>
    have hstate : ∀ {id : NodeId}, (∃ s ∈ c.states, s.id = id) →
        ((markedPlaces c style).map Placed.said).count (.node id.path) = 1 := by
      rintro id ⟨s, hs, rfl⟩
      rw [count_said hread, h.count_node hf ha ht hfree]
      exact List.mem_append_right _ (List.mem_map_of_mem hs)
    have hmarker : ∀ e ∈ c.starts,
        ((markedPlaces c style).map Placed.said).count (.node (markerNode e.1)) = 1 := by
      intro e he
      rw [count_said hread, h.count_node hf ha ht hfree]
      exact List.mem_append_left _ (List.mem_map_of_mem he)
    refine hall (fun t ht => ?_) fun e he => ?_
    · obtain ⟨hsource, htarget⟩ := hw.ends t ht
      exact List.forall_mem_cons.2 ⟨hstate hsource, List.forall_mem_singleton.2 (hstate htarget)⟩
    · obtain ⟨u, hu, huid, -⟩ := hw.scope_of_start he
      exact List.forall_mem_cons.2 ⟨hmarker e he, List.forall_mem_singleton.2 (hstate ⟨u, hu, huid⟩)⟩
  case tail =>
    refine hall (fun t ht cluster => ?_) fun e he cluster => ?_
    · obtain ⟨⟨s, hs, hsource⟩, u, hu, htarget⟩ := hw.ends t ht
      rw [edgeArc, ← hsource, ← htarget]
      exact cutAt_iff hf ha hfree hu hs
    · refine iff_of_false nofun ?_
      rintro ⟨u, hu, -, hpath, -⟩
      exact ne_markerNode hfree hu he hpath
  case head =>
    refine hall (fun t ht cluster => ?_) fun e he cluster => ?_
    · obtain ⟨⟨s, hs, hsource⟩, u, hu, htarget⟩ := hw.ends t ht
      rw [edgeArc, ← hsource, ← htarget]
      exact cutAt_iff hf ha hfree hs hu
    · exact markerArc_iff hf ha hfree he

end Marked

end Dot

end Statechart
