import Mathlib
import Statechart.Proofs.Descent
import Statechart.Proofs.Graph
import Statechart.Proofs.Views

namespace Statechart

namespace Dot

def Said.node? : Said → Option String
  | node name => some name
  | graph _ | cluster _ | edge _ _ | other | close => none

def nodeNames (dot : String) : List String :=
  (statementsOf dot).filterMap fun s => (said s).node?

def markerNames (c : Chart) : List String :=
  c.starts.map fun e => markerNode e.1

section Lines

variable {m : Mode} {cs a p : List Char} {s : String}

def unreturned (s : String) : String :=
  String.ofList (Text.join '\n' ((Text.split '\n' s.toList).map Text.chop))

theorem feed_append (ss ts : List String) : feed (ss ++ ts) = feed ss ++ feed ts := by
  induction ss with
  | nil => exact (String.empty_append).symm
  | cons s ss ih => simp only [List.cons_append, feed, ih, String.append_assoc]

theorem feed_joined {ls : List String} (hne : ls ≠ []) : Text.joined "\n" ls ++ "\n" = feed ls := by
  induction ls with
  | nil => exact absurd rfl hne
  | cons l ls ih =>
    cases ls with
    | nil => exact (String.append_empty).symm
    | cons k ks =>
      rw [Text.joined, String.append_assoc, ih (by simp)]
      rfl

theorem feed_pieces {ps : List (List Char)} (hne : ps ≠ []) :
    feed (ps.map String.ofList) = feed [String.ofList (Text.join '\n' ps)] := by
  induction ps with
  | nil => exact absurd rfl hne
  | cons p ps ih =>
    cases ps with
    | nil => rfl
    | cons q qs =>
      rw [List.map_cons, feed, ih (by simp)]
      simp [feed, Text.join, ← String.toList_inj]

theorem feed_lines (r : Row) : feed r.lines = feed [unreturned r.text] := by
  rw [Row.lines, linesOf_terminated, unreturned]
  exact feed_pieces (by simp [Text.split_ne_nil])

/-- A whole text against the one without the carriage returns of its line ends: they agree but for
    the ends themselves, and each end stands in quotes. -/
theorem unreturned_induction {P : Mode → List Char → List Char → Prop}
    (last : ∀ m cs, scan m cs = some .plain → P m cs cs)
    (cut : ∀ m k a b b', scan m (Text.chop a) = some k → k ≠ .plain →
      scan m (a ++ '\n' :: b) = some .plain → P .quoted b b' →
      P m (a ++ '\n' :: b) (Text.chop a ++ '\n' :: b'))
    (h : scan m cs = some .plain) :
    P m cs (Text.join '\n' ((Text.split '\n' cs).map Text.chop)) := by
  induction cs using Text.pieces_induction '\n' generalizing m with
  | last cs hcs =>
    rw [Text.split_of_notMem hcs, List.map_singleton, Text.join, chop_of_scan h]
    exact last m cs h
  | cut a b ha ih =>
    obtain ⟨k, hk, hne, hb⟩ := exists_cut h
    rw [Text.join_map_split_cut _ ha]
    exact cut m k a b _ hk hne h (ih hb)

theorem scan_unreturned (h : scan m cs = some .plain) :
    scan m (Text.join '\n' ((Text.split '\n' cs).map Text.chop)) = some .plain := by
  refine unreturned_induction (P := fun m _ w => scan m w = some .plain) (fun _ _ h => h)
    (fun m k a b b' hk hne _ ih => ?_) h
  rw [scan_append, hk, Option.bind_some, scan_feed hne, ih]

theorem whole_unreturned (h : Whole s) : Whole (unreturned s) := by
  rw [Whole, unreturned, String.toList_ofList]
  exact scan_unreturned h

theorem chop_append (ha : Text.chop a = a) : Text.chop (a ++ p) = a ++ Text.chop p := by
  rcases List.eq_nil_or_concat' p with rfl | ⟨q, c, rfl⟩
  · simpa [Text.chop] using ha
  · by_cases hc : c = '\r'
    · simp [Text.chop, hc]
    · rw [← List.append_assoc, Text.chop_concat hc, Text.chop_concat hc, List.append_assoc]

theorem unreturned_append {front : String} (hone : OneLine front) (hw : Whole front)
    (rest : String) : unreturned (front ++ rest) = front ++ unreturned rest := by
  obtain ⟨p, ps, hps⟩ := List.exists_cons_of_ne_nil (Text.split_ne_nil '\n' rest.toList)
  have hsplit : (Text.split '\n' (front ++ rest).toList).map Text.chop =
      (front.toList ++ Text.chop p) :: ps.map Text.chop := by
    rw [String.toList_append, Text.split_append_left hone, hps, List.modifyHead_cons, List.map_cons,
      chop_append (chop_of_scan hw)]
  rw [unreturned, hsplit, unreturned, hps, List.map_cons, ← String.toList_inj]
  cases ps <;> simp [Text.join]

theorem unreturned_of_oneLine (hone : OneLine s) (hw : Whole s) : unreturned s = s := by
  have h := unreturned_append hone hw ""
  rwa [String.append_empty, show unreturned "" = "" from rfl, String.append_empty] at h

end Lines

section Rows

variable {c : Chart} {style : Style} {r : Row}

theorem Statement.oneLine_front {s : Statement} (h : s.Tidy) : OneLine s.front := by
  cases s with
  | openGraph title => exact h.elim
  | setting text => exact h.1
  | openCluster id =>
    have hid : OneLine id.path := h
    simp +decide [front, clusterId, hid]
  | caption => exact (by decide : OneLine "label=")
  | close => decide
  | anchor id | node id | historyNode id =>
    have hid : OneLine id.path := h
    simp +decide [front, hid]
  | edge source target => simp +decide [front, h.1, h.2.1]

theorem Statement.whole_front {s : Statement} (h : ∀ text, s ≠ .setting text) : Whole s.front := by
  cases s with
  | setting text => exact absurd rfl (h text)
  | openGraph | openCluster => exact whole_append (by decide) (whole_quote _)
  | caption => exact (by decide : Whole "label=")
  | close => decide
  | anchor | node | historyNode => exact whole_append (whole_quote _) (by decide)
  | edge =>
    exact whole_append (whole_append (whole_quote _) (by decide)) (whole_quote _)

theorem said_unreturned (hr : r.Legible) (h : OneLine r.text ∨ r.statement.Tidy) :
    said (unreturned r.text) = r.statement.said := by
  by_cases hone : OneLine r.text
  · rw [unreturned_of_oneLine hone hr.whole, hr.said]
  · have htidy := h.resolve_left hone
    have hsetting : ∀ text, r.statement ≠ .setting text := by
      intro text hs
      rw [hs] at htidy
      refine hone ?_
      rw [Row.text, hs]
      exact oneLine_append.2 ⟨oneLine_indent r.depth, htidy.1⟩
    obtain ⟨rest, htext⟩ := r.statement.exists_text
    have hfront : r.text = indent r.depth ++ r.statement.front ++ rest := by
      rw [Row.text, htext, String.append_assoc]
    rw [hfront, unreturned_append
      (oneLine_append.2 ⟨oneLine_indent r.depth, Statement.oneLine_front htidy⟩)
      (whole_append (whole_indent r.depth) (Statement.whole_front hsetting)), String.append_assoc]
    exact said_front (fun text hs => absurd hs (hsetting text)) r.depth (unreturned rest)

theorem said_unreturned_rows (h : Drawable c) (ht : OneLine style.title) :
    ∀ r ∈ rows c style, said (unreturned r.text) = r.statement.said := by
  intro r hr
  refine said_unreturned (legible_rows c style r hr) ?_
  rcases List.mem_cons.1 (show r ∈ ⟨0, .openGraph style.title⟩ :: (rows c style).tail from hr)
    with rfl | hr
  · refine .inl (oneLine_append.2 ⟨oneLine_indent 0, ?_⟩)
    simp +decide [Statement.text, ht]
  · exact .inr (tidy_inside h style r hr)

def startsAfter (c : Chart) (r : Row) : List (Option NodeId × NodeId) :=
  c.starts.filter fun e => r.opened? = some e.1

theorem markersAfter_eq (c : Chart) (r : Row) : markersAfter c r =
    (startsAfter c r).flatMap fun e => linesOfMarker c r.inset e.1 e.2 := by
  obtain ⟨depth, s⟩ := r
  cases s with
  | openGraph title =>
    simp [markersAfter, startsAfter, Row.opened?, Row.inset, Chart.starts, List.filter_map,
      linesOfMarker_eq]
  | openCluster id =>
    have hnested : (c.nested.filter fun e => id = e.1) = c.nested.filter fun e => e.1 = id := by
      simp only [eq_comm]
    simp [markersAfter, startsAfter, Row.opened?, Row.inset, Chart.starts, List.filter_map,
      List.flatMap_map, Function.comp_def, hnested, linesOfMarker_eq]
  | setting | caption | anchor | node | historyNode | edge | close =>
    simp [markersAfter, startsAfter, Row.opened?]

theorem exists_inset (r : Row) : ∃ n, r.inset = indent n := by
  unfold Row.inset
  split
  · exact ⟨1, rfl⟩
  · exact ⟨_, rfl⟩

def saidOf (start : Option NodeId × NodeId) : List Said :=
  [.node (markerNode start.1), .edge (markerNode start.1) start.2.path]

theorem said_linesOfMarker (n : Nat) (scope : Option NodeId) (target : NodeId) :
    (linesOfMarker c (indent n) scope target).map said = saidOf (scope, target) := by
  have hnode := said_front (s := .anchor ⟨markerNode scope⟩) (fun text hs => by cases hs) n
  have hedge := said_front (s := .edge ⟨markerNode scope⟩ target "" none none)
    (fun text hs => by cases hs) n
  have hpoint : " [shape=point, width=0.15, label=\"\"];" =
      " [" ++ "shape=point, width=0.15, label=\"\"];" := by decide
  simp only [Statement.front, Statement.said, String.append_assoc] at hnode hedge
  simp only [linesOfMarker, hpoint, String.append_assoc, List.map_cons, List.map_nil, hnode, hedge,
    saidOf]

theorem said_markersAfter (c : Chart) (r : Row) :
    (markersAfter c r).map said = (startsAfter c r).flatMap saidOf := by
  obtain ⟨n, hn⟩ := exists_inset r
  rw [markersAfter_eq, hn, List.map_flatMap]
  simp only [said_linesOfMarker]

theorem whole_linesOfMarker (n : Nat) (scope : Option NodeId) (target : NodeId) :
    ∀ l ∈ linesOfMarker c (indent n) scope target, Whole l := by
  have hmarker : Whole (indent n ++ quote (markerNode scope)) :=
    whole_append (whole_indent n) (whole_quote _)
  have hhead : Whole
      (if c.nests target then " [lhead=" ++ quote (clusterId target) ++ "]" else "") := by
    split
    · exact whole_append (whole_append (by decide) (whole_quote _)) (by decide)
    · decide
  have hedge : Whole (indent n ++ quote (markerNode scope) ++ " -> " ++ quote target.path) :=
    whole_append (whole_append hmarker (by decide)) (whole_quote _)
  exact List.forall_mem_cons.2 ⟨whole_append hmarker (by decide), List.forall_mem_singleton.2
    (whole_append (whole_append hedge hhead) (by decide))⟩

theorem whole_markersAfter (c : Chart) (r : Row) : ∀ l ∈ markersAfter c r, Whole l := by
  obtain ⟨n, hn⟩ := exists_inset r
  rw [markersAfter_eq, hn]
  intro l hl
  obtain ⟨e, -, hl⟩ := List.mem_flatMap.1 hl
  exact whole_linesOfMarker n e.1 e.2 l hl

theorem nodes_markersAfter (c : Chart) (r : Row) :
    ((markersAfter c r).filterMap fun l => (said l).node?) =
      (startsAfter c r).map fun e => markerNode e.1 := by
  have hmarker : ∀ e, (saidOf e).filterMap Said.node? = [markerNode e.1] := fun _ => rfl
  rw [← Function.comp_def, ← List.filterMap_map, said_markersAfter, List.filterMap_flatMap]
  simp only [hmarker]
  exact List.map_eq_flatMap.symm

theorem feed_markedLines (c : Chart) (rs : List Row) : feed (markedLines c rs) =
    feed (rs.flatMap fun r => unreturned r.text :: markersAfter c r) := by
  induction rs with
  | nil => rfl
  | cons r rs ih =>
    rw [markedLines, List.flatMap_cons, List.flatMap_cons, feed_append, feed_append, feed_lines,
      ← markedLines, ih, ← feed_append, ← feed_append]
    rfl

theorem statementsOf_markedLines (c : Chart) (ht : OneLine style.title) :
    statementsOf (Text.joined "\n" (markedLines c (rows c style)) ++ "\n") =
      (rows c style).flatMap fun r => unreturned r.text :: markersAfter c r := by
  have hne : markedLines c (rows c style) ≠ [] := by
    rw [markedLines_rows c ht]
    exact List.cons_ne_nil _ _
  rw [feed_joined hne, feed_markedLines, statementsOf_feed]
  intro l hl
  obtain ⟨r, hr, hl⟩ := List.mem_flatMap.1 hl
  rcases List.mem_cons.1 hl with rfl | hl
  · exact whole_unreturned (legible_rows c style r hr).whole
  · exact whole_markersAfter c r l hl

theorem nodeNames_markedLines (h : Drawable c) (ht : OneLine style.title) :
    nodeNames (Text.joined "\n" (markedLines c (rows c style)) ++ "\n") =
      (rows c style).flatMap fun r => r.statement.said.node?.toList ++
        (startsAfter c r).map fun e => markerNode e.1 := by
  rw [nodeNames, statementsOf_markedLines c ht, List.filterMap_flatMap]
  refine List.flatMap_congr fun r hr => ?_
  rw [List.filterMap_cons, said_unreturned_rows h ht r hr, nodes_markersAfter]
  cases r.statement.said.node? <;> rfl

theorem opened?_rows (h : Drawable c) (style : Style) : (rows c style).filterMap Row.opened? =
    none :: ((Node.partsOf c.roots).filterMap Node.cluster?).map some := by
  have htail : ∀ r ∈ (rows c style).tail, r.opened? = r.cluster?.map some := by
    intro r hr
    have htidy := tidy_inside h style r hr
    obtain ⟨depth, s⟩ := r
    cases s with
    | openGraph => exact htidy.elim
    | openCluster | setting | caption | anchor | node | historyNode | edge | close => rfl
  have hrows : rows c style = ⟨0, .openGraph style.title⟩ :: (rows c style).tail := rfl
  have hclusters : (rows c style).tail.filterMap Row.cluster? =
      (Node.partsOf c.roots).filterMap Node.cluster? := (gathers_clusters c style).filterMap_rows
  have hhead : Row.opened? ⟨0, .openGraph style.title⟩ = some none := rfl
  rw [hrows, List.filterMap_cons_some hhead, List.filterMap_congr htail, ← hclusters,
    List.map_filterMap]

theorem startsAfter_perm (h : Drawable c) (style : Style) :
    ((rows c style).flatMap (startsAfter c)).Perm c.starts := by
  have hrow : ∀ r : Row, startsAfter c r = r.opened?.toList.flatMap fun k =>
      c.starts.filter fun e => e.1 = k := by
    intro r
    cases hr : r.opened? with
    | none => simp [startsAfter, hr]
    | some k => simp [startsAfter, hr, eq_comm]
  have hopened : (rows c style).flatMap (startsAfter c) =
      ((rows c style).filterMap Row.opened?).flatMap fun k => c.starts.filter fun e => e.1 = k := by
    rw [funext hrow, List.filterMap_eq_flatMap_toList, List.flatMap_assoc]
  have hnodup : ((rows c style).filterMap Row.opened?).Nodup := by
    rw [opened?_rows h, List.nodup_cons]
    exact ⟨by simp, h.distinct.map (Option.some_injective _)⟩
  rw [hopened]
  refine flatMap_filter_perm Prod.fst hnodup fun e he => ?_
  rw [opened?_rows h]
  rcases List.mem_cons.1 he with rfl | he
  · exact List.mem_cons_self
  · obtain ⟨start, hstart, rfl⟩ := List.mem_map.1 he
    exact List.mem_cons_of_mem _ (List.mem_map_of_mem (h.scopes start hstart))

theorem gathers_nodes (c : Chart) (style : Style) :
    Gathers c style (fun r => r.statement.said.node?) fun p => p.stateId?.map NodeId.path where
  own p _ := by cases p <;> rfl
  graph _ _ := rfl
  setting _ _ := rfl
  edge _ := rfl
  close _ := rfl

theorem nodes_rows (c : Chart) (style : Style) :
    ((rows c style).filterMap fun r => r.statement.said.node?) =
      (Node.idsOf c.roots).map NodeId.path := by
  rw [(gathers_nodes c style).filterMap_rows, Node.idsOf_eq, List.map_filterMap]

theorem nodeNames_perm (h : Drawable c) (ht : OneLine style.title) :
    (nodeNames (Text.joined "\n" (markedLines c (rows c style)) ++ "\n")).Perm
      (markerNames c ++ (Node.idsOf c.roots).map NodeId.path) := by
  rw [nodeNames_markedLines h ht]
  refine (List.flatMap_append_perm _ _ _).symm.trans (List.perm_append_comm.trans ?_)
  rw [← List.map_flatMap, ← List.filterMap_eq_flatMap_toList, nodes_rows]
  exact ((startsAfter_perm h style).map _).append_right _

end Rows

section Names

variable {c : Chart}

theorem prefix_of_inside {a b : NodeId} (h : a.inside b)
    (hp : markerStem.toList <+: a.path.toList) : markerStem.toList <+: b.path.toList := by
  have hslash : NodeId.separator ∉ markerStem.toList := by decide
  rw [NodeId.inside, List.isPrefixOf_iff_prefix] at h
  rcases List.prefix_or_prefix_of_prefix hp h with hstem | hstem
  · refine (List.prefix_concat_iff.1 hstem).resolve_left fun heq => ?_
    rw [heq] at hslash
    simp at hslash
  · exact absurd (hstem.subset (List.mem_append_right _ (List.mem_singleton_self _))) hslash

theorem prefix_of_mem_markerNames {name : String} (h : name ∈ markerNames c) :
    markerStem.toList <+: name.toList := by
  obtain ⟨⟨scope, target⟩, -, rfl⟩ := List.mem_map.1 h
  cases scope with
  | none => exact List.prefix_refl _
  | some id =>
    rw [markerNode, String.toList_append]
    exact List.prefix_append _ _

theorem named_starts (h : ∀ e ∈ c.nested, e.1.path ≠ "") : ∀ e ∈ c.starts, Named e.1 := by
  refine List.forall_mem_cons.2 ⟨nofun, List.forall_mem_map.2 fun e he id hid => ?_⟩
  obtain rfl := Option.some.inj hid
  exact h e he

theorem nodup_markerNames (hd : (c.nested.map Prod.fst).Nodup)
    (hnamed : ∀ e ∈ c.nested, e.1.path ≠ "") : (markerNames c).Nodup := by
  have hscopes := named_starts hnamed
  have hstarts := Chart.nodup_scopes_starts hd
  refine List.Nodup.map_on (fun e he e' he' h => ?_) (List.Nodup.of_map _ hstarts)
  exact List.inj_on_of_nodup_map hstarts he he' (markerNode_inj (hscopes e he) (hscopes e' he') h)

end Names

structure Declares (c : Chart) (dot : String) : Prop where
  nodes : (nodeNames dot).Perm (markerNames c ++ c.states.map fun s => s.id.path)
  markers : (markerNames c).Nodup
  states : (c.states.map fun s => s.id.path).Nodup
  distinct : (nodeNames dot).Nodup ↔ ∀ s ∈ c.states, s.id.path ∉ markerNames c
  reserved : ∀ s ∈ c.states, s.id.path ∈ markerNames c → ∃ t ∈ c.states, t.parent = none ∧
    (t = s ∨ s.id.inside t.id) ∧ markerStem.toList <+: t.name.toList

end Dot

theorem WellNested.exists_top {ss : List State} {slots : List RegionSlot} (h : WellNested ss slots)
    {s : State} (hs : s ∈ ss) : ∃ t ∈ ss, t.parent = none ∧ (t = s ∨ s.id.inside t.id) := by
  obtain ⟨r, hr⟩ := h.treelike.ranked
  obtain ⟨t, ht, hroot, he⟩ := Nesting.exists_root h.treelike.rooted hr hs
  refine ⟨t, ht, hroot, (Relation.reflTransGen_iff_eq_or_transGen.1 he).imp_right fun hup => ?_⟩
  exact (h.inside_iff_transGen hs ht).2 hup

theorem Assembled.declares {f : FlatChart} {c : Chart} {style : Style} {dot : String} (hf : f.Sound)
    (ha : Assembled f c) (ht : OneLine style.title) (h : Dot.Marked c style dot) :
    Dot.Declares c dot := by
  have hw := ha.wellFormed hf
  have hdrawable := ha.drawable hf
  have hnodes : (Dot.nodeNames dot).Perm
      (Dot.markerNames c ++ c.states.map fun s => s.id.path) := by
    have hstates := ha.tree.map NodeId.path
    rw [List.map_map] at hstates
    rw [h.text, ha.states]
    exact (Dot.nodeNames_perm hdrawable ht).trans (hstates.append_left _)
  have hmarkers := Dot.nodup_markerNames hdrawable.once
    (hw.named_nested (ha.states ▸ hf.names))
  have hstates : (c.states.map fun s => s.id.path).Nodup := by
    have hpaths := hw.distinct.map (f := NodeId.path) fun a b hab => (NodeId.mk.injEq ..).symm ▸ hab
    rwa [List.map_map] at hpaths
  refine ⟨hnodes, hmarkers, hstates, ?_, fun s hs hclash => ?_⟩
  · rw [hnodes.nodup_iff, List.nodup_append_comm, List.nodup_append', and_iff_right hstates,
      and_iff_right hmarkers]
    exact List.forall_mem_map
  · obtain ⟨t, htop, hroot, hst⟩ := hf.nested.exists_top (ha.states ▸ hs)
    refine ⟨t, ha.states ▸ htop, hroot, hst, ?_⟩
    have hstem := Dot.prefix_of_mem_markerNames hclash
    have hpath : t.id.path = t.name := by
      rw [hf.nested.qualified t htop, scope_eq_top.2 hroot]
      rfl
    rw [← hpath]
    rcases hst with rfl | hinside
    · exact hstem
    · exact Dot.prefix_of_inside hinside hstem

theorem Renderer.declares_of_parse {r : Renderer} {input : String} {c : Chart}
    (hlayout : r.layout = .dot) (htitle : OneLine r.style.title) (hc : r.parse input = .ok c) :
    ∃ out, r.run input = .ok out ∧ Dot.Declares c out.dot := by
  obtain ⟨f, hf, ha⟩ := parse_ok hc
  obtain ⟨dot, hdot, hmarked⟩ := Dot.marked_layout (ha.drawable hf) htitle
  exact ⟨_, Renderer.run_of_mark hlayout hc hdot, ha.declares hf htitle hmarked⟩

theorem Renderer.declares_sample : OneLine ({} : Renderer).style.title ∧
    ({} : Renderer).parse Sample.text = .ok Sample.chart ∧
    ∃ out, ({} : Renderer).run Sample.text = .ok out ∧ Dot.Declares Sample.chart out.dot :=
  ⟨by decide, Sample.parse_text, Renderer.declares_of_parse rfl (by decide) Sample.parse_text⟩

namespace Sample.Clash

/-- A text with a state that goes by the name of the marker of another. -/
def text : String :=
  "[*] --> On\nstate On \x7b\n[*] --> A\n\x7d\nstate __initial__On"

def events : List (Located Event) :=
  [⟨.clause (.initial "On"), 1, "[*] --> On"⟩,
    ⟨.opening ⟨"On", none⟩, 2, "state On \x7b"⟩,
    ⟨.clause (.initial "A"), 3, "[*] --> A"⟩,
    ⟨.close, 4, "\x7d"⟩,
    ⟨.clause (.declare "__initial__On" none), 5, "state __initial__On"⟩]

def tree : BlockTree where
  body :=
    [.clause ⟨.initial "On", 1, "[*] --> On"⟩,
      .composite ⟨⟨"On", none⟩, 2, "state On \x7b"⟩ [.clause ⟨.initial "A", 3, "[*] --> A"⟩] [],
      .clause ⟨.declare "__initial__On" none, 5, "state __initial__On"⟩]
  direction := none

def flat : FlatChart where
  states :=
    [⟨"On", ⟨"On"⟩, none, none, .composite, none, 1⟩,
      ⟨"A", ⟨"On/A"⟩, some ⟨"On"⟩, none, .simple, none, 3⟩,
      ⟨"__initial__On", ⟨"__initial__On"⟩, none, none, .simple, none, 5⟩]
  regions := []
  transitions := []
  initials := [⟨.top, ⟨"On"⟩, 1⟩, ⟨.composite ⟨"On"⟩, ⟨"On/A"⟩, 3⟩]
  finals := []
  notes := []
  remarks := []
  direction := none

def chart : Chart where
  states := flat.states
  roots := [.composite ⟨"On"⟩ "On" (some ⟨"On/A"⟩) [.simple ⟨"On/A"⟩ "A"],
    .simple ⟨"__initial__On"⟩ "__initial__On"]
  initial := ⟨"On"⟩
  nested := [(⟨"On"⟩, ⟨"On/A"⟩)]
  defaulted := []
  regions := []
  transitions := []
  finals := []
  remarks := []
  direction := none

theorem lines_text : (Text.linesOf text).map Text.trimmed = events.map Located.text :=
  Text.map_trimmed_linesOf (by decide +kernel) (by decide +kernel) (by decide +kernel)

theorem scan_text : Event.scan text = .ok events := by
  rw [Event.scan, lines_text]
  exact Event.ofLines_of_reads rfl (by decide +kernel)

theorem parse_text : Chart.parse .firstChild text = .ok chart := by
  have hflat : FlatChart.ofText text = .ok flat :=
    bind_ok.2 ⟨_, scan_text, bind_ok.2 ⟨tree, rfl, rfl⟩⟩
  refine bind_ok.2 ⟨flat, hflat, bind_ok.2 ⟨flat, rfl, ?_⟩⟩
  rfl

end Sample.Clash

theorem Renderer.shared_name : ({} : Renderer).parse Sample.Clash.text = .ok Sample.Clash.chart ∧
    ∃ out, ({} : Renderer).run Sample.Clash.text = .ok out ∧ ¬(Dot.nodeNames out.dot).Nodup := by
  have htitle : OneLine ({} : Renderer).style.title := by decide
  obtain ⟨f, hf, ha⟩ := parse_ok Sample.Clash.parse_text
  obtain ⟨dot, hdot, hmarked⟩ := Dot.marked_layout (ha.drawable hf) htitle
  refine ⟨Sample.Clash.parse_text, _, Renderer.run_of_mark rfl Sample.Clash.parse_text hdot, ?_⟩
  rw [(ha.declares hf htitle hmarked).distinct]
  exact fun h => h ⟨"__initial__On", ⟨"__initial__On"⟩, none, none, .simple, none, 5⟩ (by decide)
    (by decide)

end Statechart
