import Mathlib
import Statechart.Proofs.Markers
import Statechart.Proofs.Outline

namespace Statechart

namespace Dot

variable {c : Chart} {style : Style} {scope : Option NodeId}

def Row.opened? (r : Row) : Option (Option NodeId) :=
  match r.statement with
  | .openGraph _ => some none
  | .openCluster id => some (some id)
  | _ => none

def Row.inset (r : Row) : String :=
  match r.statement with
  | .openGraph _ => indentUnit
  | _ => indent (r.depth + 1)

def isMarkerEdge (scope : Option NodeId) (line : String) : Bool :=
  (quote (markerNode scope) ++ " -> ").toList.isPrefixOf (Text.trimStart line.toList)

theorem trimStart_quoted {margin : String} (hm : ∀ x ∈ margin.toList, Text.isBlank x) (s t : String) :
    Text.trimStart (margin ++ (quote s ++ t)).toList = (quote s).toList ++ t.toList := by
  rw [String.toList_append, String.toList_append, Text.trimStart, List.dropWhile_append_of_pos hm,
    toList_quote]
  exact List.dropWhile_cons_of_neg (by decide)

def Named (scope : Option NodeId) : Prop :=
  ∀ id ∈ scope, id.path ≠ ""

theorem markerNode_inj {a b : Option NodeId} (ha : Named a) (hb : Named b)
    (h : markerNode a = markerNode b) : a = b := by
  have hstem : ∀ id : NodeId, markerStem = markerStem ++ id.path → id.path = "" := by
    intro id hid
    have hlist := congrArg String.toList hid
    rw [String.toList_append, List.self_eq_append_right, String.toList_eq_nil_iff] at hlist
    exact hlist
  cases a with
  | none =>
    cases b with
    | none => rfl
    | some y => exact absurd (hstem y h) (hb y rfl)
  | some x =>
    cases b with
    | none => exact absurd (hstem x h.symm) (ha x rfl)
    | some y =>
      have hpath : x.path = y.path := by simpa [markerNode, ← String.toList_inj] using h
      rw [Option.some_inj, NodeId.mk.injEq]
      exact hpath

theorem filter_markerLines {margin : String} (hm : ∀ x ∈ margin.toList, Text.isBlank x)
    {a : Option NodeId} (ha : Named a) (hscope : Named scope) (target : NodeId) :
    [markerPoint margin a, markerEdge c margin a target].filter (isMarkerEdge scope) =
      if a = scope then [markerEdge c margin a target] else [] := by
  have hpoint : isMarkerEdge scope (markerPoint margin a) = false := by
    rw [isMarkerEdge, markerPoint, String.append_assoc, trimStart_quoted hm, Bool.eq_false_iff]
    intro h
    obtain ⟨rest, hrest⟩ := List.isPrefixOf_iff_prefix.1 h
    rw [String.toList_append, List.append_assoc] at hrest
    exact absurd (quote_cut hrest).2 (by simp)
  have hedge : isMarkerEdge scope (markerEdge c margin a target) = true ↔ a = scope := by
    rw [isMarkerEdge, markerEdge, String.append_assoc, String.append_assoc, String.append_assoc,
      String.append_assoc, trimStart_quoted hm, List.isPrefixOf_iff_prefix]
    constructor
    · rintro ⟨rest, hrest⟩
      rw [String.toList_append, List.append_assoc] at hrest
      exact (markerNode_inj hscope ha (quote_cut hrest).1).symm
    · rintro rfl
      simp
  rw [List.filter_cons_of_neg (by simpa using hpoint)]
  by_cases heq : a = scope
  · rw [if_pos heq, List.filter_cons_of_pos (hedge.2 heq), List.filter_nil]
  · rw [if_neg heq, List.filter_cons_of_neg (hedge.not.2 heq), List.filter_nil]

theorem filter_nested (hd : (c.nested.map Prod.fst).Nodup) (id : NodeId) :
    (c.nested.filter fun e => e.1 = id) = (c.startIn (some id)).toList.map (id, ·) := by
  rw [Chart.startIn]
  cases hg : c.nested.get? id with
  | none =>
    rw [Option.toList_none, List.map_nil, List.filter_eq_nil_iff]
    intro e he
    simp only [decide_eq_true_eq]
    rintro rfl
    have hsome := (Initials.get?_eq_some_iff hd).2 he
    rw [hg] at hsome
    cases hsome
  | some i => exact filter_key_eq hd ((Initials.get?_eq_some_iff hd).1 hg)

theorem isBlank_indentUnit : ∀ x ∈ indentUnit.toList, Text.isBlank x := by
  intro x hx
  obtain rfl : x = ' ' := by simpa [indentUnit] using hx
  decide

theorem isBlank_inset (r : Row) : ∀ x ∈ r.inset.toList, Text.isBlank x := by
  unfold Row.inset
  split
  · exact isBlank_indentUnit
  · exact isBlank_indent

theorem markersAfter_of_opened (hd : (c.nested.map Prod.fst).Nodup) {r : Row}
    (hr : r.opened? = some scope) : markersAfter c r =
      (c.startIn scope).toList.flatMap fun i =>
        [markerPoint r.inset scope, markerEdge c r.inset scope i] := by
  obtain ⟨depth, s⟩ := r
  cases s with
  | openGraph title =>
    cases hr
    rfl
  | openCluster id =>
    cases hr
    have hmarkers : markersAfter c ⟨depth, .openCluster id⟩ =
        (c.nested.filter fun e => e.1 = id).flatMap fun e =>
          [markerPoint (indent (depth + 1)) (some e.1),
            markerEdge c (indent (depth + 1)) (some e.1) e.2] := rfl
    rw [hmarkers, filter_nested hd, List.flatMap_map]
    rfl
  | setting | caption | anchor | node | historyNode | edge | close => cases hr

theorem markersAfter_of_not_opened {r : Row} (hr : r.opened? = none) : markersAfter c r = [] := by
  obtain ⟨depth, s⟩ := r
  cases s with
  | openGraph | openCluster => cases hr
  | setting | caption | anchor | node | historyNode | edge | close => rfl

theorem named_of_startIn (hd : (c.nested.map Prod.fst).Nodup)
    (hnamed : ∀ e ∈ c.nested, e.1.path ≠ "") {i : NodeId} (hi : c.startIn scope = some i) :
    Named scope := by
  rintro id rfl
  exact hnamed (id, i) ((Initials.get?_eq_some_iff hd).1 hi)

theorem filter_markersAfter (hd : (c.nested.map Prod.fst).Nodup)
    (hnamed : ∀ e ∈ c.nested, e.1.path ≠ "") (hscope : Named scope) (r : Row) :
    (markersAfter c r).filter (isMarkerEdge scope) =
      if r.opened? = some scope then (c.startIn scope).toList.map (markerEdge c r.inset scope)
      else [] := by
  cases hr : r.opened? with
  | none =>
    rw [markersAfter_of_not_opened hr]
    rfl
  | some k =>
    have hlines : ∀ i ∈ (c.startIn k).toList,
        [markerPoint r.inset k, markerEdge c r.inset k i].filter (isMarkerEdge scope) =
          if k = scope then [markerEdge c r.inset k i] else [] := fun i hi =>
      filter_markerLines (isBlank_inset r) (named_of_startIn hd hnamed (Option.mem_toList.1 hi))
        hscope i
    rw [markersAfter_of_opened hd hr, List.filter_flatMap, List.flatMap_congr hlines]
    by_cases hk : k = scope
    · subst hk
      simp only [if_true]
      exact List.map_eq_flatMap.symm
    · simp [hk]

theorem exists_opening (h : Drawable c) (style : Style) {i : NodeId}
    (hi : c.startIn scope = some i) : ∃ before r after, rows c style = before ++ r :: after ∧
      r.opened? = some scope ∧ ∀ q ∈ before ++ after, q.opened? ≠ some scope := by
  cases scope with
  | none =>
    refine ⟨[], ⟨0, .openGraph style.title⟩, (rows c style).tail, rfl, rfl, fun q hq ho => ?_⟩
    have htidy := tidy_inside h style q hq
    unfold Row.opened? at ho
    split at ho
    · rename_i hs
      rw [hs] at htidy
      exact htidy
    · cases ho
    · cases ho
  | some id =>
    obtain ⟨before, depth, after, hrows, hothers⟩ :=
      exists_row h ((Initials.get?_eq_some_iff h.once).1 hi) style
    refine ⟨before, ⟨depth, .openCluster id⟩, after, hrows, rfl, fun q hq ho => ?_⟩
    unfold Row.opened? at ho
    split at ho
    · cases ho
    · rename_i hs
      obtain rfl := Option.some.inj (Option.some.inj ho)
      exact hothers q hq hs
    · cases ho

def inserted (c : Chart) (style : Style) : List String :=
  (rows c style).flatMap (markersAfter c)

theorem filter_inserted (h : Drawable c) (style : Style) (hnamed : ∀ e ∈ c.nested, e.1.path ≠ "")
    (hscope : Named scope) : ∃ margin : String, (∀ x ∈ margin.toList, Text.isBlank x) ∧
      (inserted c style).filter (isMarkerEdge scope) =
        (c.startIn scope).toList.map (markerEdge c margin scope) := by
  have hrow := filter_markersAfter h.once hnamed hscope
  rw [inserted, List.filter_flatMap]
  cases hi : c.startIn scope with
  | none =>
    refine ⟨"", by simp, List.flatMap_eq_nil_iff.2 fun r _ => ?_⟩
    rw [hrow, hi]
    split <;> rfl
  | some i =>
    obtain ⟨before, r, after, hrows, ho, hothers⟩ := exists_opening h style hi
    have hnil : ∀ q ∈ before ++ after, (markersAfter c q).filter (isMarkerEdge scope) = [] := by
      intro q hq
      rw [hrow, if_neg (hothers q hq)]
    have hbefore := List.flatMap_eq_nil_iff.2 fun q hq => hnil q (List.mem_append_left after hq)
    have hafter := List.flatMap_eq_nil_iff.2 fun q hq => hnil q (List.mem_append_right before hq)
    refine ⟨r.inset, isBlank_inset r, ?_⟩
    rw [hrows, List.flatMap_append, List.flatMap_cons, hbefore, hafter, hrow, if_pos ho, hi,
      List.nil_append, List.append_nil]

theorem markedLines_perm (c : Chart) (rs : List Row) :
    (markedLines c rs).Perm (rs.flatMap Row.lines ++ rs.flatMap (markersAfter c)) :=
  (List.flatMap_append_perm rs Row.lines (markersAfter c)).symm

theorem lines_sublist_markedLines (c : Chart) (rs : List Row) :
    (rs.flatMap Row.lines).Sublist (markedLines c rs) := by
  induction rs with
  | nil => exact .slnil
  | cons r rs ih => exact (List.sublist_append_left _ _).append ih

end Dot

/-- An initial state as a configuration writes it: whole at the top level, elsewhere by its name. -/
def Scope.spelled : Scope → NodeId → String
  | .top, i => i.path
  | .composite _, i | .region _ _, i => i.baseName

def Config.Holds (g : Config) (named : Option String) (nodes : List ConfigNode) (scope : Scope) :
    Prop :=
  match scope.id? with
  | none => named = some g.initial ∧ nodes = g.states
  | some id => ∃ v, (g.visits.filter fun u => u.id = id) = [v] ∧ v.node.initial? = named ∧
      v.node.children = nodes

/-- The initial state of a scope as each of the views shows it, where `marks` are the lines that the
    markers add to the drawing. -/
structure Shown (c : Chart) (config : Config) (marks : List String) (scope : Scope) : Prop where
  member : ∀ i ∈ c.initialOf scope,
    ∃ s ∈ c.states, s.id = i ∧ s.scope = scope ∧ s.name = i.baseName
  config : ∃ nodes, config.Holds ((c.initialOf scope).map scope.spelled) nodes scope ∧
    ∀ i ∈ c.initialOf scope, (nodes.countP fun n => n.ownName = i.baseName) = 1
  outline : Outline.starredIn c scope = (c.initialOf scope).toList
  drawing : ∃ margin : String, (∀ x ∈ margin.toList, Text.isBlank x) ∧
    marks.filter (Dot.isMarkerEdge scope.id?) =
      (c.initialOf scope).toList.map (Dot.markerEdge c margin scope.id?)
  without : c.initialOf scope = none ↔ ∃ s ∈ c.states, s.kind = .composite ∧
    scope = .composite s.id ∧ ∀ u ∈ c.states, u.parent = some s.id → u.kind = .history

structure Agree (c : Chart) (style : Style) (out : Rendered) : Prop where
  scopes : ∃ ls marks, out.dot = Text.joined "\n" ls ++ "\n" ∧ (∀ l ∈ ls, OneLine l) ∧
    (Text.linesOf (Dot.layout c style)).Sublist ls ∧
    ls.Perm (Text.linesOf (Dot.layout c style) ++ marks) ∧
    ∀ scope ∈ c.scopes, Shown c out.config marks scope
  lines : List.Forall₂ (Outline.LineOf c) (Node.partsOf c.roots) (Text.linesOf (Outline.render c))
  length : (Text.linesOf (Outline.render c)).length = c.states.length + c.regions.length
  starred : (Text.linesOf (Outline.render c)).countP Outline.isStarred = 1 + c.nested.length

namespace Assembled

variable {f : FlatChart} {c : Chart} {scope : Scope}

theorem holds_node (h : f.Sound) (ha : Assembled f c) {p : Node} (hp : p ∈ Node.partsOf c.roots) :
    ((Config.ofChart c).visits.filter fun u => u.id = p.id) = [p.visit] := by
  have hvisit : p.visit ∈ (Config.ofChart c).visits := by
    rw [ha.visits_ofChart h]
    exact List.mem_map_of_mem hp
  have hone := filter_key_eq (ha.nodup_visits h) hvisit
  rwa [p.id_visit] at hone

theorem exists_scope_part (h : f.Sound) (ha : Assembled f c) (hw : c.WellFormed)
    (hscope : scope ∈ c.scopes) {id : NodeId} (hid : scope.id? = some id) :
    ∃ p ∈ Node.partsOf c.roots, p.id = id ∧
      (ConfigNode.ofNode p).initial? = (c.nested.get? id).map NodeId.baseName := by
  rcases Chart.mem_scopes.1 hscope with rfl | ⟨s, hs, hk, rfl⟩ | ⟨r, hr, rfl⟩
  · cases hid
  · obtain ⟨p, hp, hpid, -, hpk⟩ := ha.exists_part h (ha.states ▸ hs)
    obtain rfl : s.id = id := Option.some.inj hid
    refine ⟨p, hp, hpid, ?_⟩
    rw [hk] at hpk
    rw [← hpid]
    cases ha.shape p hp with
    | composite _ _ _ => rfl
    | simple | history | concurrent | region => cases hpk
  · rw [hw.id_region hr] at hid
    obtain rfl := Option.some.inj hid
    obtain ⟨p, hp, hpid⟩ := ha.exists_region_part h (ha.mem_slots hr)
    refine ⟨p, hp, ?_⟩
    cases ha.shape p hp with
    | region _ _ =>
      obtain hq := Option.some.inj hpid
      exact ⟨hq, by rw [← show _ = r.id from hq]; rfl⟩
    | simple | history | composite | concurrent => cases hpid

theorem countP_roots (h : f.Sound) (ha : Assembled f c) {u : State} (hu : u ∈ f.states)
    (hp : u.parent = none) :
    ((ConfigNode.ofNodes c.roots).countP fun n => n.ownName = u.id.baseName) = 1 := by
  have hroots := (Nesting.local_shape.forest ha.forest).1
  have hscope : ∀ s ∈ f.states.filter fun s => s.parent.isNone, s.scope.id? = none := by
    intro s hs
    have hs : s.parent = none := by simpa using (List.mem_filter.1 hs).2
    rw [scope_eq_top.2 hs]
    rfl
  exact h.nested.countP_ownName List.filter_sublist hscope hroots
    (List.mem_filter.2 ⟨hu, by simp [hp]⟩)

theorem config_shown (h : f.Sound) (ha : Assembled f c) (hw : c.WellFormed)
    (hscope : scope ∈ c.scopes) :
    ∃ nodes, (Config.ofChart c).Holds ((c.initialOf scope).map scope.spelled) nodes scope ∧
      ∀ i ∈ c.initialOf scope, (nodes.countP fun n => n.ownName = i.baseName) = 1 := by
  cases hid : scope.id? with
  | none =>
    obtain rfl : scope = .top := by
      cases scope with
      | top => rfl
      | composite | region => cases hid
    refine ⟨ConfigNode.ofNodes c.roots, ⟨rfl, rfl⟩, ?_⟩
    rintro i ⟨⟩
    obtain ⟨u, hu, huid, hp⟩ := hw.initial
    rw [← huid]
    exact ha.countP_roots h (ha.states ▸ hu) hp
  | some id =>
    obtain ⟨p, hp, rfl, hinitial⟩ := ha.exists_scope_part h hw hscope hid
    have hstart : c.initialOf scope = c.nested.get? p.id := by rw [Chart.initialOf, hid, Chart.startIn]
    have hspelled : scope.spelled = NodeId.baseName := by
      cases scope with
      | top => cases hid
      | composite | region => rfl
    refine ⟨(ConfigNode.ofNode p).children, ?_, fun i hi => ?_⟩
    · rw [Config.Holds, hid, hspelled, hstart]
      exact ⟨p.visit, ha.holds_node h hp, hinitial, rfl⟩
    · refine ha.initial_named h p hp i.baseName ?_
      rw [hinitial, ← hstart, Option.mem_def.1 hi]
      rfl

theorem starredIn_shown (h : f.Sound) (ha : Assembled f c) (hw : c.WellFormed)
    (hscope : scope ∈ c.scopes) : Outline.starredIn c scope = (c.initialOf scope).toList := by
  have hiff : ∀ n : Node, (c.StartsAt n.id && c.holds scope n.id) = true ↔
      c.initialOf scope = some n.id := by
    intro n
    rw [Bool.and_eq_true, decide_eq_true_iff]
    exact hw.starts_and_holds hscope n.id
  rw [ha.starredIn_eq h]
  cases hi : c.initialOf scope with
  | none =>
    rw [Option.toList_none, List.map_eq_nil_iff, List.filter_eq_nil_iff]
    intro n _ hn
    rw [hiff, hi] at hn
    cases hn
  | some i =>
    obtain ⟨s, hs, rfl, -⟩ := hw.exists_initial hscope hi
    obtain ⟨p, hp, hpid, -⟩ := ha.exists_part h (ha.states ▸ hs)
    have hsame : ∀ n ∈ Node.partsOf c.roots,
        (c.StartsAt n.id && c.holds scope n.id) = decide (n.id = p.id) := by
      intro n _
      rw [Bool.eq_iff_iff, hiff, hi, hpid, decide_eq_true_iff, Option.some_inj, eq_comm]
    rw [List.filter_congr hsame, filter_key_eq (ha.nodup_parts h) hp, List.map_singleton, hpid]
    rfl

theorem countP_starred (h : f.Sound) (ha : Assembled f c) (hw : c.WellFormed) :
    (Text.linesOf (Outline.render c)).countP Outline.isStarred = 1 + c.nested.length := by
  have hcount := ha.countP_isStarred h
  have hperm : (((Node.partsOf c.roots).map Node.id).filter fun x => c.StartsAt x).Perm
      (c.starts.map Prod.snd) := by
    refine (List.perm_ext_iff_of_nodup ((ha.nodup_parts h).filter _) hw.nodup_starts).2 fun x => ?_
    rw [List.mem_filter, decide_eq_true_iff, hw.startsAt_iff_mem, and_iff_right_iff_imp,
      ← hw.startsAt_iff_mem]
    rintro ⟨s, hs, rfl, -⟩
    obtain ⟨p, hp, hpid, -⟩ := ha.exists_part h (ha.states ▸ hs)
    exact hpid ▸ List.mem_map_of_mem hp
  have hlen := hperm.length_eq
  rw [List.filter_map, List.length_map, ← List.countP_eq_length_filter] at hlen
  rw [hcount]
  refine hlen.trans ?_
  simp [Chart.starts, Nat.add_comm]

end Assembled

namespace Chart.WellFormed

variable {c : Chart}

theorem id_path_ne (h : c.WellFormed) (hn : ∀ s ∈ c.states, IsName s.name) {s : State}
    (hs : s ∈ c.states) : s.id.path ≠ "" := by
  have hname := (hn s hs).1
  rw [h.qualified s hs]
  cases s.scope.id? with
  | none => exact hname
  | some a =>
    intro hp
    have hlist := congrArg String.toList hp
    rw [NodeId.toList_path_child_some] at hlist
    exact List.append_ne_nil_of_right_ne_nil _ (List.cons_ne_nil _ _) hlist

theorem named (h : c.WellFormed) (hn : ∀ s ∈ c.states, IsName s.name) {scope : Scope}
    (hscope : scope ∈ c.scopes) : Dot.Named scope.id? := by
  intro id hid
  rcases mem_scopes.1 hscope with rfl | ⟨s, hs, -, rfl⟩ | ⟨r, hr, rfl⟩
  · cases hid
  · cases hid
    exact h.id_path_ne hn hs
  · cases hid
    simp [regionId, NodeId.child]

theorem named_nested (h : c.WellFormed) (hn : ∀ s ∈ c.states, IsName s.name) :
    ∀ e ∈ c.nested, e.1.path ≠ "" := by
  intro e he
  obtain ⟨u, hu, -, hid⟩ := h.scope_of_start (List.mem_cons_of_mem _ (List.mem_map_of_mem he))
  exact h.named hn (h.scope_mem hu) e.1 hid

end Chart.WellFormed

theorem Renderer.agree_of_parse {r : Renderer} {input : String} {c : Chart}
    (hlayout : r.layout = .dot) (htitle : OneLine r.style.title) (hc : r.parse input = .ok c) :
    ∃ out, r.run input = .ok out ∧ Agree c r.style out := by
  obtain ⟨f, hf, ha⟩ := parse_ok hc
  have hw := ha.wellFormed hf
  have hnames : ∀ s ∈ c.states, IsName s.name := ha.states ▸ hf.names
  have hdrawable := ha.drawable hf
  obtain ⟨dot, hdot, hmarked⟩ := Dot.marked_layout hdrawable htitle
  refine ⟨_, Renderer.run_of_mark hlayout hc hdot, ?_⟩
  have hdrawn : Text.linesOf (Dot.layout c r.style) = (Dot.rows c r.style).flatMap Dot.Row.lines :=
    Dot.linesOf_textOf _
  constructor
  case scopes =>
    refine ⟨_, Dot.inserted c r.style, hmarked.text, hmarked.oneLine, ?_, ?_, fun scope hs => ?_⟩
    · rw [hdrawn]
      exact Dot.lines_sublist_markedLines c _
    · rw [hdrawn]
      exact Dot.markedLines_perm c _
    · constructor
      case member =>
        intro i hi
        obtain ⟨s, hsc, rfl, hsame⟩ := hw.exists_initial hs hi
        refine ⟨s, hsc, rfl, hsame, ?_⟩
        rw [NodeId.baseName, hf.nested.segments_id (ha.states ▸ hsc)]
        simp
      case config => exact ha.config_shown hf hw hs
      case outline => exact ha.starredIn_shown hf hw hs
      case drawing =>
        exact Dot.filter_inserted hdrawable r.style (hw.named_nested hnames) (hw.named hnames hs)
      case without => exact hw.initialOf_eq_none_iff hs
  case lines => exact ha.lineOf hf
  case length => exact ha.length_linesOf_render hf
  case starred => exact ha.countP_starred hf hw

theorem Renderer.agree_sample : OneLine ({} : Renderer).style.title ∧
    ({} : Renderer).parse Sample.text = .ok Sample.chart ∧
    ∃ out, ({} : Renderer).run Sample.text = .ok out ∧ Agree Sample.chart {} out :=
  ⟨by decide, Sample.parse_text, Renderer.agree_of_parse rfl (by decide) Sample.parse_text⟩

end Statechart
