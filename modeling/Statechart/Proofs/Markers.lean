import Mathlib
import Statechart.Renderer
import Statechart.Proofs.Drawing
import Statechart.Proofs.Tree

namespace Statechart

def Node.cluster? : Node → Option NodeId
  | .composite id _ _ _ | .concurrent id _ _ | .region id _ _ _ => some id
  | .simple _ _ | .history _ _ => none

theorem Node.id_of_cluster? {p : Node} {id : NodeId} (h : p.cluster? = some id) : p.id = id := by
  cases p with
  | composite | concurrent | region => exact Option.some.inj h
  | simple | history => cases h

namespace Dot

section Rows

variable {c : Chart} {style : Style} {α β : Type}

/-- The rows of a node that are not those of the nodes below it. -/
def ownRows (c : Chart) (style : Style) (depth : Nat) : Node → List Row
  | .simple id name => [⟨depth, .node id (labelLines c style (.simple id name)) (id ∈ c.finals)⟩]
  | .history id _ => [⟨depth, .historyNode id⟩]
  | .composite id name initial ns =>
    clusterHead depth id (labelLines c style (.composite id name initial ns)) ++ [⟨depth, .close⟩]
  | .concurrent id name ns =>
    clusterHead depth id (labelLines c style (.concurrent id name ns)) ++ [⟨depth, .close⟩]
  | .region id _ _ _ => regionHead depth id ++ [⟨depth, .close⟩]

mutual

theorem mem_nodeRows {r : Row} {depth : Nat} : ∀ n : Node, r ∈ nodeRows c style depth n →
    ∃ p ∈ n.parts, ∃ d, r ∈ ownRows c style d p
  | .simple id name, h | .history id name, h => ⟨_, List.mem_singleton_self _, depth, h⟩
  | .composite id name initial ns, h | .concurrent id name ns, h
  | .region id name initial ns, h => by
    rcases List.mem_append.1 h with h | hclose
    · rcases List.mem_append.1 h with hhead | hinside
      · exact ⟨_, List.mem_cons_self, depth, List.mem_append_left _ hhead⟩
      · obtain ⟨p, hp, d, hr⟩ := mem_nodesRows ns hinside
        exact ⟨p, List.mem_cons_of_mem _ hp, d, hr⟩
    · exact ⟨_, List.mem_cons_self, depth, List.mem_append_right _ hclose⟩

theorem mem_nodesRows {r : Row} {depth : Nat} : ∀ ns : List Node, r ∈ nodesRows c style depth ns →
    ∃ p ∈ Node.partsOf ns, ∃ d, r ∈ ownRows c style d p
  | [], h => absurd h List.not_mem_nil
  | n :: ns, h => by
    rcases List.mem_append.1 h with hn | hns
    · obtain ⟨p, hp, hr⟩ := mem_nodeRows n hn
      exact ⟨p, List.mem_append_left _ hp, hr⟩
    · obtain ⟨p, hp, hr⟩ := mem_nodesRows ns hns
      exact ⟨p, List.mem_append_right _ hp, hr⟩

end

theorem filterMap_cons_toList (f : α → Option β) (a : α) (l : List α) :
    (a :: l).filterMap f = (f a).toList ++ l.filterMap f := by
  rw [List.filterMap_eq_flatMap_toList, List.filterMap_eq_flatMap_toList, List.flatMap_cons]

/-- A reading of rows to which only the nodes give anything, each by its own rows. -/
structure Gathers (c : Chart) (style : Style) (f : Row → Option α) (g : Node → Option α) :
    Prop where
  own : ∀ p d, (ownRows c style d p).filterMap f = (g p).toList
  graph : ∀ d title, f ⟨d, .openGraph title⟩ = none
  setting : ∀ d text, f ⟨d, .setting text⟩ = none
  edge : ∀ t, f (edgeRow c t) = none
  close : ∀ d, f ⟨d, .close⟩ = none

namespace Gathers

variable {f : Row → Option α} {g : Node → Option α}

theorem filterMap_closed (h : Gathers c style f g) (head inside : List Row) (depth : Nat) :
    (head ++ inside ++ [Row.mk depth .close]).filterMap f =
      (head ++ [Row.mk depth .close]).filterMap f ++ inside.filterMap f := by
  simp only [List.filterMap_append, List.filterMap_cons_none (h.close depth), List.filterMap_nil,
    List.append_nil]

mutual

theorem filterMap_nodeRows (h : Gathers c style f g) (depth : Nat) : ∀ n : Node,
    (nodeRows c style depth n).filterMap f = n.parts.filterMap g
  | .simple _ _ | .history _ _ => by
    rw [Node.parts, filterMap_cons_toList, ← h.own _ depth]
    exact (List.append_nil _).symm
  | .composite _ _ _ ns | .concurrent _ _ ns | .region _ _ _ ns => by
    rw [nodeRows, h.filterMap_closed, h.filterMap_nodesRows (depth + 1) ns, Node.parts,
      filterMap_cons_toList, ← h.own _ depth, ownRows]

theorem filterMap_nodesRows (h : Gathers c style f g) (depth : Nat) : ∀ ns : List Node,
    (nodesRows c style depth ns).filterMap f = (Node.partsOf ns).filterMap g
  | [] => rfl
  | n :: ns => by
    rw [nodesRows, Node.partsOf, List.filterMap_append, List.filterMap_append,
      h.filterMap_nodeRows depth n, h.filterMap_nodesRows depth ns]

end

theorem filterMap_rows (h : Gathers c style f g) :
    (rows c style).filterMap f = (Node.partsOf c.roots).filterMap g := by
  have hedges : (c.transitions.map (edgeRow c)).filterMap f = [] := by
    rw [List.filterMap_map]
    exact List.filterMap_eq_nil_iff.2 fun t _ => h.edge t
  rw [rows, List.filterMap_append, List.filterMap_append, List.filterMap_append, hedges,
    h.filterMap_nodesRows]
  simp [h.close, h.graph, h.setting]

end Gathers

def Row.cluster? (r : Row) : Option NodeId :=
  match r.statement with
  | .openCluster id => some id
  | _ => none

theorem Row.cluster?_eq_some {r : Row} {id : NodeId} :
    r.cluster? = some id ↔ r.statement = .openCluster id := by
  unfold cluster?
  split <;> simp_all

theorem tidy_own {p : Node} (h : OneLine p.id.path) {depth : Nat} :
    ∀ r ∈ ownRows c style depth p, r.statement.Tidy := by
  cases p <;> simp_all +decide [ownRows, clusterHead, regionHead, Statement.Tidy, Node.id]

theorem tidy_nodesRows {ns : List Node} (h : ∀ p ∈ Node.partsOf ns, OneLine p.id.path)
    {depth : Nat} : ∀ r ∈ nodesRows c style depth ns, r.statement.Tidy := by
  intro r hr
  obtain ⟨p, hp, d, hown⟩ := mem_nodesRows ns hr
  exact tidy_own (h p hp) r hown

theorem gathers_clusters (c : Chart) (style : Style) :
    Gathers c style Row.cluster? Node.cluster? where
  own p _ := by cases p <;> rfl
  graph _ _ := rfl
  setting _ _ := rfl
  edge _ := rfl
  close _ := rfl

end Rows

section Lines

variable {c : Chart}

def markerPoint (margin : String) (scope : Option NodeId) : String :=
  margin ++ quote (markerNode scope) ++ " [shape=point, width=0.15, label=\"\"];"

def markerEdge (c : Chart) (margin : String) (scope : Option NodeId) (target : NodeId) : String :=
  margin ++ quote (markerNode scope) ++ " -> " ++ quote target.path ++
    (if c.nests target then " [lhead=" ++ quote (clusterId target) ++ "]" else "") ++ ";"

theorem linesOfMarker_eq (c : Chart) (margin : String) (scope : Option NodeId) (target : NodeId) :
    linesOfMarker c margin scope target = [markerPoint margin scope, markerEdge c margin scope target] :=
  rfl

theorem semicolon_of_marker {margin : String} {scope : Option NodeId} {target : NodeId} :
    ∀ l ∈ [markerPoint margin scope, markerEdge c margin scope target], [';'] <:+ l.toList := by
  have hpoint : [';'] <:+ (markerPoint margin scope).toList := by
    rw [markerPoint, String.toList_append]
    exact List.IsSuffix.trans (by decide) (List.suffix_append _ _)
  have hedge : [';'] <:+ (markerEdge c margin scope target).toList := by
    rw [markerEdge, String.toList_append]
    exact List.suffix_append _ _
  exact List.forall_mem_cons.2 ⟨hpoint, List.forall_mem_singleton.2 hedge⟩

end Lines

section Additions

variable {c : Chart} {ls before after : List String} {l : String} {p : String → Bool}

theorem addAll_eq (is : List Addition) (n : Nat) (ls : List String) :
    addAll is n ls = (ls.zipIdx n).flatMap fun x =>
      x.1 :: (is.filter fun i => i.after = x.2).flatMap Addition.lines := by
  induction ls generalizing n with
  | nil => rfl
  | cons l ls ih => rw [addAll, ih, List.zipIdx_cons, List.flatMap_cons]

theorem addAll_outside {i : Addition} {is : List Addition} {n : Nat}
    (h : i.after < n ∨ n + ls.length ≤ i.after) : addAll (i :: is) n ls = addAll is n ls := by
  induction ls generalizing n with
  | nil => rfl
  | cons l ls ih =>
    rw [List.length_cons] at h
    have hne : i.after ≠ n := by omega
    rw [addAll, addAll, ih (by omega), List.filter_cons_of_neg (by simpa using hne)]

theorem addAll_top {is : List Addition} {rest : List String} (h : addAll is 0 (l :: ls) = l :: rest)
    (ms : List String) : addAll (⟨0, ms⟩ :: is) 0 (l :: ls) = l :: ms ++ rest := by
  rw [addAll] at h
  rw [addAll, addAll_outside (.inl Nat.zero_lt_one), List.filter_cons_of_pos (by simp), List.flatMap_cons,
    ← (List.cons.inj h).2, List.cons_append, List.cons_append, List.append_assoc]
  rfl

theorem firstLine_of_first (hb : ∀ x ∈ before, p x = false) (hl : p l = true) :
    firstLine p (before ++ l :: after) = some (l, before.length) := by
  have hnone : (before.zipIdx).find? (fun x => p x.1) = none := by
    refine List.find?_eq_none.2 fun x hx => ?_
    rw [hb x.1 (List.fst_mem_of_mem_zipIdx hx)]
    exact Bool.false_ne_true
  rw [firstLine, List.zipIdx_append, List.find?_append, hnone, List.zipIdx_cons]
  simp [hl]

theorem eq_length_iff (hb : ∀ x ∈ before, p x = false) (ha : ∀ x ∈ after, p x = false)
    (hl : p l = true) {x : String × Nat} (hx : x ∈ (before ++ l :: after).zipIdx) :
    x.2 = before.length ↔ p x.1 = true := by
  have hget : (before ++ l :: after)[x.2]? = some x.1 := List.mem_zipIdx_iff_getElem?.1 hx
  rcases lt_trichotomy x.2 before.length with hlt | heq | hgt
  · rw [List.getElem?_append_left hlt] at hget
    simp [hlt.ne, hb x.1 (List.mem_of_getElem? hget)]
  · rw [heq, List.getElem?_append_right le_rfl, Nat.sub_self, List.getElem?_cons_zero] at hget
    simp [heq, ← Option.some.inj hget, hl]
  · rw [List.getElem?_append_right hgt.le, List.getElem?_cons, if_neg (by omega)] at hget
    simp [hgt.ne', ha x.1 (List.mem_of_getElem? hget)]

def markedLine (c : Chart) (l : String) : List String :=
  l :: (c.nested.filter fun e => opens e.1 l).flatMap fun e =>
    linesOfMarker c (margin l ++ indentUnit) (some e.1) e.2

def Added (c : Chart) (ls : List String) (e : NodeId × NodeId) (i : Addition) : Prop :=
  ∀ x ∈ ls.zipIdx, (i.after = x.2 ↔ opens e.1 x.1 = true) ∧ (opens e.1 x.1 = true →
    i.lines = linesOfMarker c (margin x.1 ++ indentUnit) (some e.1) e.2)

theorem exists_added {e : NodeId × NodeId} (hb : ∀ x ∈ before, opens e.1 x = false)
    (ha : ∀ x ∈ after, opens e.1 x = false) (hl : opens e.1 l = true) :
    ∃ i, nestedAddition c (before ++ l :: after) e = .ok i ∧ Added c (before ++ l :: after) e i := by
  refine ⟨⟨before.length, linesOfMarker c (margin l ++ indentUnit) (some e.1) e.2⟩, ?_, ?_⟩
  · rw [nestedAddition, firstLine_of_first hb hl]
  · intro x hx
    have hplace := eq_length_iff hb ha hl hx
    refine ⟨eq_comm.trans hplace, fun ho => ?_⟩
    have hget : (before ++ l :: after)[x.2]? = some x.1 := List.mem_zipIdx_iff_getElem?.1 hx
    rw [hplace.2 ho] at hget
    obtain rfl : l = x.1 := by simpa using hget
    rfl

theorem flatMap_added {es : List (NodeId × NodeId)} {is : List Addition}
    (h : List.Forall₂ (Added c ls) es is) {x : String × Nat} (hx : x ∈ ls.zipIdx) :
    (is.filter fun i => i.after = x.2).flatMap Addition.lines =
      (es.filter fun e => opens e.1 x.1).flatMap fun e =>
        linesOfMarker c (margin x.1 ++ indentUnit) (some e.1) e.2 := by
  induction h with
  | nil => rfl
  | @cons e i es is he _ ih =>
    obtain ⟨hplace, hlines⟩ := he x hx
    by_cases ho : opens e.1 x.1 = true
    · rw [List.filter_cons, List.filter_cons, if_pos (by simpa using hplace.2 ho), if_pos ho,
        List.flatMap_cons, List.flatMap_cons, ih, hlines ho]
    · rw [List.filter_cons, List.filter_cons, if_neg (by simpa using hplace.not.2 ho), if_neg ho, ih]

theorem addAll_added {is : List Addition} (h : List.Forall₂ (Added c ls) c.nested is) :
    addAll is 0 ls = ls.flatMap (markedLine c) := by
  calc addAll is 0 ls
    _ = ls.zipIdx.flatMap fun x => markedLine c x.1 := by
      rw [addAll_eq]
      refine List.flatMap_congr fun x hx => ?_
      rw [flatMap_added h hx]
      rfl
    _ = (ls.zipIdx.map Prod.fst).flatMap (markedLine c) := by rw [List.flatMap_map]
    _ = ls.flatMap (markedLine c) := by rw [List.zipIdx_map_fst]

end Additions

section Marked

variable {c : Chart} {style : Style} {ls : List String}

structure Drawable (c : Chart) : Prop where
  parts : ∀ p ∈ Node.partsOf c.roots, OneLine p.id.path
  ends : ∀ t ∈ c.transitions, OneLine t.source.path ∧ OneLine t.target.path
  initial : OneLine c.initial.path
  once : (c.nested.map Prod.fst).Nodup
  scopes : ∀ e ∈ c.nested, e.1 ∈ (Node.partsOf c.roots).filterMap Node.cluster?
  targets : ∀ e ∈ c.nested, OneLine e.2.path
  distinct : ((Node.partsOf c.roots).filterMap Node.cluster?).Nodup

def markersAfter (c : Chart) (r : Row) : List String :=
  match r.statement with
  | .openGraph _ => [markerPoint indentUnit none, markerEdge c indentUnit none c.initial]
  | .openCluster id => (c.nested.filter fun e => e.1 = id).flatMap fun e =>
      [markerPoint (indent (r.depth + 1)) (some e.1),
        markerEdge c (indent (r.depth + 1)) (some e.1) e.2]
  | _ => []

theorem semicolon_of_markersAfter {r : Row} : ∀ l ∈ markersAfter c r, [';'] <:+ l.toList := by
  intro l hl
  unfold markersAfter at hl
  split at hl
  · exact semicolon_of_marker l hl
  · obtain ⟨e, -, hl⟩ := List.mem_flatMap.1 hl
    exact semicolon_of_marker l hl
  · cases hl

def markedLines (c : Chart) (rs : List Row) : List String :=
  rs.flatMap fun r => r.lines ++ markersAfter c r

structure Marked (c : Chart) (style : Style) (dot : String) : Prop where
  text : dot = Text.joined "\n" (markedLines c (rows c style)) ++ "\n"
  oneLine : ∀ l ∈ markedLines c (rows c style), OneLine l
  top : ∃ rest, rows c style = ⟨0, .openGraph style.title⟩ :: rest ∧
    markedLines c (rows c style) = ("digraph " ++ quote style.title ++ " \x7b") ::
      markerPoint indentUnit none :: markerEdge c indentUnit none c.initial :: markedLines c rest
  nested : ∀ e ∈ c.nested, ∃ before depth after,
    rows c style = before ++ ⟨depth, .openCluster e.1⟩ :: after ∧
    (∀ r ∈ before ++ after, r.statement ≠ .openCluster e.1) ∧
    (∀ l ∈ markedLines c before ++ markedLines c after, Text.trimmed l ≠ opening e.1) ∧
    markedLines c (rows c style) = markedLines c before ++
      (indent depth ++ opening e.1) :: markerPoint (indent (depth + 1)) (some e.1) ::
        markerEdge c (indent (depth + 1)) (some e.1) e.2 :: markedLines c after

theorem oneLine_rankdir (d : Direction) : OneLine d.rankdir := by
  cases d <;> decide

theorem tidy_inside (h : Drawable c) (style : Style) :
    ∀ r ∈ (rows c style).tail, r.statement.Tidy := by
  have hsettings : ∀ r ∈ [Row.mk 1 (.setting "compound=true;"),
      ⟨1, .setting ("rankdir=" ++ (directionOf c style).rankdir ++ ";")⟩,
      ⟨1, .setting "node [shape=box, style=rounded, fontname=\"Helvetica\"];"⟩,
      ⟨1, .setting "edge [fontname=\"Helvetica\"];"⟩], r.statement.Tidy := by
    have hrankdir : OneLine ("rankdir=" ++ (directionOf c style).rankdir ++ ";") ∧
        [';'] <:+ ("rankdir=" ++ (directionOf c style).rankdir ++ ";").toList := by
      refine ⟨by simp +decide [oneLine_rankdir], ?_⟩
      rw [String.toList_append]
      exact List.suffix_append _ _
    simp only [List.forall_mem_cons]
    exact ⟨⟨by decide, by decide⟩, hrankdir, ⟨by decide, by decide⟩, ⟨by decide, by decide⟩,
      fun r hr => absurd hr List.not_mem_nil⟩
  have hedges : ∀ r ∈ c.transitions.map (edgeRow c), r.statement.Tidy := by
    refine List.forall_mem_map.2 fun t ht => ?_
    obtain ⟨hsource, htarget⟩ := h.ends t ht
    refine ⟨hsource, htarget, fun id hid => ?_, fun id hid => ?_⟩
    · unfold cutAt at hid
      split at hid
      · cases hid
        exact hsource
      · cases hid
    · unfold cutAt at hid
      split at hid
      · cases hid
        exact htarget
      · cases hid
  have hclose : ∀ r ∈ [Row.mk 0 .close], r.statement.Tidy := by simp [Statement.Tidy]
  exact List.forall_mem_append.2 ⟨List.forall_mem_append.2 ⟨List.forall_mem_append.2
    ⟨hsettings, tidy_nodesRows h.parts⟩, hedges⟩, hclose⟩

theorem statement_of_opens {r : Row} (hr : r.statement.Tidy) {l : String} (hl : l ∈ r.lines)
    {id : NodeId} (ho : opens id l = true) : r.statement = .openCluster id := by
  obtain ⟨n, s⟩ := r
  by_cases hs : ∃ id', s = .openCluster id'
  · obtain ⟨id', rfl⟩ := hs
    rw [lines_openCluster hr, List.mem_singleton] at hl
    rw [hl, opens_indent] at ho
    rw [ho]
  · rw [unopened_row hr (fun id' hid => hs ⟨id', hid⟩) l hl id] at ho
    cases ho

theorem markedLine_eq {l : String} (h : ∀ id, opens id l = false) : markedLine c l = [l] := by
  simp [markedLine, h]

theorem flatMap_markedLine {r : Row} (hr : r.statement.Tidy) :
    r.lines.flatMap (markedLine c) = r.lines ++ markersAfter c r := by
  obtain ⟨n, s⟩ := r
  by_cases hs : ∃ id, s = .openCluster id
  · obtain ⟨id, rfl⟩ := hs
    have hopens : ∀ e ∈ c.nested, opens e.1 (indent n ++ opening id) = decide (e.1 = id) := by
      intro e _
      rw [Bool.eq_iff_iff, opens_indent, decide_eq_true_iff]
    rw [lines_openCluster hr, List.flatMap_singleton, markedLine, margin_indent,
      indent_append_unit, List.filter_congr hopens]
    rfl
  · have hplain : Unopened (Row.text ⟨n, s⟩) := unopened_row hr fun id hid => hs ⟨id, hid⟩
    have hmarkers : markersAfter c ⟨n, s⟩ = [] := by
      cases s with
      | openGraph title => exact hr.elim
      | openCluster id => exact absurd ⟨id, rfl⟩ hs
      | setting | caption | anchor | node | historyNode | edge | close => rfl
    have hlines : ∀ l ∈ Row.lines ⟨n, s⟩, markedLine c l = [l] :=
      fun l hl => markedLine_eq (hplain l hl)
    rw [hmarkers, List.append_nil, List.flatMap_congr hlines, List.flatMap_singleton']

theorem exists_row (h : Drawable c) {e : NodeId × NodeId} (he : e ∈ c.nested) (style : Style) :
    ∃ before depth after, rows c style = before ++ ⟨depth, .openCluster e.1⟩ :: after ∧
      ∀ r ∈ before ++ after, r.statement ≠ .openCluster e.1 := by
  have hmem := h.scopes e he
  have hnodup := h.distinct
  rw [← (gathers_clusters c style).filterMap_rows] at hmem hnodup
  obtain ⟨⟨depth, s⟩, hrow, hid⟩ := List.mem_filterMap.1 hmem
  obtain rfl := Row.cluster?_eq_some.1 hid
  obtain ⟨before, after, hrows⟩ := List.append_of_mem hrow
  refine ⟨before, depth, after, hrows, fun r hr hs => ?_⟩
  rw [hrows, List.filterMap_append, List.filterMap_cons_some hid] at hnodup
  have hcluster : e.1 ∈ (before ++ after).filterMap Row.cluster? :=
    List.mem_filterMap.2 ⟨r, hr, Row.cluster?_eq_some.2 hs⟩
  rw [List.filterMap_append] at hcluster
  exact (List.nodup_middle.1 hnodup |> List.nodup_cons.1).1 hcluster

theorem opens_rows (h : Drawable c) (ht : OneLine style.title) {r : Row} (hr : r ∈ rows c style)
    {l : String} (hl : l ∈ r.lines) {id : NodeId} (ho : opens id l = true) :
    r.statement = .openCluster id := by
  rcases List.mem_cons.1 (show r ∈ ⟨0, .openGraph style.title⟩ :: (rows c style).tail from hr)
    with rfl | hr
  · rw [unopened_openGraph ht l hl id] at ho
    cases ho
  · exact statement_of_opens (tidy_inside h style r hr) hl ho

theorem Drawable.oneLine_scope (h : Drawable c) {e : NodeId × NodeId} (he : e ∈ c.nested) :
    OneLine e.1.path := by
  obtain ⟨p, hp, hid⟩ := List.mem_filterMap.1 (h.scopes e he)
  rw [← Node.id_of_cluster? hid]
  exact h.parts p hp

theorem exists_nested_added (h : Drawable c) (ht : OneLine style.title) {e : NodeId × NodeId}
    (he : e ∈ c.nested) : ∃ i, nestedAddition c (Text.linesOf (layout c style)) e = .ok i ∧
      Added c (Text.linesOf (layout c style)) e i := by
  obtain ⟨before, depth, after, hrows, hothers⟩ := exists_row h he style
  have hnone : ∀ r ∈ before ++ after, ∀ l ∈ r.lines, opens e.1 l = false := by
    intro r hr l hl
    have hmem : r ∈ rows c style := by
      rw [hrows]
      simp only [List.mem_append, List.mem_cons] at hr ⊢
      tauto
    exact Bool.eq_false_iff.2 fun ho => hothers r hr (opens_rows h ht hmem hl ho)
  have hlines : Text.linesOf (layout c style) = before.flatMap Row.lines ++
      (indent depth ++ opening e.1) :: after.flatMap Row.lines := by
    rw [layout, linesOf_textOf, hrows, List.flatMap_append, List.flatMap_cons,
      lines_openCluster (h.oneLine_scope he)]
    rfl
  rw [hlines]
  refine exists_added ?_ ?_ (opens_indent.2 rfl)
  · intro l hl
    obtain ⟨r, hr, hl⟩ := List.mem_flatMap.1 hl
    exact hnone r (List.mem_append_left _ hr) l hl
  · intro l hl
    obtain ⟨r, hr, hl⟩ := List.mem_flatMap.1 hl
    exact hnone r (List.mem_append_right _ hr) l hl

theorem linesOf_layout (c : Chart) (ht : OneLine style.title) :
    Text.linesOf (layout c style) =
      (Statement.openGraph style.title).text :: (rows c style).tail.flatMap Row.lines := by
  have hrows : rows c style = ⟨0, .openGraph style.title⟩ :: (rows c style).tail := rfl
  rw [layout, linesOf_textOf, hrows, List.flatMap_cons, lines_openGraph ht]
  rfl

theorem markedLines_rows (c : Chart) (ht : OneLine style.title) :
    markedLines c (rows c style) = (Statement.openGraph style.title).text ::
      markerPoint indentUnit none :: markerEdge c indentUnit none c.initial ::
        markedLines c (rows c style).tail := by
  have hrows : rows c style = ⟨0, .openGraph style.title⟩ :: (rows c style).tail := rfl
  rw [hrows, markedLines, List.flatMap_cons, lines_openGraph ht]
  rfl

theorem mark_layout (h : Drawable c) (ht : OneLine style.title) :
    mark (layout c style) c =
      .ok (Text.joined "\n" (markedLines c (rows c style)) ++ "\n") := by
  obtain ⟨is, his, hadded⟩ := exists_mapM_ok fun e he => exists_nested_added h ht he
  have hlines := linesOf_layout c ht
  have hheader : markedLine c (Statement.openGraph style.title).text =
      [(Statement.openGraph style.title).text] := by
    refine markedLine_eq fun id => unopened_openGraph ht _ ?_ id
    rw [← Row.lines, lines_openGraph ht]
    exact List.mem_singleton_self _
  have hbody : ((rows c style).tail.flatMap Row.lines).flatMap (markedLine c) =
      markedLines c (rows c style).tail := by
    rw [List.flatMap_assoc]
    exact List.flatMap_congr fun r hr => flatMap_markedLine (tidy_inside h style r hr)
  have htop : topAddition c (Text.linesOf (layout c style)) =
      .ok ⟨0, linesOfMarker c indentUnit none c.initial⟩ := by
    have hfirst : firstLine isHeader (Text.linesOf (layout c style)) =
        some ((Statement.openGraph style.title).text, 0) := by
      rw [hlines]
      exact firstLine_of_first (fun _ hl => absurd hl List.not_mem_nil)
        (isHeader_openGraph style.title)
    rw [topAddition, hfirst]
  have hall := addAll_added hadded
  rw [hlines, List.flatMap_cons, hheader, hbody, List.singleton_append] at hall
  have hmarked := addAll_top hall (linesOfMarker c indentUnit none c.initial)
  rw [linesOfMarker_eq, List.cons_append, List.cons_append, List.cons_append, List.nil_append,
    ← markedLines_rows c ht, ← hlines, ← linesOfMarker_eq] at hmarked
  refine bind_ok.2 ⟨_, htop, bind_ok.2 ⟨is, his, ?_⟩⟩
  rw [hmarked]
  rfl

theorem oneLine_linesOfMarker {m : String} (hm : OneLine m) {scope : Option NodeId}
    (hs : ∀ s ∈ scope, OneLine s.path) {target : NodeId} (ht : OneLine target.path) :
    ∀ l ∈ linesOfMarker c m scope target, OneLine l := by
  have hnode : OneLine (markerNode scope) := by
    cases scope with
    | none => exact (by decide : OneLine markerStem)
    | some s => exact oneLine_append.2 ⟨by decide, hs s rfl⟩
  have hhead : OneLine (if c.nests target then " [lhead=" ++ quote (clusterId target) ++ "]" else "") := by
    split
    · simp +decide [clusterId, ht]
    · decide
  simp +decide [linesOfMarker, hm, hnode, ht, hhead]

theorem oneLine_markedLines (h : Drawable c) (rs : List Row) :
    ∀ l ∈ markedLines c rs, OneLine l := by
  intro l hl
  obtain ⟨r, -, hl⟩ := List.mem_flatMap.1 hl
  rcases List.mem_append.1 hl with hl | hl
  · exact Text.oneLine_of_mem_linesOf hl
  · unfold markersAfter at hl
    split at hl
    · exact oneLine_linesOfMarker (by decide) (fun s hs => by cases hs) h.initial l hl
    · obtain ⟨e, he, hl⟩ := List.mem_flatMap.1 hl
      have he := List.mem_of_mem_filter he
      refine oneLine_linesOfMarker (oneLine_indent _) (fun s hs => ?_) (h.targets e he) l hl
      cases hs
      exact h.oneLine_scope he
    · cases hl

theorem marked_layout (h : Drawable c) (ht : OneLine style.title) :
    ∃ dot, mark (layout c style) c = .ok dot ∧ Marked c style dot := by
  refine ⟨_, mark_layout h ht, rfl, oneLine_markedLines h _, ⟨_, rfl, markedLines_rows c ht⟩, ?_⟩
  intro e he
  obtain ⟨before, depth, after, hrows, hothers⟩ := exists_row h he style
  have hmem : ∀ r ∈ before ++ after, r ∈ rows c style := by
    intro r hr
    rw [hrows]
    exact List.append_subset.2 ⟨List.subset_append_left _ _, fun x hx => by simp [hx]⟩ hr
  have hlines : ∀ l ∈ markedLines c (before ++ after), Text.trimmed l ≠ opening e.1 := by
    intro l hl hopening
    obtain ⟨r, hr, hl⟩ := List.mem_flatMap.1 hl
    rcases List.mem_append.1 hl with hl | hl
    · exact hothers r hr (opens_rows h ht (hmem r hr) hl (opens_eq_true.2 hopening))
    · have hends := trim_ne_of_end (semicolon_of_markersAfter l hl) e.1
      exact hends (by rw [← hopening, Text.trimmed, String.toList_ofList])
  rw [markedLines, List.flatMap_append, ← markedLines, ← markedLines] at hlines
  refine ⟨before, depth, after, hrows, hothers, hlines, ?_⟩
  have hmarkers : markersAfter c ⟨depth, .openCluster e.1⟩ =
      [markerPoint (indent (depth + 1)) (some e.1),
        markerEdge c (indent (depth + 1)) (some e.1) e.2] := by
    have hone : (c.nested.filter fun e' => e'.1 = e.1) = [e] := filter_key_eq h.once he
    unfold markersAfter
    simp only [hone, List.flatMap_singleton]
  rw [hrows, markedLines, List.flatMap_append, List.flatMap_cons, hmarkers,
    lines_openCluster (h.oneLine_scope he)]
  simp [markedLines]

end Marked

end Dot

theorem oneLine_regionName (k : Nat) : OneLine (regionName k) :=
  notMem_regionName (by decide) (by decide) k

theorem oneLine_child {a : NodeId} {name : String} (ha : OneLine a.path) (hn : OneLine name) :
    OneLine (NodeId.child (some a) name).path :=
  oneLine_append.2 ⟨oneLine_append.2 ⟨ha, by decide⟩, hn⟩

namespace WellNested

variable {ss : List State} {rs : List RegionSlot}

theorem oneLine_id (h : WellNested ss rs) (hn : ∀ s ∈ ss, IsName s.name) {s : State} (hs : s ∈ ss) :
    OneLine s.id.path := by
  induction hd : s.id.segments.length using Nat.strong_induction_on generalizing s with
  | _ n ih =>
    have hname := (hn s hs).oneLine
    rw [h.qualified s hs]
    cases hsc : s.scope with
    | top => exact hname
    | composite p =>
      obtain ⟨t, ht, rfl, -⟩ := h.composite s hs p hsc
      have hlt := h.segments_lt hs (scope_eq_composite.1 hsc).1
      exact oneLine_child (ih _ (hd ▸ hlt) ht rfl) hname
    | region p k =>
      obtain ⟨q, hq, rfl, -⟩ := h.region s hs p k hsc
      obtain ⟨-, t, ht, hid, -⟩ := h.owner q hq
      have hlt := h.segments_lt hs (scope_eq_region.1 hsc).1
      rw [← hid] at hlt ⊢
      exact oneLine_child (oneLine_child (ih _ (hd ▸ hlt) ht rfl) (oneLine_regionName k)) hname

theorem oneLine_region (h : WellNested ss rs) (hn : ∀ s ∈ ss, IsName s.name) {q : RegionSlot}
    (hq : q ∈ rs) : OneLine q.id.path := by
  obtain ⟨hid, t, ht, htid, -⟩ := h.owner q hq
  rw [hid, ← htid]
  exact oneLine_child (h.oneLine_id hn ht) (oneLine_regionName q.index)

end WellNested

theorem Node.cluster?_sublist (ps : List Node) :
    (ps.filterMap cluster?).Sublist (ps.map id) := by
  induction ps with
  | nil => exact .slnil
  | cons p ps ih =>
    cases p with
    | composite | concurrent | region => exact ih.cons_cons _
    | simple | history => exact ih.cons _

namespace Assembled

variable {f : FlatChart} {c : Chart}

theorem cluster_of_nested (h : f.Sound) (ha : Assembled f c) {e : NodeId × NodeId}
    (he : e ∈ c.nested) : e.1 ∈ (Node.partsOf c.roots).filterMap Node.cluster? := by
  obtain ⟨u, -, -, -, hscope⟩ := ha.targets h e he
  rcases hscope with ⟨s, hs, hid, hk, -⟩ | ⟨r, hr, hid, -⟩
  · obtain ⟨p, hp, hpid, -, hpk⟩ := ha.exists_part h hs
    refine List.mem_filterMap.2 ⟨p, hp, ?_⟩
    rw [hk] at hpk
    rw [← hid, ← hpid]
    cases p with
    | composite => rfl
    | simple | history | concurrent | region => cases hpk
  · obtain ⟨p, hp, hpid⟩ := ha.exists_region_part h (ha.mem_slots hr)
    refine List.mem_filterMap.2 ⟨p, hp, ?_⟩
    rw [← hid]
    cases p with
    | region => exact hpid
    | simple | history | composite | concurrent => cases hpid

theorem oneLine_part (h : f.Sound) (ha : Assembled f c) {p : Node}
    (hp : p ∈ Node.partsOf c.roots) : OneLine p.id.path := by
  cases ha.shape p hp with
  | simple hs _ | history hs _ | composite hs _ _ | concurrent hs _ =>
    exact h.nested.oneLine_id h.names hs
  | region hq _ => exact h.nested.oneLine_region h.names hq

theorem drawable (h : f.Sound) (ha : Assembled f c) : Dot.Drawable c := by
  have hclean : ∀ {x : NodeId}, (∃ s ∈ f.states, s.id = x) → OneLine x.path := by
    rintro x ⟨s, hs, rfl⟩
    exact h.nested.oneLine_id h.names hs
  constructor
  case parts => exact fun p hp => ha.oneLine_part h hp
  case ends =>
    rw [ha.transitions]
    exact fun t ht => ⟨hclean (h.sources t ht), hclean (h.targets t ht)⟩
  case initial =>
    obtain ⟨i, hi, -, htarget⟩ := ha.initial
    obtain ⟨s, hs, hid, -⟩ := h.initials i hi
    exact hclean ⟨s, hs, hid.trans htarget⟩
  case once => exact ha.table.ordered.nodup
  case scopes => exact fun e he => ha.cluster_of_nested h he
  case targets =>
    intro e he
    obtain ⟨u, hu, hid, -⟩ := ha.targets h e he
    exact hclean ⟨u, hu, hid⟩
  case distinct => exact (ha.nodup_parts h).sublist (Node.cluster?_sublist _)

end Assembled

theorem Renderer.run_of_mark {r : Renderer} {input dot : String} {c : Chart}
    (hlayout : r.layout = .dot) (hc : r.parse input = .ok c)
    (hdot : Dot.mark (Dot.layout c r.style) c = .ok dot) :
    r.run input = .ok ⟨dot, Config.ofChart c⟩ := by
  have hdraw : r.draw c = .ok (Dot.layout c r.style) := by
    rw [Renderer.draw, hlayout]
    rfl
  have hmark : Renderer.mark (Dot.layout c r.style) c = .ok dot := by
    rw [Renderer.mark, hdot]
    rfl
  exact bind_ok.2 ⟨c, hc, bind_ok.2 ⟨_, hdraw, bind_ok.2 ⟨dot, hmark, rfl⟩⟩⟩

theorem Renderer.marked_of_parse {r : Renderer} {input : String} {c : Chart}
    (hlayout : r.layout = .dot) (htitle : OneLine r.style.title) (hc : r.parse input = .ok c) :
    ∃ out, r.run input = .ok out ∧ Dot.Marked c r.style out.dot := by
  obtain ⟨f, hf, ha⟩ := parse_ok hc
  obtain ⟨dot, hdot, hmarked⟩ := Dot.marked_layout (ha.drawable hf) htitle
  exact ⟨_, Renderer.run_of_mark hlayout hc hdot, hmarked⟩

def Sample.marked : List String :=
  ["digraph \"StateMachine\" \x7b", "  \"__initial__\" [shape=point, width=0.15, label=\"\"];",
    "  \"__initial__\" -> \"On\" [lhead=\"cluster_On\"];", "  compound=true;", "  rankdir=TB;",
    "  node [shape=box, style=rounded, fontname=\"Helvetica\"];",
    "  edge [fontname=\"Helvetica\"];", "  subgraph \"cluster_On\" \x7b",
    "    \"__initial__On\" [shape=point, width=0.15, label=\"\"];",
    "    \"__initial__On\" -> \"On/A\";", "    label=\"On\";", "    style=rounded;",
    "    \"On\" [shape=point, style=invis, width=0, label=\"\"];", "    \"On/A\" [label=\"A\"];",
    "    \"On/B\" [label=\"B\"];",
    "    \"On/H\" [label=\"H\", shape=circle, width=0.3, fixedsize=true];", "  \x7d",
    "  \"Off\" [label=\"Off\"];", "  subgraph \"cluster_Two\" \x7b", "    label=\"Two\";",
    "    style=rounded;", "    \"Two\" [shape=point, style=invis, width=0, label=\"\"];",
    "    subgraph \"cluster_Two/region1\" \x7b",
    "      \"__initial__Two/region1\" [shape=point, width=0.15, label=\"\"];",
    "      \"__initial__Two/region1\" -> \"Two/region1/A\";", "      label=\"\";",
    "      style=dashed;", "      \"Two/region1/A\" [label=\"A\"];", "    \x7d",
    "    subgraph \"cluster_Two/region2\" \x7b",
    "      \"__initial__Two/region2\" [shape=point, width=0.15, label=\"\"];",
    "      \"__initial__Two/region2\" -> \"Two/region2/B\";", "      label=\"\";",
    "      style=dashed;", "      \"Two/region2/B\" [label=\"B\"];", "    \x7d", "  \x7d",
    "  \"Off\" -> \"On/H\";", "  \"On/A\" -> \"On/B\";", "\x7d"]

theorem Sample.markedLines_rows :
    Dot.markedLines Sample.chart (Dot.rows Sample.chart {}) = Sample.marked := by
  decide +kernel

theorem Renderer.marked_sample : OneLine ({} : Renderer).style.title ∧
    ({} : Renderer).parse Sample.text = .ok Sample.chart ∧
    ∃ out, ({} : Renderer).run Sample.text = .ok out ∧
      out.dot = Text.joined "\n" Sample.marked ++ "\n" ∧ Dot.Marked Sample.chart {} out.dot := by
  obtain ⟨out, hout, hmarked⟩ :=
    Renderer.marked_of_parse (r := {}) rfl (by decide) Sample.parse_text
  have htext := hmarked.text
  rw [show ({} : Renderer).style = {} from rfl, Sample.markedLines_rows] at htext
  exact ⟨by decide, Sample.parse_text, out, hout, htext, hmarked⟩

end Statechart
