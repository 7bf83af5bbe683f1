import Mathlib
import Statechart.Proofs.Clusters
import Statechart.Proofs.MarkerNames
import Statechart.Proofs.WholeLines

namespace Statechart.Dot

/-- What is quoted after a key and an equals sign, where they first stand outside quotes. -/
def valueOf (key : String) (m : Mode) : List Char → Option String
  | [] => none
  | c :: cs =>
    match m, quotedAfter (key ++ "=") (c :: cs) with
    | .plain, some (value, _) => some value
    | _, _ => valueOf key (m.next c) cs

structure Arc where
  source : String
  target : String
  tail : Option String
  head : Option String
  deriving DecidableEq, Repr

def Arc.ends (a : Arc) : String × String :=
  (a.source, a.target)

def arc? (statement : String) : Option Arc := do
  let (source, rest) ← quotedAfter "" (statement.toList.dropWhile (· = ' '))
  let (target, rest) ← quotedAfter " -> " rest
  return ⟨source, target, valueOf "ltail" .plain rest, valueOf "lhead" .plain rest⟩

def arcs (dot : String) : List Arc :=
  (statementsOf dot).filterMap arc?

def edgeArc (c : Chart) (t : Transition) : Arc where
  source := t.source.path
  target := t.target.path
  tail := (cutAt c t.source t.target).map clusterId
  head := (cutAt c t.target t.source).map clusterId

def markerArc (c : Chart) (start : Option NodeId × NodeId) : Arc where
  source := markerNode start.1
  target := start.2.path
  tail := none
  head := if c.nests start.2 then some (clusterId start.2) else none

section Attributes

variable {key word : String} {cs rest : List Char}

def keyed (a : String × String) : String :=
  a.1 ++ "=" ++ quote a.2

def attributesOf (label : String) (tail head : Option NodeId) : List (String × String) :=
  (if label = "" then [] else [("label", label)]) ++
    (tail.map fun id => ("ltail", clusterId id)).toList ++
    (head.map fun id => ("lhead", clusterId id)).toList

theorem edgeAttributes_eq (label : String) (tail head : Option NodeId) :
    Statement.edgeAttributes label tail head = (attributesOf label tail head).map keyed := by
  unfold Statement.edgeAttributes attributesOf
  split <;> cases tail <;> cases head <;> rfl

theorem attributesOf_keys (label : String) (tail head : Option NodeId) :
    ∀ a ∈ attributesOf label tail head, a.1 ∈ ["label", "ltail", "lhead"] := by
  unfold attributesOf
  split <;> cases tail <;> cases head <;> simp

theorem valueOf_escape (key : String) (cs rest : List Char) :
    valueOf key .quoted (escape cs ++ '"' :: rest) = valueOf key .plain rest := by
  refine escape_induction
    (P := fun w => valueOf key .quoted (w ++ '"' :: rest) = valueOf key .plain rest) rfl
    (fun c w ih => ?_) (fun c w hback hquote ih => ?_) cs
  · simpa [valueOf, Mode.next] using ih
  · simpa [valueOf, Mode.next, hback, hquote] using ih

/-- Whether no place in a text without quotes can be where a quoted value of the key begins. -/
def lacks (key : String) : List Char → Bool
  | [] => true
  | c :: cs =>
    let start := (key ++ "=").toList ++ ['"']
    c ≠ '"' && !(c :: cs).isPrefixOf start && !start.isPrefixOf (c :: cs) && lacks key cs

theorem valueOf_skip (h : lacks key cs) (rest : List Char) :
    valueOf key .plain (cs ++ rest) = valueOf key .plain rest := by
  induction cs with
  | nil => rfl
  | cons c cs ih =>
    simp only [lacks, Bool.and_eq_true, decide_eq_true_eq, Bool.not_eq_true', Bool.eq_false_iff,
      List.isPrefixOf_iff_prefix, ne_eq] at h
    obtain ⟨⟨⟨hquote, hshort⟩, hlong⟩, hcs⟩ := h
    have hnone : quotedAfter (key ++ "=") (c :: (cs ++ rest)) = none := by
      refine quotedAfter_eq_none fun hp => ?_
      exact (List.prefix_or_prefix_of_prefix hp (List.prefix_append (c :: cs) rest)).elim hlong
        hshort
    have hnext : Mode.plain.next c = .plain := if_neg hquote
    rw [List.cons_append]
    simp only [valueOf, hnone, hnext, ih hcs]

theorem valueOf_found (key s : String) (rest : List Char) :
    valueOf key .plain ((keyed (key, s)).toList ++ rest) = some s := by
  have hquoted := quotedAfter_quote (key ++ "=") s rest
  obtain ⟨c, cs, hcs⟩ := List.exists_cons_of_ne_nil (show (key ++ "=").toList ≠ [] by simp)
  rw [keyed, String.toList_append]
  rw [hcs, List.cons_append, List.cons_append] at hquoted ⊢
  simp only [valueOf, hquoted]

theorem valueOf_quote (hkey : key ∈ ["ltail", "lhead"]) (s : String) (rest : List Char) :
    valueOf key .plain ((quote s).toList ++ rest) = valueOf key .plain rest := by
  have hnone : ∀ cs, quotedAfter (key ++ "=") ('"' :: cs) = none := by
    simp only [List.mem_cons, List.not_mem_nil, or_false] at hkey
    rcases hkey with rfl | rfl <;> exact quotedAfter_cons (d := 'l') rfl (by decide)
  have hnext : Mode.plain.next '"' = .quoted := rfl
  simp only [toList_quote, List.cons_append, List.append_assoc, List.nil_append, valueOf, hnone,
    hnext]
  exact valueOf_escape key s.toList rest

theorem valueOf_keyed (hkey : key ∈ ["ltail", "lhead"]) {a : String × String}
    (ha : a.1 ∈ ["label", "ltail", "lhead"]) (rest : List Char) :
    valueOf key .plain ((keyed a).toList ++ rest) =
      if key = a.1 then some a.2 else valueOf key .plain rest := by
  obtain ⟨word, value⟩ := a
  split
  · rename_i heq
    obtain rfl : key = word := heq
    exact valueOf_found key value rest
  · rename_i hne
    have hword : lacks key (word ++ "=").toList := by
      simp only [List.mem_cons, List.not_mem_nil, or_false] at hkey ha
      rcases hkey with rfl | rfl <;> rcases ha with rfl | rfl | rfl <;>
        first | exact absurd rfl hne | decide
    rw [keyed, String.toList_append, List.append_assoc, valueOf_skip hword, valueOf_quote hkey]

theorem valueOf_joined (hkey : key ∈ ["ltail", "lhead"]) {as : List (String × String)}
    (has : ∀ a ∈ as, a.1 ∈ ["label", "ltail", "lhead"]) {rest : List Char}
    (hrest : valueOf key .plain rest = none) :
    valueOf key .plain ((Text.joined ", " (as.map keyed)).toList ++ rest) = as.lookup key := by
  have hcomma : lacks key ", ".toList := by
    simp only [List.mem_cons, List.not_mem_nil, or_false] at hkey
    rcases hkey with rfl | rfl <;> decide
  induction as with
  | nil => exact hrest
  | cons a as ih =>
    obtain ⟨ha, has⟩ := List.forall_mem_cons.1 has
    have hlookup : (a :: as).lookup key = if key = a.1 then some a.2 else as.lookup key := by
      rw [List.lookup_cons]
      split <;> simp_all
    rw [hlookup]
    cases as with
    | nil => rw [List.map_singleton, Text.joined, valueOf_keyed hkey ha, hrest, List.lookup_nil]
    | cons b bs =>
      rw [List.map_cons, List.map_cons, Text.joined, String.toList_append, String.toList_append,
        List.append_assoc, List.append_assoc, valueOf_keyed hkey ha, valueOf_skip hcomma]
      exact congrArg _ (ih has)

theorem valueOf_attributes (hkey : key ∈ ["ltail", "lhead"]) (label : String)
    (tail head : Option NodeId) :
    valueOf key .plain ((Statement.attributes (Statement.edgeAttributes label tail head)).toList ++
      ";".toList) = (attributesOf label tail head).lookup key := by
  have hlacks : lacks key " [".toList ∧ lacks key "];".toList ∧ lacks key ";".toList := by
    simp only [List.mem_cons, List.not_mem_nil, or_false] at hkey
    rcases hkey with rfl | rfl <;> decide
  obtain ⟨hopen, hclose, hend⟩ := hlacks
  have hnone : ∀ {cs}, lacks key cs → valueOf key .plain cs = none := by
    intro cs hcs
    have hskip := valueOf_skip hcs []
    rwa [List.append_nil] at hskip
  have hjoined := valueOf_joined hkey (attributesOf_keys label tail head) (hnone hclose)
  rw [edgeAttributes_eq]
  cases has : attributesOf label tail head with
  | nil => exact hnone hend
  | cons a as =>
    have hsplit : (Statement.attributes ((a :: as).map keyed)).toList ++ ";".toList =
        " [".toList ++ ((Text.joined ", " ((a :: as).map keyed)).toList ++ "];".toList) := by
      simp [Statement.attributes]
    rw [has] at hjoined
    rw [hsplit, valueOf_skip hopen, hjoined]

theorem lookup_tail (label : String) (tail head : Option NodeId) :
    (attributesOf label tail head).lookup "ltail" = tail.map clusterId := by
  unfold attributesOf
  split <;> cases tail <;> cases head <;> rfl

theorem lookup_head (label : String) (tail head : Option NodeId) :
    (attributesOf label tail head).lookup "lhead" = head.map clusterId := by
  unfold attributesOf
  split <;> cases tail <;> cases head <;> rfl

end Attributes

section Arcs

variable {c : Chart} {style : Style}

theorem ends_arc? (s : String) : (arc? s).map Arc.ends = (said s).edge? := by
  rw [arc?, said, saidAfterIndent]
  cases quotedAfter "" (s.toList.dropWhile (· = ' ')) with
  | none =>
    cases quotedAfter "subgraph " (s.toList.dropWhile (· = ' ')) with
    | some r => rfl
    | none =>
      cases quotedAfter "digraph " (s.toList.dropWhile (· = ' ')) with
      | some r => rfl
      | none =>
        dsimp only
        split <;> rfl
  | some r =>
    obtain ⟨source, rest⟩ := r
    cases h : quotedAfter " -> " rest with
    | none => simp [h, Said.edge?]
    | some r => simp [h, Said.edge?, Arc.ends]

theorem arc?_eq_none {s : String} (h : (said s).edge? = none) : arc? s = none := by
  rwa [← ends_arc?, Option.map_eq_none_iff] at h

theorem arc?_edge (n : Nat) (source target : NodeId) (label : String) (tail head : Option NodeId) :
    arc? (indent n ++ (Statement.edge source target label tail head).text) =
      some ⟨source.path, target.path, tail.map clusterId, head.map clusterId⟩ := by
  let rest :=
    (Statement.attributes (Statement.edgeAttributes label tail head)).toList ++ ";".toList
  have htext : (indent n ++ (Statement.edge source target label tail head).text).toList.dropWhile
      (· = ' ') = (quote source.path).toList ++ (" -> ".toList ++ (quote target.path).toList ++
        rest) := by
    rw [String.toList_append, dropWhile_indent]
    simp [Statement.text, toList_quote, rest]
  have hsource := quotedAfter_quote "" source.path
    (" -> ".toList ++ (quote target.path).toList ++ rest)
  have htarget := quotedAfter_quote " -> " target.path rest
  rw [String.toList_empty, List.nil_append] at hsource
  have htail : valueOf "ltail" .plain rest = tail.map clusterId :=
    (valueOf_attributes (by decide) label tail head).trans (lookup_tail label tail head)
  have hhead : valueOf "lhead" .plain rest = head.map clusterId :=
    (valueOf_attributes (by decide) label tail head).trans (lookup_head label tail head)
  rw [arc?, htext, hsource, ← htail, ← hhead]
  simp only [Option.bind_eq_bind, Option.bind_some, htarget]
  rfl

/-- A label is not read for attributes. -/
example : arc? "  \"A\" -> \"B\" [label=\"lhead=\\\"cluster_A\\\"\", lhead=\"cluster_B\"];" =
    some ⟨"A", "B", none, some "cluster_B"⟩ := by
  decide +kernel

theorem markerEdge_eq (c : Chart) (margin : String) (scope : Option NodeId) (target : NodeId) :
    markerEdge c margin scope target = margin ++ (Statement.edge ⟨markerNode scope⟩ target "" none
      (if c.nests target then some target else none)).text := by
  unfold markerEdge
  split <;> simp [Statement.text, Statement.edgeAttributes, Statement.attributes, Text.joined,
    ← String.toList_inj]

theorem arc?_markerEdge (c : Chart) (n : Nat) (start : Option NodeId × NodeId) :
    arc? (markerEdge c (indent n) start.1 start.2) = some (markerArc c start) := by
  rw [markerEdge_eq, arc?_edge, markerArc]
  split <;> rfl

theorem arcs_markersAfter (c : Chart) (r : Row) :
    (markersAfter c r).filterMap arc? = (startsAfter c r).map (markerArc c) := by
  obtain ⟨n, hn⟩ := exists_inset r
  have hmarker : ∀ e : Option NodeId × NodeId,
      (linesOfMarker c (indent n) e.1 e.2).filterMap arc? = [markerArc c e] := by
    intro e
    have hsaid := said_linesOfMarker (c := c) n e.1 e.2
    have hpoint := (List.cons.inj hsaid).1
    rw [show linesOfMarker c (indent n) e.1 e.2 = [_, markerEdge c (indent n) e.1 e.2] from rfl,
      List.filterMap_cons_none (arc?_eq_none (by rw [hpoint]; rfl)),
      List.filterMap_cons_some (arc?_markerEdge c n e), List.filterMap_nil]
  rw [markersAfter_eq, hn, List.filterMap_flatMap]
  simp only [hmarker]
  exact List.map_eq_flatMap.symm

theorem edge?_nodesRows : ∀ r ∈ nodesRows c style 1 c.roots, r.statement.said.edge? = none := by
  have hown : ∀ d p, ∀ r ∈ ownRows c style d p, r.statement.said.edge? = none := by
    intro d p
    cases p <;> simp [ownRows, clusterHead, regionHead, Statement.said, Said.edge?]
  intro r hr
  obtain ⟨p, -, d, hr⟩ := mem_nodesRows c.roots hr
  exact hown d p r hr

theorem arcs_rows (h : Drawable c) (ht : OneLine style.title)
    (hlabels : ∀ t ∈ c.transitions, OneLine t.label.text) :
    ((rows c style).filterMap fun r => arc? (unreturned r.text)) =
      c.transitions.map (edgeArc c) := by
  have hnone : ∀ r ∈ rows c style, r.statement.said.edge? = none →
      arc? (unreturned r.text) = none := by
    intro r hr hsaid
    refine arc?_eq_none ?_
    rw [said_unreturned_rows h ht r hr, hsaid]
  have hedge : ∀ t ∈ c.transitions, edgeRow c t ∈ rows c style →
      arc? (unreturned (edgeRow c t).text) = some (edgeArc c t) := by
    intro t ht hr
    have hone : OneLine (edgeRow c t).text :=
      (oneLine_rows h hr).2 (List.forall_mem_singleton.2 (hlabels t ht))
    rw [unreturned_of_oneLine hone (legible_rows c style _ hr).whole]
    exact arc?_edge 1 t.source t.target t.label.text _ _
  obtain ⟨front, hrows, hfront⟩ : ∃ front,
      rows c style = front ++ c.transitions.map (edgeRow c) ++ [⟨0, .close⟩] ∧
        ∀ r ∈ front, r.statement.said.edge? = none := by
    refine ⟨_, rfl, List.forall_mem_append.2 ⟨?_, edge?_nodesRows⟩⟩
    simp [Statement.said, Said.edge?]
  rw [hrows] at hnone hedge ⊢
  rw [List.filterMap_append, List.filterMap_append, List.filterMap_map]
  have hbefore : (front.filterMap fun r => arc? (unreturned r.text)) = [] :=
    List.filterMap_eq_nil_iff.2 fun r hr => hnone r (by simp [hr]) (hfront r hr)
  have hedges : c.transitions.filterMap ((fun r => arc? (unreturned r.text)) ∘ edgeRow c) =
      c.transitions.filterMap (some ∘ edgeArc c) :=
    List.filterMap_congr fun t ht => hedge t ht (by simp [List.mem_map_of_mem ht])
  have hafter : ([⟨0, .close⟩] : List Row).filterMap (fun r => arc? (unreturned r.text)) = [] :=
    List.filterMap_eq_nil_iff.2 (List.forall_mem_singleton.2 (hnone _ (by simp) rfl))
  rw [hbefore, hedges, hafter, List.filterMap_eq_map, List.nil_append, List.append_nil]

theorem arcs_perm (h : Drawable c) (ht : OneLine style.title)
    (hlabels : ∀ t ∈ c.transitions, OneLine t.label.text) :
    (arcs (Text.joined "\n" (markedLines c (rows c style)) ++ "\n")).Perm
      (c.transitions.map (edgeArc c) ++ c.starts.map (markerArc c)) := by
  have hrow : ∀ r : Row, (unreturned r.text :: markersAfter c r).filterMap arc? =
      (arc? (unreturned r.text)).toList ++ (startsAfter c r).map (markerArc c) := by
    intro r
    rw [List.filterMap_cons, arcs_markersAfter]
    cases arc? (unreturned r.text) <;> rfl
  rw [arcs, statementsOf_markedLines c ht, List.filterMap_flatMap, funext hrow]
  refine (List.flatMap_append_perm _ _ _).symm.trans ?_
  rw [← List.map_flatMap, ← List.filterMap_eq_flatMap_toList, arcs_rows h ht hlabels]
  exact ((startsAfter_perm h style).map _).append_left _

end Arcs

end Statechart.Dot
