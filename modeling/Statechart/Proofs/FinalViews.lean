import Mathlib
import Statechart.Proofs.Arrows
import Statechart.Proofs.Clipping

namespace Statechart

namespace Dot

section Reading

variable {m k : Mode} {a b cs : List Char} {s t : String}

def unquoted (m : Mode) : List Char → List Char
  | [] => []
  | c :: cs =>
    if m = .plain ∧ c ≠ '"' then c :: unquoted (m.next c) cs else unquoted (m.next c) cs

def outside (s : String) : List Char :=
  unquoted .plain s.toList

def attributesIn (statement : String) : List (List Char) :=
  ((outside statement).splitOnP fun c => c ∈ ['[', ',', ']']).map Text.trim

def isDoubled (statement : String) : Bool :=
  "peripheries=2".toList ∈ attributesIn statement

def doubledNodes (dot : String) : List String :=
  (statementsOf dot).filterMap fun s => if isDoubled s then (said s).node? else none

theorem unquoted_append (h : scan m a = some k) (b : List Char) :
    unquoted m (a ++ b) = unquoted m a ++ unquoted k b := by
  induction a generalizing m with
  | nil =>
    obtain rfl := Option.some.inj h
    rfl
  | cons c a ih =>
    rw [scan] at h
    split at h
    · cases h
    · rw [List.cons_append, unquoted, unquoted, ih h]
      split <;> rfl

theorem outside_append (h : Whole s) (t : String) : outside (s ++ t) = outside s ++ outside t := by
  rw [outside, String.toList_append, unquoted_append h]
  rfl

theorem unquoted_escape (cs : List Char) : unquoted .quoted (escape cs) = [] := by
  refine escape_induction (P := fun w => unquoted .quoted w = []) rfl (fun c w ih => ?_)
    (fun c w hback hquote ih => ?_) cs
  · simpa [unquoted, Mode.next] using ih
  · simpa [unquoted, Mode.next, hback, hquote] using ih

def Inner (s : String) : Prop :=
  scan .quoted s.toList = some .quoted ∧ unquoted .quoted s.toList = []

theorem Inner.append (hs : Inner s) (ht : Inner t) : Inner (s ++ t) := by
  rw [Inner, String.toList_append, scan_append, hs.1, unquoted_append hs.1, hs.2]
  exact ht

theorem inner_escaped (s : String) : Inner (escaped s) := by
  rw [Inner, escaped, String.toList_ofList]
  exact ⟨scan_escape s.toList, unquoted_escape s.toList⟩

theorem Inner.outside_quoted {body : String} (h : Inner body) :
    outside ("\"" ++ body ++ "\"") = [] := by
  obtain ⟨h, h'⟩ := h
  rw [outside, String.append_assoc, String.toList_append, String.toList_append,
    unquoted_append (show scan .plain "\"".toList = some .quoted from rfl), unquoted_append h, h']
  rfl

theorem outside_quote (s : String) : outside (quote s) = [] :=
  (inner_escaped s).outside_quoted

theorem outside_quoteLines (ss : List String) : outside (quoteLines ss) = [] := by
  have hbody : Inner (Text.joined "\\n" (ss.map escaped)) :=
    Text.joined_induction (P := Inner) ⟨rfl, rfl⟩ (fun _ _ => Inner.append) ⟨by decide, by decide⟩
      (List.forall_mem_map.2 fun s _ => inner_escaped s)
  exact hbody.outside_quoted

theorem unquoted_feed (h : m ≠ .plain) (cs : List Char) :
    unquoted m ('\n' :: cs) = unquoted .quoted cs := by
  cases m with
  | plain => exact absurd rfl h
  | quoted | escaped => rfl

theorem unquoted_chop_cut (h : scan m (a ++ '\n' :: b) = some k) :
    unquoted m (Text.chop a ++ '\n' :: b) = unquoted m (a ++ '\n' :: b) := by
  rcases Text.chop_cases a with heq | heq
  · rw [← heq]
  · rw [heq, List.append_assoc, List.singleton_append, scan_append] at h
    obtain ⟨n, hn, hb⟩ := Option.bind_eq_some_iff.1 h
    have hreturn : unquoted n ('\r' :: '\n' :: b) = unquoted n ('\n' :: b) := by
      cases n with
      | plain => simp [scan] at hb
      | quoted | escaped => rfl
    conv_rhs => rw [heq, List.append_assoc, List.singleton_append]
    rw [unquoted_append hn, unquoted_append hn, hreturn]

theorem unquoted_unreturned (h : scan m cs = some .plain) :
    unquoted m (Text.join '\n' ((Text.split '\n' cs).map Text.chop)) = unquoted m cs := by
  refine unreturned_induction (P := fun m cs w => unquoted m w = unquoted m cs) (fun _ _ _ => rfl)
    (fun m k a b b' hk hne h ih => ?_) h
  rw [← unquoted_chop_cut h, unquoted_append hk, unquoted_append hk, unquoted_feed hne,
    unquoted_feed hne, ih]

theorem outside_unreturned (h : Whole s) : outside (unreturned s) = outside s := by
  rw [outside, unreturned, String.toList_ofList]
  exact unquoted_unreturned h

theorem unquoted_of_notMem (h : '"' ∉ cs) : unquoted .plain cs = cs := by
  induction cs with
  | nil => rfl
  | cons c cs ih =>
    obtain ⟨hc, hcs⟩ := not_or.1 (List.mem_cons.not.1 h)
    rw [unquoted, if_pos ⟨rfl, Ne.symm hc⟩, Mode.next, if_neg (Ne.symm hc), ih hcs]

theorem attributesIn_indent (n : Nat) (s : String) :
    attributesIn (indent n ++ s) = attributesIn s := by
  have hindent : outside (indent n) = (indent n).toList :=
    unquoted_of_notMem fun h => absurd (eq_blank_of_mem_indent h) (by decide)
  have hplain : ∀ x ∈ (indent n).toList, decide (x ∈ ['[', ',', ']']) = false := by
    intro x hx
    rw [eq_blank_of_mem_indent hx]
    decide
  obtain ⟨q, qs, hq⟩ := List.exists_cons_of_ne_nil
    (List.splitOnP_ne_nil (fun c => decide (c ∈ ['[', ',', ']'])) (outside s))
  rw [attributesIn, attributesIn, outside_append (whole_indent n), hindent,
    Text.splitOnP_append_left hplain, hq, List.modifyHead_cons, List.map_cons, List.map_cons,
    Text.trim_append_of_blank isBlank_indent]

theorem isDoubled_indent (n : Nat) (s : String) : isDoubled (indent n ++ s) = isDoubled s := by
  rw [isDoubled, attributesIn_indent, isDoubled]

structure Similar (s t : String) : Prop where
  left : Whole s
  right : Whole t
  outside : outside s = outside t

theorem Similar.refl (h : Whole s) : Similar s s :=
  ⟨h, h, rfl⟩

theorem Similar.append {s' t' : String} (h : Similar s t) (h' : Similar s' t') :
    Similar (s ++ s') (t ++ t') := by
  refine ⟨whole_append h.left h'.left, whole_append h.right h'.right, ?_⟩
  rw [outside_append h.left, outside_append h.right, h.outside, h'.outside]

theorem similar_quote (s : String) : Similar (quote s) "" :=
  ⟨whole_quote s, by decide, outside_quote s⟩

theorem similar_quoteLines (ss : List String) : Similar (quoteLines ss) "" :=
  ⟨whole_quoteLines ss, by decide, outside_quoteLines ss⟩

theorem similar_joined {d : String} (hd : Whole d) {ss ts : List String}
    (h : List.Forall₂ Similar ss ts) : Similar (Text.joined d ss) (Text.joined d ts) := by
  induction h with
  | nil => exact .refl (by decide : Whole "")
  | cons hfirst hrest ih =>
    cases hrest with
    | nil => exact hfirst
    | cons _ _ => exact (hfirst.append (.refl hd)).append ih

theorem similar_attributes {ss ts : List String} (h : List.Forall₂ Similar ss ts) :
    Similar (Statement.attributes ss) (Statement.attributes ts) := by
  cases h with
  | nil => exact .refl (by decide)
  | cons hfirst hrest =>
    have hjoined := similar_joined (d := ", ") (by decide) (.cons hfirst hrest)
    exact (Similar.append (.refl (by decide)) hjoined).append (.refl (by decide))

theorem isDoubled_of_similar {b : Bool} (h : Similar s t) (ht : isDoubled t = b) :
    isDoubled s = b := by
  rw [← ht, isDoubled, isDoubled, attributesIn, attributesIn, h.outside]

end Reading

section Rows

variable {c : Chart} {style : Style} {r : Row}

def Statement.isFinal : Statement → Bool
  | node _ _ final => final
  | openGraph _ | setting _ | openCluster _ | caption _ | anchor _ | historyNode _
  | edge _ _ _ _ _ | close => false

def edgeWords (labelled cutTail cutHead : Bool) : List String :=
  (if labelled then ["label="] else []) ++ (if cutTail then ["ltail="] else []) ++
    (if cutHead then ["lhead="] else [])

theorem isDoubled_edgeWords : ∀ a b c : Bool,
    isDoubled ("" ++ " -> " ++ "" ++ Statement.attributes (edgeWords a b c) ++ ";") = false := by
  decide +kernel

theorem similar_edgeAttributes (label : String) (tail head : Option NodeId) :
    List.Forall₂ Similar (Statement.edgeAttributes label tail head)
      (edgeWords (label ≠ "") tail.isSome head.isSome) := by
  have hwords : (attributesOf label tail head).map (fun a => a.1 ++ "=") =
      edgeWords (label ≠ "") tail.isSome head.isSome := by
    unfold attributesOf
    split <;> rename_i h <;> cases tail <;> cases head <;> simp [edgeWords, h]
  have hwhole : ∀ key ∈ ["label", "ltail", "lhead"], Whole (key ++ "=") := by decide
  rw [edgeAttributes_eq, ← hwords, List.forall₂_map_left_iff, List.forall₂_map_right_iff]
  refine List.forall₂_same.2 fun a ha => ?_
  have hkey := hwhole a.1 (attributesOf_keys label tail head a ha)
  have happend := (Similar.refl hkey).append (similar_quote a.2)
  rwa [String.append_empty] at happend

theorem isDoubled_text {s : Statement} (h : ∀ text, s ≠ .setting text) :
    isDoubled s.text = s.isFinal := by
  have hsame : ∀ {s : String}, Whole s → Similar s s := Similar.refl
  cases s <;> rw [Statement.isFinal]
  case setting text => exact absurd rfl (h text)
  case openGraph title =>
    exact isDoubled_of_similar (((hsame (by decide)).append (similar_quote title)).append
      (hsame (by decide))) (by decide)
  case openCluster id =>
    exact isDoubled_of_similar (((hsame (by decide)).append (similar_quote _)).append
      (hsame (by decide))) (by decide)
  case caption lines =>
    exact isDoubled_of_similar (((hsame (by decide)).append (similar_quoteLines lines)).append
      (hsame (by decide))) (by decide)
  case anchor id | historyNode id =>
    exact isDoubled_of_similar ((similar_quote id.path).append (hsame (by decide))) (by decide)
  case node id lines final =>
    have hlabel : Similar ("label=" ++ quoteLines lines) ("label=" ++ "") :=
      (hsame (by decide)).append (similar_quoteLines lines)
    have hfinal : List.Forall₂ Similar (if final then ["peripheries=2"] else [])
        (if final then ["peripheries=2"] else []) := by
      refine List.forall₂_same.2 fun s hs => hsame ?_
      cases final
      · cases hs
      · exact List.mem_singleton.1 hs ▸ by decide
    refine isDoubled_of_similar (((similar_quote id.path).append
      (similar_attributes (.cons hlabel hfinal))).append (hsame (by decide))) ?_
    cases final <;> decide
  case edge source target label tail head =>
    exact isDoubled_of_similar (((((similar_quote source.path).append (hsame (by decide))).append
      (similar_quote target.path)).append (similar_attributes
        (similar_edgeAttributes label tail head))).append (hsame (by decide)))
      (isDoubled_edgeWords _ _ _)
  case close => decide

theorem isDoubled_row (h : ∀ text, r.statement = .setting text → isDoubled text = false) :
    isDoubled r.text = r.statement.isFinal := by
  rw [Row.text, isDoubled_indent]
  by_cases hs : ∃ text, r.statement = .setting text
  · obtain ⟨text, hs⟩ := hs
    rw [hs]
    exact h text hs
  · exact isDoubled_text fun text ht => hs ⟨text, ht⟩

theorem isDoubled_own (c : Chart) (style : Style) (d : Nat) (p : Node) :
    ∀ r ∈ ownRows c style d p, isDoubled r.text = r.statement.isFinal := by
  have hsettings : ∀ text ∈ ["style=rounded;", "label=\"\";", "style=dashed;"],
      isDoubled text = false := by
    decide
  intro r hr
  refine isDoubled_row fun text ht => hsettings text ?_
  cases p with
  | simple | history =>
    rw [List.mem_singleton.1 hr] at ht
    cases ht
  | composite | concurrent | region =>
    simp only [ownRows, clusterHead, regionHead, List.cons_append, List.nil_append, List.mem_cons,
      List.not_mem_nil, or_false] at hr
    rcases hr with rfl | rfl | rfl | rfl | rfl <;> cases ht <;> simp

theorem isDoubled_rows (c : Chart) (style : Style) :
    ∀ r ∈ rows c style, isDoubled r.text = r.statement.isFinal := by
  have hrankdir : isDoubled ("rankdir=" ++ (directionOf c style).rankdir ++ ";") = false := by
    cases directionOf c style <;> decide
  have hplain : ∀ {n : Nat} {s : Statement}, (∀ text, s ≠ .setting text) →
      isDoubled (Row.text ⟨n, s⟩) = s.isFinal :=
    fun hs => isDoubled_row fun text ht => absurd ht (hs text)
  have hsetting : ∀ {n : Nat} {text : String}, isDoubled text = false →
      isDoubled (Row.text ⟨n, .setting text⟩) = (Statement.setting text).isFinal :=
    fun hs => isDoubled_row fun _ ht => Statement.setting.inj ht ▸ hs
  simp only [rows, List.forall_mem_append, List.forall_mem_cons]
  refine ⟨⟨⟨⟨hplain (by simp), hsetting (by decide), hsetting hrankdir, hsetting (by decide),
    hsetting (by decide), List.forall_mem_nil _⟩, fun r hr => ?_⟩, ?_⟩, hplain (by simp),
    List.forall_mem_nil _⟩
  · obtain ⟨p, -, d, hr⟩ := mem_nodesRows c.roots hr
    exact isDoubled_own c style d p r hr
  · exact List.forall_mem_map.2 fun t _ => hplain (by simp)

theorem isDoubled_linesOfMarker (n : Nat) (scope : Option NodeId) (target : NodeId) :
    ∀ l ∈ linesOfMarker c (indent n) scope target, isDoubled l = false := by
  refine List.forall_mem_cons.2 ⟨?_, List.forall_mem_singleton.2 ?_⟩
  · rw [String.append_assoc, isDoubled_indent]
    exact isDoubled_of_similar ((similar_quote _).append (.refl (by decide))) (by decide)
  · have hedge := markerEdge_eq c (indent n) scope target
    rw [markerEdge] at hedge
    rw [hedge, isDoubled_indent]
    exact isDoubled_text fun text ht => by cases ht

def finalNames (rs : List Row) : List String :=
  rs.filterMap fun r => if r.statement.isFinal then r.statement.said.node? else none

theorem doubledNodes_layout (c : Chart) (style : Style) :
    doubledNodes (layout c style) = finalNames (rows c style) := by
  rw [doubledNodes, layout, statementsOf_textOf (legible_rows c style), List.filterMap_map,
    finalNames]
  refine List.filterMap_congr fun r hr => ?_
  rw [Function.comp_apply, isDoubled_rows c style r hr, (legible_rows c style r hr).said]

theorem doubledNodes_marked (h : Drawable c) (ht : OneLine style.title) :
    doubledNodes (Text.joined "\n" (markedLines c (rows c style)) ++ "\n") =
      finalNames (rows c style) := by
  rw [doubledNodes, statementsOf_markedLines c ht, List.filterMap_flatMap, finalNames,
    List.filterMap_eq_flatMap_toList]
  refine List.flatMap_congr fun r hr => ?_
  have hmarkers : (markersAfter c r).filterMap (fun s =>
      if isDoubled s then (said s).node? else none) = [] := by
    obtain ⟨n, hn⟩ := exists_inset r
    refine List.filterMap_eq_nil_iff.2 fun l hl => ?_
    rw [markersAfter_eq, hn] at hl
    obtain ⟨e, -, hl⟩ := List.mem_flatMap.1 hl
    rw [isDoubled_linesOfMarker n e.1 e.2 l hl]
    rfl
  have hrow : isDoubled (unreturned r.text) = r.statement.isFinal := by
    rw [← isDoubled_rows c style r hr, isDoubled, isDoubled, attributesIn, attributesIn,
      outside_unreturned (legible_rows c style r hr).whole]
  rw [List.filterMap_cons, hmarkers, hrow, said_unreturned_rows h ht r hr]
  cases (if r.statement.isFinal then r.statement.said.node? else none) <;> rfl

theorem mem_finalNames {name : String} : name ∈ finalNames (rows c style) ↔
    ∃ id short, Node.simple id short ∈ Node.partsOf c.roots ∧ id ∈ c.finals ∧ id.path = name := by
  rw [finalNames, List.mem_filterMap]
  constructor
  · rintro ⟨r, hr, hname⟩
    split at hname
    · rename_i hfinal
      have hinside : r ∈ nodesRows c style 1 c.roots := by
        simp only [rows, List.mem_append, List.mem_cons, List.not_mem_nil, or_false,
          List.mem_map] at hr
        rcases hr with (((rfl | rfl | rfl | rfl | rfl) | hr) | ⟨t, -, rfl⟩) | rfl
        case inl.inl.inr => exact hr
        all_goals cases hfinal
      obtain ⟨p, hp, d, hr⟩ := mem_nodesRows c.roots hinside
      cases p with
      | simple id short =>
        obtain rfl := List.mem_singleton.1 hr
        exact ⟨id, short, hp, of_decide_eq_true hfinal, Option.some.inj hname⟩
      | history id short =>
        obtain rfl := List.mem_singleton.1 hr
        cases hfinal
      | composite | concurrent | region =>
        simp only [ownRows, clusterHead, regionHead, List.cons_append, List.nil_append,
          List.mem_cons, List.not_mem_nil, or_false] at hr
        rcases hr with rfl | rfl | rfl | rfl | rfl <;> cases hfinal
    · cases hname
  · rintro ⟨id, short, hp, hfinal, rfl⟩
    obtain ⟨d, hrows⟩ : ∃ d, ownRows c style d (.simple id short) ⊆ nodesRows c style 1 c.roots :=
      ownRows_subset_nodesRows 1 c.roots hp
    have hrow := hrows (List.mem_singleton_self _)
    have hrows : ∀ r ∈ nodesRows c style 1 c.roots, r ∈ rows c style := fun r hr =>
      List.mem_append_left _ (List.mem_append_left _ (List.mem_append_right _ hr))
    exact ⟨_, hrows _ hrow, if_pos (decide_eq_true hfinal)⟩

end Rows

end Dot

namespace Outline

variable {c : Chart}

def endsFinal (line : String) : Bool :=
  "(final)".toList.isSuffixOf line.toList

def outlinedFinals (c : Chart) : List NodeId :=
  (((Node.partsOf c.roots).zip (Text.linesOf (render c))).filter fun x => endsFinal x.2).map
    fun x => x.1.id

def isFinal (c : Chart) : Node → Bool
  | .simple id _ => id ∈ c.finals
  | .history _ _ | .composite _ _ _ _ | .concurrent _ _ _ | .region _ _ _ _ => false

theorem endsFinal_append (s : String) {t : String} (h : 7 ≤ t.toList.length) :
    endsFinal (s ++ t) = endsFinal t := by
  rw [Bool.eq_iff_iff, endsFinal, endsFinal, List.isSuffixOf_iff_suffix, List.isSuffixOf_iff_suffix,
    String.toList_append]
  exact ⟨fun hs => List.suffix_of_suffix_length_le hs (List.suffix_append _ _) h,
    fun hs => hs.trans (List.suffix_append _ _)⟩

theorem endsFinal_of_notMem {line : String} (h : ')' ∉ line.toList) : endsFinal line = false := by
  rw [Bool.eq_false_iff, endsFinal, ne_eq, List.isSuffixOf_iff_suffix]
  exact fun hs => h (hs.subset (by decide))

theorem endsFinal_entry {depth : Nat} {initial : Bool} {name remark : String}
    (hn : ')' ∉ name.toList) (hr : remark ∈ remarks) :
    endsFinal (entry depth initial name remark) = (remark == " (final)") := by
  by_cases hempty : remark = ""
  · rw [hempty]
    exact endsFinal_of_notMem (notMem_entry depth (by decide) (fun _ => by decide) hn (by decide))
  · have hlong : ∀ r ∈ remarks, r ≠ "" →
        7 ≤ r.toList.length ∧ endsFinal r = (r == " (final)") := by
      decide
    obtain ⟨hlength, hfinal⟩ := hlong remark hr hempty
    rw [entry, endsFinal_append _ hlength, hfinal]

mutual

theorem finals_nodeLines (depth : Nat) (initial : Bool) : ∀ n : Node,
    (∀ p ∈ n.parts, ')' ∉ (caption p).toList) → List.Forall₂ (fun p l => endsFinal l = isFinal c p)
      n.parts (nodeLines c depth initial n)
  | .simple id name, h => by
    have hname : ')' ∉ name.toList := h _ (List.mem_singleton_self _)
    refine .cons ?_ .nil
    rw [endsFinal_entry hname (by split <;> simp [remarks])]
    by_cases hid : id ∈ c.finals <;> simp [isFinal, hid]
  | .history id name, h =>
    .cons (endsFinal_entry (h _ (List.mem_singleton_self _)) (by simp [remarks])) .nil
  | .composite id name start ns, h => by
    obtain ⟨hself, hns⟩ := List.forall_mem_cons.1 h
    have hname : ')' ∉ name.toList := hself
    refine .cons ?_ (finals_nodesLines (depth + 1) start ns hns)
    rw [endsFinal_entry hname (by split <;> simp [remarks])]
    split <;> rfl
  | .concurrent id name ns, h => by
    obtain ⟨hself, hns⟩ := List.forall_mem_cons.1 h
    exact .cons (endsFinal_entry hself (by simp [remarks]))
      (finals_nodesLines (depth + 1) none ns hns)
  | .region id name start ns, h => by
    obtain ⟨hself, hns⟩ := List.forall_mem_cons.1 h
    refine .cons (endsFinal_of_notMem fun hm => ?_) (finals_nodesLines (depth + 1) start ns hns)
    have hmargin : ')' ∉ (margin depth).toList :=
      fun hm => absurd (margin_blank depth _ hm) (by decide)
    have hname : ')' ∉ name.toList := fun hm => hself (by simp [caption, hm])
    simp [hmargin, hname] at hm

theorem finals_nodesLines (depth : Nat) (start : Option NodeId) : ∀ ns : List Node,
    (∀ p ∈ Node.partsOf ns, ')' ∉ (caption p).toList) →
      List.Forall₂ (fun p l => endsFinal l = isFinal c p) (Node.partsOf ns)
        (nodesLines c depth start ns)
  | [], _ => .nil
  | n :: ns, h => by
    obtain ⟨hn, hns⟩ := List.forall_mem_append.1 h
    exact List.rel_append (finals_nodeLines depth _ n hn) (finals_nodesLines depth start ns hns)

end

end Outline

namespace Assembled

open Outline

variable {f : FlatChart} {c : Chart} {id : NodeId}

theorem bracket_notMem_caption (h : f.Sound) (ha : Assembled f c) {p : Node}
    (hp : p ∈ Node.partsOf c.roots) : ')' ∉ (caption p).toList := by
  cases ha.shape p hp with
  | simple hs _ | history hs _ | composite hs _ _ | concurrent hs _ =>
    exact fun hm => absurd ((h.names _ hs).2 _ hm) (by decide)
  | region _ _ =>
    intro hm
    have hname := fun k => notMem_regionName (c := ')') (by decide) (by decide) k
    simp [caption, hname] at hm

theorem mem_outlinedFinals (h : f.Sound) (ha : Assembled f c) : id ∈ outlinedFinals c ↔
    ∃ short, Node.simple id short ∈ Node.partsOf c.roots ∧ id ∈ c.finals := by
  have hlines := finals_nodesLines (c := c) 0 (some c.initial) c.roots
    fun p hp => ha.bracket_notMem_caption h hp
  have hfilter := filter_zip_of_forall₂ hlines fun _ => true
  simp only [Bool.and_true] at hfilter
  have hids : outlinedFinals c =
      ((Node.partsOf c.roots).filter fun p => isFinal c p).map Node.id := by
    rw [← hfilter, List.map_map, outlinedFinals, ha.linesOf_render h]
    rfl
  rw [hids, List.mem_map]
  constructor
  · rintro ⟨p, hp, rfl⟩
    obtain ⟨hp, hfinal⟩ := List.mem_filter.1 hp
    cases p with
    | simple id short => exact ⟨short, hp, of_decide_eq_true hfinal⟩
    | history | composite | concurrent | region => cases hfinal
  · rintro ⟨short, hp, hfinal⟩
    exact ⟨_, List.mem_filter.2 ⟨hp, decide_eq_true hfinal⟩, rfl⟩

theorem exists_simple_iff (h : f.Sound) (ha : Assembled f c)
    (hfinals : ∀ s ∈ c.states, s.id ∈ c.finals → s.kind ≠ .history) :
    (∃ short, Node.simple id short ∈ Node.partsOf c.roots ∧ id ∈ c.finals) ↔
      id ∈ c.finals ∧ c.nests id = false := by
  have hd : (c.states.map State.id).Nodup := ha.states ▸ h.nested.distinct
  constructor
  · rintro ⟨short, hp, hfinal⟩
    refine ⟨hfinal, ?_⟩
    cases ha.shape _ hp with
    | simple hs hk => rw [Dot.nests_id hd (ha.states ▸ hs), hk]; rfl
  · rintro ⟨hfinal, hnests⟩
    obtain ⟨s, hs, rfl⟩ := h.finals id (ha.finals ▸ hfinal)
    have hmem : s ∈ c.states := ha.states ▸ hs
    rw [Dot.nests_id hd hmem] at hnests
    obtain ⟨p, hp, hid, -, hkind⟩ := ha.exists_part h hs
    cases p with
    | simple id short =>
      obtain rfl : id = s.id := hid
      exact ⟨short, hp, hfinal⟩
    | history => exact absurd (Option.some.inj hkind).symm (hfinals s hmem hfinal)
    | composite | concurrent =>
      rw [← Option.some.inj hkind] at hnests
      cases hnests
    | region => cases hkind

end Assembled

/-- History states are added when it is settled which states are final. -/
theorem Chart.finals_of_parse {fallback : Fallback} {input : String} {c : Chart}
    (h : Chart.parse fallback input = .ok c) :
    ∀ s ∈ c.states, s.id ∈ c.finals → s.kind ≠ .history := by
  obtain ⟨flat, full, hflat, hfull, henforce⟩ := stages_of_parse h
  obtain ⟨b, home, hdrawn⟩ := exists_drawn hflat
  have hsound := hdrawn.sound.withHistory hfull
  have ha := assembled_of_enforce hsound henforce
  obtain ⟨added, hstates, -⟩ := hdrawn.sound.exists_added hfull ha
  have hfinals : c.finals = flat.finals := by
    obtain ⟨o, -, rfl⟩ := withHistory_ok hfull
    exact ha.finals
  intro s hs hfinal
  obtain ⟨u, hu, hid⟩ := hdrawn.sound.finals s.id (hfinals ▸ hfinal)
  have hmem : u ∈ c.states := hstates ▸ List.mem_append_left _ hu
  obtain rfl := List.inj_on_of_nodup_map (ha.states ▸ hsound.nested.distinct) hmem hs hid
  exact hdrawn.leaf u hu

theorem Renderer.finals_shown {r : Renderer} {input : String} {c : Chart}
    (hc : r.parse input = .ok c) : (∀ style id,
      (id.path ∈ Dot.doubledNodes (Dot.layout c style) ↔ id ∈ c.finals ∧ c.nests id = false)) ∧
    (∀ id, id ∈ Outline.outlinedFinals c ↔ id ∈ c.finals ∧ c.nests id = false) ∧
    (r.layout = .dot → OneLine r.style.title → ∃ out, r.run input = .ok out ∧
      ∀ id, id.path ∈ Dot.doubledNodes out.dot ↔ id ∈ c.finals ∧ c.nests id = false) := by
  obtain ⟨f, hf, ha⟩ := parse_ok hc
  have hsimple : ∀ {id}, (∃ short, Node.simple id short ∈ Node.partsOf c.roots ∧ id ∈ c.finals) ↔
      id ∈ c.finals ∧ c.nests id = false :=
    ha.exists_simple_iff hf (Chart.finals_of_parse hc)
  have hnames : ∀ style (id : NodeId), id.path ∈ Dot.finalNames (Dot.rows c style) ↔
      id ∈ c.finals ∧ c.nests id = false := by
    intro style id
    rw [Dot.mem_finalNames, ← hsimple]
    constructor
    · rintro ⟨id', short, hp, hfinal, hpath⟩
      obtain rfl : id' = id := congrArg NodeId.mk hpath
      exact ⟨short, hp, hfinal⟩
    · rintro ⟨short, hp, hfinal⟩
      exact ⟨id, short, hp, hfinal, rfl⟩
  refine ⟨fun style id => ?_, fun id => ?_, fun hlayout htitle => ?_⟩
  · rw [Dot.doubledNodes_layout, hnames]
  · rw [ha.mem_outlinedFinals hf, hsimple]
  · have hdrawable := ha.drawable hf
    obtain ⟨dot, hdot, hmarked⟩ := Dot.marked_layout hdrawable htitle
    refine ⟨_, Renderer.run_of_mark hlayout hc hdot, fun id => ?_⟩
    rw [hmarked.text, Dot.doubledNodes_marked hdrawable htitle, hnames]

namespace Sample.Ended

/-- A text with two final states, of which one has the other inside. -/
def text : String :=
  "[*] --> On\nstate On \x7b\n[*] --> A\nA --> [*]\n\x7d\nOn --> [*]"

def events : List (Located Event) :=
  [⟨.clause (.initial "On"), 1, "[*] --> On"⟩,
    ⟨.opening ⟨"On", none⟩, 2, "state On \x7b"⟩,
    ⟨.clause (.initial "A"), 3, "[*] --> A"⟩,
    ⟨.clause (.final "A"), 4, "A --> [*]"⟩,
    ⟨.close, 5, "\x7d"⟩,
    ⟨.clause (.final "On"), 6, "On --> [*]"⟩]

def tree : BlockTree where
  body :=
    [.clause ⟨.initial "On", 1, "[*] --> On"⟩,
      .composite ⟨⟨"On", none⟩, 2, "state On \x7b"⟩
        [.clause ⟨.initial "A", 3, "[*] --> A"⟩, .clause ⟨.final "A", 4, "A --> [*]"⟩] [],
      .clause ⟨.final "On", 6, "On --> [*]"⟩]
  direction := none

def flat : FlatChart where
  states :=
    [⟨"On", ⟨"On"⟩, none, none, .composite, none, 1⟩,
      ⟨"A", ⟨"On/A"⟩, some ⟨"On"⟩, none, .simple, none, 3⟩]
  regions := []
  transitions := []
  initials := [⟨.top, ⟨"On"⟩, 1⟩, ⟨.composite ⟨"On"⟩, ⟨"On/A"⟩, 3⟩]
  finals := [⟨"On/A"⟩, ⟨"On"⟩]
  notes := []
  remarks := []
  direction := none

def chart : Chart where
  states := flat.states
  roots := [.composite ⟨"On"⟩ "On" (some ⟨"On/A"⟩) [.simple ⟨"On/A"⟩ "A"]]
  initial := ⟨"On"⟩
  nested := [(⟨"On"⟩, ⟨"On/A"⟩)]
  defaulted := []
  regions := []
  transitions := []
  finals := [⟨"On/A"⟩, ⟨"On"⟩]
  remarks := []
  direction := none

theorem lines_text : (Text.linesOf text).map Text.trimmed = events.map Located.text :=
  Text.map_trimmed_linesOf (by decide +kernel) (by decide +kernel) (by decide +kernel)

theorem scan_text : Event.scan text = .ok events := by
  rw [Event.scan, lines_text]
  exact Event.ofLines_of_reads rfl (by decide +kernel)

theorem parse_text : Chart.parse .firstChild text = .ok chart := by
  have hflat : FlatChart.ofText text = .ok flat :=
    bind_ok.2 ⟨_, scan_text, bind_ok.2 ⟨tree, rfl, rfl⟩⟩
  refine bind_ok.2 ⟨flat, hflat, bind_ok.2 ⟨flat, rfl, ?_⟩⟩
  rfl

end Sample.Ended

open Sample.Ended in
theorem Renderer.finals_shown_ended : ({} : Renderer).parse text = .ok chart ∧
    OneLine ({} : Renderer).style.title ∧ (∀ id, id.path ∈ Dot.doubledNodes (Dot.layout chart {}) ↔
      id ∈ chart.finals ∧ chart.nests id = false) ∧
    (∀ id, id ∈ Outline.outlinedFinals chart ↔ id ∈ chart.finals ∧ chart.nests id = false) ∧
    ∃ out, ({} : Renderer).run text = .ok out ∧
      ∀ id, id.path ∈ Dot.doubledNodes out.dot ↔ id ∈ chart.finals ∧ chart.nests id = false := by
  obtain ⟨hdrawn, houtlined, hmarked⟩ :=
    Renderer.finals_shown (show ({} : Renderer).parse text = .ok chart from parse_text)
  have htitle : OneLine ({} : Renderer).style.title := by decide
  exact ⟨parse_text, htitle, hdrawn {}, houtlined, hmarked rfl htitle⟩

open Sample.Ended in
theorem Renderer.unmarked_composite : ({} : Renderer).parse text = .ok chart ∧
    chart.finals = [⟨"On/A"⟩, ⟨"On"⟩] ∧
    Dot.doubledNodes (Dot.layout chart {}) = ["On/A"] ∧
    Outline.outlinedFinals chart = [⟨"On/A"⟩] ∧
    Text.linesOf (Outline.render chart) = ["* On", "    * A (final)"] :=
  ⟨parse_text, rfl, Dot.doubledNodes_layout chart {}, by decide +kernel, by decide +kernel⟩

end Statechart
