import Mathlib
import Statechart.Proofs.Markers

namespace Statechart.Dot

inductive Mode where
  | plain
  | quoted
  /-- In quotes, directly after a backslash. -/
  | escaped
  deriving DecidableEq, Repr

def Mode.next : Mode → Char → Mode
  | plain, c => if c = '"' then quoted else plain
  | quoted, c => if c = '"' then plain else if c = '\\' then escaped else quoted
  | escaped, _ => quoted

def scan (m : Mode) : List Char → Option Mode
  | [] => some m
  | c :: cs => if m = .plain ∧ (c = '\n' ∨ c = '\r') then none else scan (m.next c) cs

def Whole (s : String) : Prop :=
  scan .plain s.toList = some .plain

instance (s : String) : Decidable (Whole s) :=
  inferInstanceAs (Decidable (scan .plain s.toList = some .plain))

def statements (m : Mode) : List Char → List (List Char)
  | [] => []
  | c :: cs =>
    if m = .plain ∧ c = '\n' then [] :: statements .plain cs
    else
      match statements (m.next c) cs with
      | [] => [[c]]
      | s :: ss => (c :: s) :: ss

def statementsOf (dot : String) : List String :=
  (statements .plain dot.toList).map String.ofList

section Scan

variable {m n : Mode} {a b : List Char} {s t : String}

theorem scan_append (m : Mode) (a b : List Char) :
    scan m (a ++ b) = (scan m a).bind fun n => scan n b := by
  induction a generalizing m with
  | nil => rfl
  | cons c a ih =>
    rw [List.cons_append, scan, scan]
    split
    · rfl
    · exact ih _

theorem whole_append (hs : Whole s) (ht : Whole t) : Whole (s ++ t) := by
  rw [Whole, String.toList_append, scan_append, hs]
  exact ht

theorem scan_escape (cs : List Char) : scan .quoted (escape cs) = some .quoted := by
  refine escape_induction (P := fun w => scan .quoted w = some .quoted) rfl (fun c w ih => ?_)
    (fun c w hback hquote ih => ?_) cs
  · simpa [scan, Mode.next] using ih
  · simpa [scan, Mode.next, hback, hquote] using ih

theorem whole_quote (s : String) : Whole (quote s) := by
  rw [Whole, toList_quote, List.cons_append, scan, if_neg (by decide), scan_append,
    show Mode.plain.next '"' = .quoted from rfl, scan_escape]
  rfl

theorem scan_joined {d : String} {ss : List String} (hd : scan m d.toList = some m)
    (h : ∀ s ∈ ss, scan m s.toList = some m) : scan m (Text.joined d ss).toList = some m := by
  refine Text.joined_induction (P := fun s => scan m s.toList = some m) rfl (fun s t hs ht => ?_) hd h
  rw [String.toList_append, scan_append, hs]
  exact ht

theorem whole_quoteLines (ss : List String) : Whole (quoteLines ss) := by
  have hbody : scan .quoted (Text.joined "\\n" (ss.map escaped)).toList = some .quoted := by
    refine scan_joined (by decide) (List.forall_mem_map.2 fun s _ => ?_)
    rw [escaped, String.toList_ofList]
    exact scan_escape s.toList
  rw [Whole, quoteLines, String.toList_append, String.toList_append, scan_append, scan_append,
    show scan .plain "\"".toList = some .quoted from rfl, Option.bind_some, hbody]
  rfl

theorem statements_cut (h : scan m a = some .plain) (b : List Char) :
    statements m (a ++ '\n' :: b) = a :: statements .plain b := by
  induction a generalizing m with
  | nil =>
    obtain rfl : m = .plain := Option.some.inj h
    rfl
  | cons c a ih =>
    rw [scan] at h
    split at h
    · cases h
    · rename_i hc
      rw [List.cons_append, statements, if_neg fun hm => hc ⟨hm.1, .inl hm.2⟩, ih h]

theorem chop_of_scan (h : scan m a = some .plain) : Text.chop a = a := by
  rcases Text.chop_cases a with heq | heq
  · exact heq.symm
  · rw [heq, scan_append] at h
    obtain ⟨k, -, hk⟩ := Option.bind_eq_some_iff.1 h
    cases k <;> simp [scan, Mode.next] at hk

theorem scan_chop_cut (h : scan m (a ++ '\n' :: b) = some n) :
    scan m (Text.chop a ++ '\n' :: b) = some n := by
  rcases Text.chop_cases a with heq | heq
  · rwa [← heq]
  · rw [heq, List.append_assoc, List.singleton_append, scan_append] at h
    obtain ⟨k, hk, hb⟩ := Option.bind_eq_some_iff.1 h
    rw [scan_append, hk, Option.bind_some]
    cases k with
    | plain => simp [scan] at hb
    | quoted | escaped => exact hb

theorem scan_feed (h : m ≠ .plain) (cs : List Char) : scan m ('\n' :: cs) = scan .quoted cs := by
  cases m with
  | plain => exact absurd rfl h
  | quoted | escaped => rfl

theorem exists_cut (h : scan m (a ++ '\n' :: b) = some n) :
    ∃ k, scan m (Text.chop a) = some k ∧ k ≠ .plain ∧ scan .quoted b = some n := by
  have hcut := scan_chop_cut h
  rw [scan_append] at hcut
  obtain ⟨k, hk, hb⟩ := Option.bind_eq_some_iff.1 hcut
  have hne : k ≠ .plain := by
    rintro rfl
    simp [scan] at hb
  exact ⟨k, hk, hne, scan_feed hne b ▸ hb⟩

def feed : List String → String
  | [] => ""
  | s :: ss => s ++ "\n" ++ feed ss

theorem toList_feed_cons (s : String) (ss : List String) :
    (feed (s :: ss)).toList = s.toList ++ '\n' :: (feed ss).toList := by
  simp [feed]

theorem statementsOf_feed {ss : List String} (h : ∀ s ∈ ss, Whole s) :
    statementsOf (feed ss) = ss := by
  induction ss with
  | nil => rfl
  | cons s ss ih =>
    obtain ⟨hs, hss⟩ := List.forall_mem_cons.1 h
    rw [statementsOf, toList_feed_cons, statements_cut hs, List.map_cons, String.ofList_toList]
    exact congrArg _ (ih hss)

end Scan

def unescape (m : Mode) : List Char → Option (List Char × List Char)
  | [] => none
  | c :: cs =>
    match m.next c with
    | .plain => some ([], cs)
    | .quoted => (unescape .quoted cs).map fun r => (c :: r.1, r.2)
    | .escaped => unescape .escaped cs

def quotedAfter (word : String) (cs : List Char) : Option (String × List Char) :=
  (cs.dropPrefix? (word.toList ++ ['"'])).bind fun rest =>
    (unescape .quoted rest).map fun r => (String.ofList r.1, r.2)

inductive Said where
  | graph (title : String)
  | cluster (name : String)
  | node (name : String)
  | edge (source target : String)
  | other
  | close
  deriving DecidableEq, Repr

def saidAfterIndent (cs : List Char) : Said :=
  match quotedAfter "" cs with
  | some (name, rest) =>
    match quotedAfter " -> " rest with
    | some (target, _) => .edge name target
    | none => .node name
  | none =>
    match quotedAfter "subgraph " cs with
    | some (name, _) => .cluster name
    | none =>
      match quotedAfter "digraph " cs with
      | some (title, _) => .graph title
      | none => if cs.head? = some '\x7d' then .close else .other

def said (statement : String) : Said :=
  saidAfterIndent (statement.toList.dropWhile (· = ' '))

/-- A statement and the names of the clusters open around it, outermost first. -/
structure Placed where
  around : List String
  said : Said
  deriving DecidableEq, Repr

def placed (around : List String) : List Said → Option (List Placed)
  | [] => none
  | .graph _ :: _ => none
  | .other :: ss => placed around ss
  | .close :: ss =>
    if around = [] then if ss = [] then some [] else none
    else placed around.dropLast ss
  | .cluster name :: ss => (placed (around ++ [name]) ss).map (⟨around, .cluster name⟩ :: ·)
  | .node name :: ss => (placed around ss).map (⟨around, .node name⟩ :: ·)
  | .edge source target :: ss => (placed around ss).map (⟨around, .edge source target⟩ :: ·)

def readGraph (dot : String) : Option (String × List Placed) :=
  match (statementsOf dot).map said with
  | .graph title :: ss => (placed [] ss).map (title, ·)
  | _ => none

section Said

variable {s t : String} {cs rest : List Char}

theorem unescape_escape (cs rest : List Char) :
    unescape .quoted (escape cs ++ '"' :: rest) = some (cs, rest) := by
  fun_induction escape cs with
  | case1 => rfl
  | case2 c cs hc ih => simp [unescape, Mode.next, ih]
  | case3 c cs hc ih =>
    obtain ⟨hback, hquote⟩ := not_or.1 hc
    simp [unescape, Mode.next, hback, hquote, ih]

theorem quotedAfter_quote (word s : String) (rest : List Char) :
    quotedAfter word (word.toList ++ (quote s).toList ++ rest) = some (s, rest) := by
  have hfront : (word.toList ++ (quote s).toList ++ rest).dropPrefix? (word.toList ++ ['"']) =
      some (escape s.toList ++ '"' :: rest) := by
    rw [List.dropPrefix?_eq_some_iff]
    exact ⟨word.toList ++ ['"'], by simp [toList_quote], by simp⟩
  rw [quotedAfter, hfront, Option.bind_some, unescape_escape, Option.map_some, String.ofList_toList]

theorem quotedAfter_eq_none {word : String} (h : ¬word.toList ++ ['"'] <+: cs) :
    quotedAfter word cs = none := by
  rw [quotedAfter, Option.bind_eq_none_iff]
  intro rest hrest
  obtain ⟨front, rfl, hfront⟩ := List.dropPrefix?_eq_some_iff.1 hrest
  exact absurd (eq_of_beq hfront ▸ List.prefix_append front rest) h

theorem quotedAfter_cons {word : String} {c d : Char} {ws : List Char}
    (hw : word.toList ++ ['"'] = d :: ws) (h : c ≠ d) (cs : List Char) :
    quotedAfter word (c :: cs) = none :=
  quotedAfter_eq_none fun hp => h (List.cons_prefix_cons.1 (hw ▸ hp)).1.symm

end Said

section Rows

variable {c : Chart} {style : Style}

def Statement.said : Statement → Said
  | openGraph title => .graph title
  | openCluster id => .cluster (clusterId id)
  | anchor id | node id _ _ | historyNode id => .node id.path
  | edge source target _ _ _ => .edge source.path target.path
  | setting _ | caption _ => .other
  | close => .close

/-- The beginning of a statement, up to where it is clear what it says. -/
def Statement.front : Statement → String
  | openGraph title => "digraph " ++ quote title
  | openCluster id => "subgraph " ++ quote (clusterId id)
  | anchor id | node id _ _ | historyNode id => quote id.path ++ " ["
  | edge source target _ _ _ => quote source.path ++ " -> " ++ quote target.path
  | setting text => text
  | caption _ => "label="
  | close => "\x7d"

theorem Statement.exists_text (s : Statement) : ∃ rest, s.text = s.front ++ rest := by
  cases s with
  | openGraph title => exact ⟨" \x7b", rfl⟩
  | setting text => exact ⟨"", String.append_empty.symm⟩
  | openCluster id => exact ⟨" \x7b", rfl⟩
  | caption lines => exact ⟨quoteLines lines ++ ";", String.append_assoc ..⟩
  | anchor id =>
    exact ⟨"shape=point, style=invis, width=0, label=\"\"];",
      by simp [text, front, ← String.toList_inj]⟩
  | node id lines final =>
    refine ⟨Text.joined ", " (nodeAttributes lines final) ++ "];", ?_⟩
    rw [text, attributes.eq_2 _ (by simp [nodeAttributes])]
    simp [front, ← String.toList_inj]
  | historyNode id =>
    exact ⟨"label=\"H\", shape=circle, width=0.3, fixedsize=true];",
      by simp [text, front, ← String.toList_inj]⟩
  | edge source target label tail head => exact ⟨_, String.append_assoc ..⟩
  | close => exact ⟨"", rfl⟩

/-- A setting that reads as one, whatever follows it. -/
structure IsSetting (text : String) : Prop where
  whole : Whole text
  start : ∃ c, text.toList.head? = some c ∧ c ≠ ' '
  said : ∀ rest, saidAfterIndent (text.toList ++ rest) = .other

theorem saidAfterIndent_node (name : String) (rest : List Char) :
    saidAfterIndent ((quote name).toList ++ " [".toList ++ rest) = .node name := by
  have hname := quotedAfter_quote "" name (" [".toList ++ rest)
  have hrest : quotedAfter " -> " (" [".toList ++ rest) = none := by
    simp [quotedAfter, List.dropPrefix?]
  rw [saidAfterIndent, List.append_assoc]
  simp only [String.toList_empty, List.nil_append] at hname
  simp only [hname, hrest]

theorem saidAfterIndent_edge (source target : String) (rest : List Char) :
    saidAfterIndent ((quote source).toList ++ " -> ".toList ++ (quote target).toList ++ rest) =
      .edge source target := by
  have hsource := quotedAfter_quote "" source (" -> ".toList ++ (quote target).toList ++ rest)
  have htarget := quotedAfter_quote " -> " target rest
  rw [saidAfterIndent, List.append_assoc, List.append_assoc, ← List.append_assoc " -> ".toList]
  simp only [String.toList_empty, List.nil_append] at hsource
  simp only [hsource, htarget]

theorem saidAfterIndent_cluster (name : String) (rest : List Char) :
    saidAfterIndent ("subgraph ".toList ++ (quote name).toList ++ rest) = .cluster name := by
  have hplain : quotedAfter "" ("subgraph ".toList ++ (quote name).toList ++ rest) = none :=
    quotedAfter_cons (c := 's') rfl (by decide) _
  simp only [saidAfterIndent, hplain, quotedAfter_quote]

theorem saidAfterIndent_graph (title : String) (rest : List Char) :
    saidAfterIndent ("digraph ".toList ++ (quote title).toList ++ rest) = .graph title := by
  have hplain : quotedAfter "" ("digraph ".toList ++ (quote title).toList ++ rest) = none :=
    quotedAfter_cons (c := 'd') rfl (by decide) _
  have hcluster :
      quotedAfter "subgraph " ("digraph ".toList ++ (quote title).toList ++ rest) = none :=
    quotedAfter_cons (c := 'd') rfl (by decide) _
  simp only [saidAfterIndent, hplain, hcluster, quotedAfter_quote]

theorem dropWhile_indent (n : Nat) (cs : List Char) :
    ((indent n).toList ++ cs).dropWhile (· = ' ') = cs.dropWhile (· = ' ') :=
  List.dropWhile_append_of_pos fun _ hc => decide_eq_true (eq_blank_of_mem_indent hc)

theorem said_front {s : Statement} (h : ∀ text, s = .setting text → IsSetting text) (n : Nat)
    (rest : String) : said (indent n ++ (s.front ++ rest)) = s.said := by
  have hstart : ∃ c, s.front.toList.head? = some c ∧ c ≠ ' ' := by
    cases s with
    | setting text => exact (h text rfl).start
    | openGraph | openCluster | caption | close | anchor | node | historyNode | edge =>
      simp [Statement.front, quote]
  obtain ⟨c, hhead, hc⟩ := hstart
  obtain ⟨cs, hfront⟩ := List.head?_eq_some_iff.1 hhead
  have hsaid : said (indent n ++ (s.front ++ rest)) =
      saidAfterIndent (s.front.toList ++ rest.toList) := by
    rw [said, String.toList_append, dropWhile_indent, String.toList_append, hfront,
      List.cons_append, List.dropWhile_cons_of_neg (by simpa using hc)]
  rw [hsaid]
  cases s with
  | setting text => exact (h text rfl).said rest.toList
  | openGraph title =>
    rw [Statement.front, String.toList_append]
    exact saidAfterIndent_graph title rest.toList
  | openCluster id =>
    rw [Statement.front, String.toList_append]
    exact saidAfterIndent_cluster (clusterId id) rest.toList
  | caption | close =>
    simp [Statement.front, Statement.said, saidAfterIndent, quotedAfter, List.dropPrefix?]
  | anchor | node | historyNode =>
    rw [Statement.front, String.toList_append]
    exact saidAfterIndent_node _ rest.toList
  | edge source target =>
    rw [Statement.front, String.toList_append, String.toList_append]
    exact saidAfterIndent_edge source.path target.path rest.toList

theorem whole_attributes {ss : List String} (h : ∀ s ∈ ss, Whole s) :
    Whole (Statement.attributes ss) := by
  unfold Statement.attributes
  split
  · decide
  · exact whole_append (whole_append (by decide) (scan_joined (by decide) h)) (by decide)

theorem whole_text {s : Statement} (h : ∀ text, s = .setting text → IsSetting text) :
    Whole s.text := by
  cases s with
  | openGraph title => exact whole_append (whole_append (by decide) (whole_quote title)) (by decide)
  | setting text => exact (h text rfl).whole
  | openCluster id => exact whole_append (whole_append (by decide) (whole_quote _)) (by decide)
  | caption lines =>
    exact whole_append (whole_append (by decide) (whole_quoteLines lines)) (by decide)
  | anchor id | historyNode id => exact whole_append (whole_quote id.path) (by decide)
  | node id lines final =>
    have hattributes : ∀ s ∈ Statement.nodeAttributes lines final, Whole s := by
      refine List.forall_mem_cons.2 ⟨whole_append (by decide) (whole_quoteLines lines), ?_⟩
      cases final <;> decide
    exact whole_append (whole_append (whole_quote id.path) (whole_attributes hattributes))
      (by decide)
  | edge source target label tail head =>
    have hcut : ∀ {word : String} (cut : Option NodeId), Whole word →
        ∀ s ∈ (cut.map fun id => word ++ quote (clusterId id)).toList, Whole s := by
      intro word cut hword s hs
      obtain ⟨id, -, rfl⟩ := Option.map_eq_some_iff.1 (Option.mem_toList.1 hs)
      exact whole_append hword (whole_quote (clusterId id))
    have hlabel : ∀ s ∈ if label = "" then [] else ["label=" ++ quote label], Whole s := by
      split
      · exact fun s hs => absurd hs List.not_mem_nil
      · exact List.forall_mem_singleton.2 (whole_append (by decide) (whole_quote label))
    have hattributes : ∀ s ∈ Statement.edgeAttributes label tail head, Whole s :=
      List.forall_mem_append.2 ⟨List.forall_mem_append.2 ⟨hlabel, hcut tail (by decide)⟩,
        hcut head (by decide)⟩
    have hends : Whole (quote source.path ++ " -> " ++ quote target.path) :=
      whole_append (whole_append (whole_quote source.path) (by decide)) (whole_quote target.path)
    exact whole_append (whole_append hends (whole_attributes hattributes)) (by decide)
  | close => decide

theorem whole_indent (n : Nat) : Whole (indent n) := by
  induction n with
  | zero => decide
  | succ n ih => exact whole_append (by decide) ih

structure Row.Legible (r : Row) : Prop where
  whole : Whole r.text
  said : said r.text = r.statement.said

theorem legible_of_settings {r : Row} (h : ∀ text, r.statement = .setting text → IsSetting text) :
    r.Legible := by
  obtain ⟨rest, htext⟩ := r.statement.exists_text
  refine ⟨whole_append (whole_indent r.depth) (whole_text h), ?_⟩
  rw [Row.text, htext]
  exact said_front h r.depth rest

theorem legible_setting {n : Nat} {text : String} (h : IsSetting text) :
    Row.Legible ⟨n, .setting text⟩ :=
  legible_of_settings fun _ ht => Statement.setting.inj ht ▸ h

theorem legible_plain {n : Nat} {s : Statement} (h : ∀ text, s ≠ .setting text) :
    Row.Legible ⟨n, s⟩ :=
  legible_of_settings fun text ht => absurd ht (h text)

theorem textOf_eq (rs : List Row) : textOf rs = feed (rs.map Row.text) := by
  induction rs with
  | nil => rfl
  | cons r rs ih =>
    rw [List.map_cons, feed, ← ih]
    rfl

theorem statementsOf_textOf {rs : List Row} (h : ∀ r ∈ rs, r.Legible) :
    statementsOf (textOf rs) = rs.map Row.text := by
  rw [textOf_eq]
  exact statementsOf_feed (List.forall_mem_map.2 fun r hr => (h r hr).whole)

theorem map_said_textOf {rs : List Row} (h : ∀ r ∈ rs, r.Legible) :
    (statementsOf (textOf rs)).map said = rs.map fun r => r.statement.said := by
  rw [statementsOf_textOf h, List.map_map]
  exact List.map_congr_left fun r hr => (h r hr).said

mutual

theorem ownRows_subset (depth : Nat) {p : Node} : ∀ n : Node, p ∈ n.parts →
    ∃ d, ownRows c style d p ⊆ nodeRows c style depth n
  | .simple id name, h | .history id name, h => by
    obtain rfl := List.mem_singleton.1 h
    exact ⟨depth, List.Subset.refl _⟩
  | .composite id name initial ns, h | .concurrent id name ns, h
  | .region id name initial ns, h => by
    rcases List.mem_cons.1 h with rfl | h
    · exact ⟨depth, List.append_subset.2 ⟨List.subset_append_of_subset_left _
        (List.subset_append_left _ _), List.subset_append_right _ _⟩⟩
    · obtain ⟨d, hd⟩ := ownRows_subset_nodesRows (depth + 1) ns h
      exact ⟨d, List.subset_append_of_subset_left _ (List.subset_append_of_subset_right _ hd)⟩

theorem ownRows_subset_nodesRows (depth : Nat) {p : Node} : ∀ ns : List Node,
    p ∈ Node.partsOf ns → ∃ d, ownRows c style d p ⊆ nodesRows c style depth ns
  | [], h => absurd h List.not_mem_nil
  | n :: ns, h => by
    rcases List.mem_append.1 h with hn | hns
    · obtain ⟨d, hd⟩ := ownRows_subset depth n hn
      exact ⟨d, List.subset_append_of_subset_left _ hd⟩
    · obtain ⟨d, hd⟩ := ownRows_subset_nodesRows depth ns hns
      exact ⟨d, List.subset_append_of_subset_right _ hd⟩

end

theorem isSetting_of_start {text : String} (c d : Char) (hw : Whole text)
    (htext : [c, d] <+: text.toList) (hc : c ∉ ['"', 'd', '\x7d', ' ']) (hd : c ≠ 's' ∨ d ≠ 'u') :
    IsSetting text := by
  obtain ⟨cs, htext⟩ := htext
  simp only [List.mem_cons, not_or] at hc
  obtain ⟨hquote, hgraph, hclose, hblank, -⟩ := hc
  refine ⟨hw, ⟨c, by rw [← htext]; rfl, hblank⟩, fun rest => ?_⟩
  have hcluster : quotedAfter "subgraph " (c :: d :: (cs ++ rest)) = none := by
    refine quotedAfter_eq_none fun hp => ?_
    obtain ⟨hs, hp⟩ := List.cons_prefix_cons.1 hp
    exact hd.elim (absurd hs.symm) (absurd (List.cons_prefix_cons.1 hp).1.symm)
  have hplain : quotedAfter "" (c :: d :: (cs ++ rest)) = none := quotedAfter_cons rfl hquote _
  have htitle : quotedAfter "digraph " (c :: d :: (cs ++ rest)) = none :=
    quotedAfter_cons rfl hgraph _
  rw [← htext, List.append_assoc, List.cons_append, List.cons_append, List.nil_append]
  simp only [saidAfterIndent, hplain, hcluster, htitle, List.head?_cons, Option.some_inj, hclose,
    if_false]

theorem isSetting_rankdir (d : Direction) : IsSetting ("rankdir=" ++ d.rankdir ++ ";") := by
  cases d <;> exact isSetting_of_start 'r' 'a' (by decide) (by decide) (by decide) (by decide)

theorem legible_own (c : Chart) (style : Style) (d : Nat) (p : Node) :
    ∀ r ∈ ownRows c style d p, r.Legible := by
  have hrounded : IsSetting "style=rounded;" :=
    isSetting_of_start 's' 't' (by decide) (by decide) (by decide) (by decide)
  have hblank : IsSetting "label=\"\";" :=
    isSetting_of_start 'l' 'a' (by decide) (by decide) (by decide) (by decide)
  have hdashed : IsSetting "style=dashed;" :=
    isSetting_of_start 's' 't' (by decide) (by decide) (by decide) (by decide)
  cases p with
  | simple | history => exact List.forall_mem_singleton.2 (legible_plain (by simp))
  | composite | concurrent =>
    simp only [ownRows, clusterHead, List.cons_append, List.nil_append, List.forall_mem_cons]
    exact ⟨legible_plain (by simp), legible_plain (by simp), legible_setting hrounded,
      legible_plain (by simp), legible_plain (by simp), List.forall_mem_nil _⟩
  | region =>
    simp only [ownRows, regionHead, List.cons_append, List.nil_append, List.forall_mem_cons]
    exact ⟨legible_plain (by simp), legible_setting hblank, legible_setting hdashed,
      legible_plain (by simp), List.forall_mem_nil _⟩

theorem legible_rows (c : Chart) (style : Style) : ∀ r ∈ rows c style, r.Legible := by
  have hcompound : IsSetting "compound=true;" :=
    isSetting_of_start 'c' 'o' (by decide) (by decide) (by decide) (by decide)
  have hnode : IsSetting "node [shape=box, style=rounded, fontname=\"Helvetica\"];" :=
    isSetting_of_start 'n' 'o' (by decide) (by decide) (by decide) (by decide)
  have hedge : IsSetting "edge [fontname=\"Helvetica\"];" :=
    isSetting_of_start 'e' 'd' (by decide) (by decide) (by decide) (by decide)
  have hrankdir := isSetting_rankdir (directionOf c style)
  have hopen : Row.Legible ⟨0, .openGraph style.title⟩ := legible_plain (by simp)
  have hclose : Row.Legible ⟨0, .close⟩ := legible_plain (by simp)
  simp only [rows, List.forall_mem_append, List.forall_mem_cons]
  refine ⟨⟨⟨⟨hopen, legible_setting hcompound, legible_setting hrankdir, legible_setting hnode,
    legible_setting hedge, List.forall_mem_nil _⟩, fun r hr => ?_⟩, ?_⟩, hclose,
    List.forall_mem_nil _⟩
  · obtain ⟨p, -, d, hr⟩ := mem_nodesRows c.roots hr
    exact legible_own c style d p r hr
  · exact List.forall_mem_map.2 fun t _ => legible_plain (by simp)

end Rows

end Statechart.Dot
