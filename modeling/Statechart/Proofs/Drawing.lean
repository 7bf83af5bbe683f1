import Mathlib
import Statechart.Dot.Markers
import Statechart.Proofs.Lines
import Statechart.Proofs.Quoting

namespace Statechart

theorem oneLine_joined {d : String} {ss : List String} (hd : OneLine d) (h : ∀ s ∈ ss, OneLine s) :
    OneLine (Text.joined d ss) :=
  Text.joined_induction List.not_mem_nil (fun _ _ hs ht => oneLine_append.2 ⟨hs, ht⟩) hd h

namespace Dot

section Quoted

def Guarded (cs : List Char) : Prop :=
  ∀ before after, cs = before ++ '"' :: after → before.getLast? = some '\\'

theorem Sheltered.guarded {cs : List Char} (h : Sheltered cs) : Guarded cs := by
  intro before after hcut
  have hodd := (h [] Even.zero).2 before after hcut
  rcases List.eq_nil_or_concat' before with rfl | ⟨front, c, rfl⟩
  · simp [slashes] at hodd
  · by_cases hc : c = '\\'
    · simp [hc]
    · simp [slashes_concat, hc] at hodd

theorem mem_escape {c : Char} (hc : c ≠ '\\') {cs : List Char} : c ∈ escape cs ↔ c ∈ cs := by
  induction cs with
  | nil => rfl
  | cons x cs ih =>
    unfold escape
    split <;> simp [ih, hc]

@[simp] theorem oneLine_quote {s : String} : OneLine (quote s) ↔ OneLine s := by
  have hquote : OneLine "\"" := by decide
  have hescaped : OneLine (escaped s) ↔ OneLine s := by
    rw [OneLine, escaped, String.toList_ofList, mem_escape (by decide)]
    rfl
  simp [quote, hquote, hescaped]

end Quoted

section Openings

def opening (id : NodeId) : String :=
  "subgraph " ++ quote (clusterId id) ++ " \x7b"

theorem text_openCluster (id : NodeId) : (Statement.openCluster id).text = opening id :=
  rfl

theorem opening_injective : Function.Injective opening := by
  intro a b h
  have hquote : quote (clusterId a) = quote (clusterId b) := by
    simpa [opening, ← String.toList_inj] using h
  have hpath : a.path = b.path := by
    simpa [clusterId, ← String.toList_inj] using quote_injective hquote
  rwa [NodeId.mk.injEq]

theorem opening_eq (id : NodeId) : ∃ middle : List Char,
    (opening id).toList = "subgraph ".toList ++ '"' :: middle ++ ['\x7b'] := by
  refine ⟨(escape (clusterId id).toList) ++ "\" ".toList, ?_⟩
  simp [opening, quote, escaped]

theorem opens_eq_true {id : NodeId} {l : String} :
    opens id l = true ↔ Text.trimmed l = opening id := by
  rw [opens, decide_eq_true_iff, text_openCluster]

theorem opens_iff {id : NodeId} {l : List Char} :
    opens id (String.ofList l) = true ↔ Text.trim l = (opening id).toList := by
  rw [opens_eq_true, Text.trimmed, String.toList_ofList, ← String.toList_inj,
    String.toList_ofList]

theorem trim_ne_of_start {before : List Char} {c : Char} (hb : ∀ b ∈ before, Text.isBlank b)
    (hc : Text.isBlank c = false) (hs : c ≠ 's') {p : List Char} (hp : before ++ [c] <+: p)
    (id : NodeId) : Text.trim p ≠ (opening id).toList := by
  obtain ⟨rest, rfl⟩ := hp
  obtain ⟨rest', htrim⟩ := Text.trim_cons hc rest
  obtain ⟨middle, hopening⟩ := opening_eq id
  rw [List.append_assoc, List.singleton_append, Text.trim_append_of_blank hb, htrim, hopening]
  intro h
  exact hs (List.cons.inj h).1

theorem trim_ne_of_end {p : List Char} (hp : [';'] <:+ p) (id : NodeId) :
    Text.trim p ≠ (opening id).toList := by
  obtain ⟨front, rfl⟩ := hp
  obtain ⟨middle, hopening⟩ := opening_eq id
  rw [Text.trim_concat front (by decide), hopening]
  intro h
  exact absurd (List.append_inj_right' h rfl) (by decide)

theorem trim_ne_of_guarded {e p : List Char} (he : Guarded e) (hp : p <:+: e) (id : NodeId) :
    Text.trim p ≠ (opening id).toList := by
  intro h
  obtain ⟨middle, hopening⟩ := opening_eq id
  have hin := (Text.trim_isInfix p).trans hp
  rw [h, hopening] at hin
  obtain ⟨before, after, rfl⟩ := hin
  have hlast := he (before ++ "subgraph ".toList) (middle ++ ['\x7b'] ++ after) (by simp)
  rw [List.getLast?_append, show "subgraph ".toList.getLast? = some ' ' from rfl] at hlast
  cases hlast

def Unopened (s : String) : Prop :=
  ∀ l ∈ Text.linesOf (s ++ "\n"), ∀ id, opens id l = false

theorem linesOf_terminated (s : String) :
    Text.linesOf (s ++ "\n") = ((Text.split '\n' s.toList).map Text.chop).map String.ofList := by
  rw [Text.linesOf, String.toList_append, show "\n".toList = ['\n'] from rfl,
    Text.lines_eq_map_split]

theorem unopened_of_trim_ne {s : String}
    (h : ∀ p ∈ Text.split '\n' s.toList, ∀ id, Text.trim p ≠ (opening id).toList) : Unopened s := by
  intro l hl id
  rw [linesOf_terminated] at hl
  obtain ⟨q, hq, rfl⟩ := List.mem_map.1 hl
  obtain ⟨p, hp, rfl⟩ := List.mem_map.1 hq
  rw [← Bool.not_eq_true, opens_iff, Text.trim_chop]
  exact h p hp id

/-- A text that begins, after blanks, with a character which no opening begins with. -/
def Unlike (s : String) : Prop :=
  ∃ before c, before ++ [c] <+: s.toList ∧ (∀ b ∈ before, Text.isBlank b) ∧
    Text.isBlank c = false ∧ c ≠ 's'

theorem Unlike.unopened {s : String} (h : Unlike s) (hs : OneLine s) : Unopened s := by
  obtain ⟨before, c, hp, hb, hc, hne⟩ := h
  refine unopened_of_trim_ne fun p hmem => ?_
  rw [Text.split_of_notMem hs, List.mem_singleton] at hmem
  exact trim_ne_of_start hb hc hne (hmem ▸ hp)

theorem unopened_of_semicolon {s : String} (hs : OneLine s) (h : [';'] <:+ s.toList) :
    Unopened s := by
  refine unopened_of_trim_ne fun p hmem => ?_
  rw [Text.split_of_notMem hs, List.mem_singleton] at hmem
  exact trim_ne_of_end (hmem ▸ h)

theorem Unlike.unopened_quoted {a e z : String} (h : Unlike a) (ha : OneLine a)
    (he : Guarded e.toList) (hz : OneLine z) (hend : [';'] <:+ z.toList) :
    Unopened (a ++ e ++ z) := by
  obtain ⟨before, c, hp, hb, hc, hne⟩ := h
  refine unopened_of_trim_ne fun p hmem => ?_
  rw [String.toList_append, String.toList_append, List.append_assoc] at hmem
  rcases Text.mem_split_append_left ha hmem with hstart | hmem
  · exact trim_ne_of_start hb hc hne (hp.trans hstart)
  · rcases Text.mem_split_append_right hz hmem with hstop | hmem
    · exact trim_ne_of_end (hend.trans hstop)
    · exact trim_ne_of_guarded he (Text.isInfix_of_mem_split hmem)

end Openings

section Rows

theorem eq_blank_of_mem_indent {n : Nat} {x : Char} (h : x ∈ (indent n).toList) : x = ' ' := by
  induction n with
  | zero => cases h
  | succ n ih =>
    rw [indent, String.toList_append, List.mem_append] at h
    exact h.elim (fun h => by simpa [indentUnit] using h) ih

theorem isBlank_indent {n : Nat} : ∀ c ∈ (indent n).toList, Text.isBlank c := by
  intro c hc
  rw [eq_blank_of_mem_indent hc]
  decide

theorem oneLine_indent (n : Nat) : OneLine (indent n) := by
  induction n with
  | zero => decide
  | succ n ih => exact oneLine_append.2 ⟨by decide, ih⟩

theorem indent_append_unit (n : Nat) : indent n ++ indentUnit = indent (n + 1) := by
  induction n with
  | zero => decide
  | succ n ih => rw [indent, String.append_assoc, ih, ← indent]

theorem unlike_indent {n : Nat} {s : String} {c : Char} (hc : Text.isBlank c = false) (hne : c ≠ 's')
    (hs : [c] <+: s.toList) : Unlike (indent n ++ s) := by
  refine ⟨(indent n).toList, c, ?_, isBlank_indent, hc, hne⟩
  rw [String.toList_append]
  exact (List.prefix_append_right_inj _).2 hs

/-- What statements inside a graph keep to: only labels can take up more than a line. -/
def Statement.Tidy : Statement → Prop
  | openGraph _ => False
  | setting text => OneLine text ∧ [';'] <:+ text.toList
  | openCluster id | anchor id | node id _ _ | historyNode id => OneLine id.path
  | edge source target _ tail head => OneLine source.path ∧ OneLine target.path ∧
      (∀ id ∈ tail, OneLine id.path) ∧ ∀ id ∈ head, OneLine id.path
  | caption _ | close => True

def Row.lines (r : Row) : List String :=
  Text.linesOf (r.text ++ "\n")

theorem linesOf_textOf (rows : List Row) : Text.linesOf (textOf rows) = rows.flatMap Row.lines := by
  induction rows with
  | nil => rfl
  | cons r rows ih =>
    have htext : (textOf (r :: rows)).toList = r.text.toList ++ '\n' :: (textOf rows).toList := by
      simp [textOf]
    rw [Text.linesOf, htext, Text.lines_append, List.map_append, List.flatMap_cons, ← ih]
    simp [Row.lines, Text.linesOf]

theorem joined_cons (d s : String) (ss : List String) :
    Text.joined d (s :: ss) = s ++ (if ss = [] then "" else d ++ Text.joined d ss) := by
  cases ss with
  | nil => exact (String.append_empty).symm
  | cons t ts => simp [Text.joined, String.append_assoc]

theorem unopened_labelled {n : Nat} {front e : String} {rest : List String}
    (hquote : ['"'] <+: front.toList) (hfront : OneLine front) (he : Guarded e.toList)
    (hrest : ∀ s ∈ rest, OneLine s) :
    Unopened (indent n ++ (front ++ Statement.attributes (("label=" ++ ("\"" ++ e ++ "\"")) :: rest) ++
      ";")) := by
  let tail := if rest = [] then "" else ", " ++ Text.joined ", " rest
  have htext : indent n ++ (front ++
      Statement.attributes (("label=" ++ ("\"" ++ e ++ "\"")) :: rest) ++ ";") =
      indent n ++ (front ++ " [label=\"") ++ e ++ ("\"" ++ tail ++ "];") := by
    rw [Statement.attributes.eq_2 _ (by simp), joined_cons]
    simp [← String.toList_inj, tail]
  have htail : OneLine tail := by
    unfold tail
    split
    · decide
    · exact oneLine_append.2 ⟨by decide, oneLine_joined (by decide) hrest⟩
  rw [htext]
  refine Unlike.unopened_quoted ?_ ?_ he ?_ ?_
  · refine unlike_indent (c := '"') (by decide) (by decide) ?_
    rw [String.toList_append]
    exact hquote.trans (List.prefix_append _ _)
  · simp +decide [oneLine_indent, hfront]
  · simp +decide [htail]
  · exact ⟨'"' :: tail.toList ++ [']'], by simp⟩

theorem oneLine_attributes {ss : List String} (h : ∀ s ∈ ss, OneLine s) :
    OneLine (Statement.attributes ss) := by
  have hjoined := oneLine_joined (d := ", ") (by decide) h
  unfold Statement.attributes
  split
  · decide
  · simpa +decide using hjoined

theorem unopened_edge {n : Nat} {source target : NodeId} {label : String}
    {tail head : Option NodeId} (h : (Statement.edge source target label tail head).Tidy) :
    Unopened (Row.text ⟨n, .edge source target label tail head⟩) := by
  obtain ⟨hsource, htarget, htail, hhead⟩ := h
  have hends : OneLine (quote source.path ++ " -> " ++ quote target.path) := by
    simp +decide [hsource, htarget]
  have hstart : ['"'] <+: (quote source.path ++ " -> " ++ quote target.path).toList := by
    simp [quote]
  have hcuts : ∀ s ∈ (tail.map fun id => "ltail=" ++ quote (clusterId id)).toList ++
      (head.map fun id => "lhead=" ++ quote (clusterId id)).toList, OneLine s := by
    intro s hs
    rw [List.mem_append, Option.mem_toList, Option.mem_toList] at hs
    rcases hs with hs | hs
    · obtain ⟨id, hid, rfl⟩ := Option.map_eq_some_iff.1 hs
      simp +decide [clusterId, htail id hid]
    · obtain ⟨id, hid, rfl⟩ := Option.map_eq_some_iff.1 hs
      simp +decide [clusterId, hhead id hid]
  by_cases hlabel : label = ""
  · have hattributes := oneLine_attributes hcuts
    have hunlike : Unlike (Row.text ⟨n, .edge source target label tail head⟩) :=
      unlike_indent (c := '"') (by decide) (by decide) (by simp [Statement.text, quote])
    refine hunlike.unopened ?_
    simpa +decide [Row.text, Statement.text, Statement.edgeAttributes, hlabel, oneLine_indent,
      hsource, htarget] using hattributes
  · have hescaped : Guarded (escaped label).toList := by
      rw [escaped, String.toList_ofList]
      exact (sheltered_escape label.toList).guarded
    have hrow := unopened_labelled (n := n) hstart hends hescaped hcuts
    simpa [Row.text, Statement.text, Statement.edgeAttributes, hlabel, quote] using hrow

theorem unopened_openGraph {title : String} (h : OneLine title) :
    Unopened (Row.text ⟨0, .openGraph title⟩) := by
  have hunlike : Unlike (Row.text ⟨0, .openGraph title⟩) :=
    unlike_indent (c := 'd') (by decide) (by decide) (by simp [Statement.text])
  refine hunlike.unopened ?_
  simp +decide [Row.text, Statement.text, h]

theorem unopened_row {r : Row} (ht : r.statement.Tidy) (h : ∀ id, r.statement ≠ .openCluster id) :
    Unopened r.text := by
  obtain ⟨n, s⟩ := r
  have hunlike : ∀ {c : Char}, Text.isBlank c = false → c ≠ 's' → [c] <+: s.text.toList →
      Unlike (Row.text ⟨n, s⟩) := fun hc hne hs => unlike_indent hc hne hs
  cases s with
  | openGraph title => exact ht.elim
  | setting text =>
    refine unopened_of_semicolon (oneLine_append.2 ⟨oneLine_indent n, ht.1⟩) ?_
    rw [Row.text, String.toList_append]
    exact ht.2.trans (List.suffix_append _ _)
  | openCluster id => exact absurd rfl (h id)
  | caption ls =>
    have htext : Row.text ⟨n, .caption ls⟩ = indent n ++ "label=\"" ++
        Text.joined "\\n" (ls.map escaped) ++ "\";" := by
      simp [Row.text, Statement.text, quoteLines, ← String.toList_inj]
    have hunlike : Unlike (indent n ++ "label=\"") :=
      unlike_indent (c := 'l') (by decide) (by decide) (by decide)
    rw [htext]
    exact hunlike.unopened_quoted (oneLine_append.2 ⟨oneLine_indent n, by decide⟩)
      (sheltered_captions ls).guarded (by decide) (by decide)
  | anchor id =>
    have ht : OneLine id.path := ht
    refine (hunlike (c := '"') (by decide) (by decide) (by simp [Statement.text, quote])).unopened ?_
    simp +decide [Row.text, Statement.text, oneLine_indent, ht]
  | node id ls final =>
    have ht : OneLine id.path := ht
    have hstart : ['"'] <+: (quote id.path).toList := by simp [quote]
    have hfinal : ∀ s ∈ if final then ["peripheries=2"] else [], OneLine s := by
      cases final <;> decide
    exact unopened_labelled hstart (oneLine_quote.2 ht) (sheltered_captions ls).guarded hfinal
  | historyNode id =>
    have ht : OneLine id.path := ht
    refine (hunlike (c := '"') (by decide) (by decide) (by simp [Statement.text, quote])).unopened ?_
    simp +decide [Row.text, Statement.text, oneLine_indent, ht]
  | edge source target label tail head => exact unopened_edge ht
  | close =>
    refine (hunlike (c := '\x7d') (by decide) (by decide) (by simp [Statement.text])).unopened ?_
    simp +decide [Row.text, Statement.text, oneLine_indent]

theorem Row.lines_of_oneLine {r : Row} (h : OneLine r.text) (hend : ['\x7b'] <:+ r.text.toList) :
    r.lines = [r.text] := by
  obtain ⟨front, hfront⟩ := hend
  rw [lines, linesOf_terminated, Text.split_of_notMem h, ← hfront, List.map_singleton,
    Text.chop_concat (by decide), hfront, List.map_singleton, String.ofList_toList]

theorem lines_openCluster {id : NodeId} (h : OneLine id.path) (n : Nat) :
    Row.lines ⟨n, .openCluster id⟩ = [indent n ++ opening id] := by
  refine Row.lines_of_oneLine ?_ ?_
  · simp +decide [Row.text, Statement.text, oneLine_indent, clusterId, h]
  · exact ⟨(indent n).toList ++ "subgraph ".toList ++ (quote (clusterId id)).toList ++ [' '],
      by simp [Row.text, Statement.text]⟩

theorem lines_openGraph {title : String} (h : OneLine title) :
    Row.lines ⟨0, .openGraph title⟩ = [(Statement.openGraph title).text] := by
  refine Row.lines_of_oneLine ?_ ?_
  · simp +decide [Row.text, Statement.text, indent, h]
  · exact ⟨"digraph ".toList ++ (quote title).toList ++ [' '],
      by simp [Row.text, Statement.text, indent]⟩

theorem opens_indent {id id' : NodeId} {n : Nat} :
    opens id' (indent n ++ opening id) = true ↔ id' = id := by
  have htrim : Text.trim (indent n ++ opening id).toList = (opening id).toList := by
    obtain ⟨middle, hopening⟩ := opening_eq id
    rw [String.toList_append, Text.trim_append_of_blank isBlank_indent, hopening]
    exact Text.trim_eq_self (by decide) (by decide) ("ubgraph ".toList ++ '"' :: middle)
  rw [← String.ofList_toList (s := indent n ++ opening id), opens_iff, htrim, String.toList_inj]
  exact ⟨fun h => opening_injective h.symm, fun h => by rw [h]⟩

theorem margin_indent (n : Nat) (id : NodeId) : margin (indent n ++ opening id) = indent n := by
  obtain ⟨middle, hopening⟩ := opening_eq id
  have hstart : (opening id).toList = 's' :: ("ubgraph ".toList ++ '"' :: middle ++ ['\x7b']) := hopening
  rw [margin, String.toList_append, hstart, List.takeWhile_append_of_pos isBlank_indent,
    List.takeWhile_cons_of_neg (by decide), List.append_nil, String.ofList_toList]

theorem isHeader_openGraph (title : String) : isHeader (Statement.openGraph title).text = true := by
  have htext : (Statement.openGraph title).text.toList =
      'd' :: ("igraph ".toList ++ (quote title).toList ++ [' ']) ++ ['\x7b'] := by
    simp [Statement.text]
  have hstart : Text.trimStart (Statement.openGraph title).text.toList =
      (Statement.openGraph title).text.toList := by
    rw [htext]
    exact List.dropWhile_cons_of_neg (by decide)
  have hend : Text.trimEnd (Statement.openGraph title).text.toList =
      (Statement.openGraph title).text.toList := by
    rw [htext]
    exact Text.trimEnd_concat _ (by decide)
  rw [isHeader, hstart, hend, htext, List.getLast?_concat]
  simp

end Rows

end Dot

end Statechart
