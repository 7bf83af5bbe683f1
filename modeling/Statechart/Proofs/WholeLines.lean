import Mathlib
import Statechart.Proofs.Admission
import Statechart.Proofs.Graph
import Statechart.Proofs.Labels

namespace Statechart

theorem oneLine_joined_iff {d : String} (hd : OneLine d) {ss : List String} :
    OneLine (Text.joined d ss) ↔ ∀ s ∈ ss, OneLine s := by
  refine ⟨fun h => ?_, oneLine_joined hd⟩
  induction ss with
  | nil => simp
  | cons s ss ih =>
    cases ss with
    | nil => exact List.forall_mem_singleton.2 h
    | cons t ts =>
      rw [Text.joined, oneLine_append, oneLine_append] at h
      exact List.forall_mem_cons.2 ⟨h.1.1, ih h.2⟩

namespace Text

theorem notMem_words {c : Char} (hc : isBlank c) (cs : List Char) : ∀ w ∈ words cs, c ∉ w := by
  induction cs with
  | nil => simp [words]
  | cons d cs ih =>
    rw [words]
    split
    · exact ih
    · rename_i hd
      have hne : c ≠ d := fun he => hd (he ▸ hc)
      split
      · exact List.forall_mem_cons.2 ⟨by simp [hne], ih⟩
      · split
        · simp [hne]
        · rename_i w ws hw
          obtain ⟨hmem, hws⟩ := List.forall_mem_cons.1 (hw ▸ ih)
          exact List.forall_mem_cons.2 ⟨by simp [hne, hmem], hws⟩

theorem notMem_fill {c : Char} (hc : c ≠ ' ') {cols : List Char → Nat} {width : Nat}
    {ws ls : List (List Char)} (hws : ∀ w ∈ ws, c ∉ w) (hls : ∀ l ∈ ls, c ∉ l) :
    ∀ l ∈ fill cols width ws ls, c ∉ l := by
  induction ws generalizing ls with
  | nil => simpa [fill] using hls
  | cons w ws ih =>
    obtain ⟨hw, hws⟩ := List.forall_mem_cons.1 hws
    cases ls with
    | nil => exact ih hws (List.forall_mem_singleton.2 hw)
    | cons l ls =>
      obtain ⟨hl, hls'⟩ := List.forall_mem_cons.1 hls
      rw [fill]
      split
      · exact ih hws (List.forall_mem_cons.2 ⟨by simp [hl, hc, hw], hls'⟩)
      · exact ih hws (List.forall_mem_cons.2 ⟨hw, hls⟩)

theorem oneLine_wrap {width : Nat} {s : String} : (∀ l ∈ wrap width s, OneLine l) ↔
    OneLine s ∨ (width ≠ 0 ∧ width < columnsOf s) := by
  unfold wrap wrapBy
  rw [← columnsOf]
  split
  · rename_i hfits
    have hnot : ¬(width ≠ 0 ∧ width < columnsOf s) := by omega
    simp [hnot]
  · rename_i hfits
    refine ⟨fun _ => .inr (by omega), fun _ => ?_⟩
    have hwords : ∀ w ∈ words s.toList, '\n' ∉ w := notMem_words (by decide) s.toList
    have hfill : ∀ l ∈ fill columns width (words s.toList) [], '\n' ∉ l :=
      notMem_fill (by decide) hwords (by simp)
    split
    · decide
    · intro l hl
      obtain ⟨cs, hcs, rfl⟩ := List.mem_map.1 hl
      rw [OneLine, String.toList_ofList]
      exact hfill cs hcs

end Text

theorem Remark.oneLine_shown (r : Remark) : OneLine r.shown ↔ OneLine r.text := by
  have hword : OneLine r.kind.word := by
    cases r.kind <;> decide
  unfold shown
  split
  · simp +decide [toString, hword]
  · simp +decide [toString, hword]
  · simp +decide [toString, hword]
  · rfl
  · rfl

namespace Dot

section Lines

variable {m n : Mode} {cs : List Char} {s : String}

theorem plain_of_scan_chop {a b : List Char} (h : scan m (a ++ '\n' :: b) = some n) :
    scan m (Text.chop a) ≠ some .plain := by
  obtain ⟨k, hk, hne, -⟩ := exists_cut h
  rw [hk]
  exact fun hplain => hne (Option.some.inj hplain)

theorem linesOf_whole (hs : Whole s) (h : OneLine s) : Text.linesOf (s ++ "\n") = [s] := by
  rw [linesOf_terminated, Text.split_of_notMem h, List.map_singleton, chop_of_scan hs,
    List.map_singleton, String.ofList_toList]

theorem whole_linesOf_iff (hs : Whole s) :
    (∀ l ∈ Text.linesOf (s ++ "\n"), Whole l) ↔ OneLine s := by
  constructor
  · intro h hfeed
    obtain ⟨a, b, hab, ha⟩ := List.eq_append_cons_of_mem hfeed
    rw [Whole, hab] at hs
    refine plain_of_scan_chop hs ?_
    have hfirst := h (String.ofList (Text.chop a)) (by
      rw [linesOf_terminated, hab, Text.split_cut ha]
      exact List.mem_cons_self)
    rwa [Whole, String.toList_ofList] at hfirst
  · intro h
    rw [linesOf_whole hs h]
    exact List.forall_mem_singleton.2 hs

end Lines

section Texts

/-- The texts that a statement shows in quotes, ids apart. -/
def Statement.texts : Statement → List String
  | openGraph title => [title]
  | caption lines | node _ lines _ => lines
  | edge _ _ label _ _ => [label]
  | setting _ | openCluster _ | anchor _ | historyNode _ | close => []

theorem oneLine_quoteLines {ss : List String} :
    OneLine (quoteLines ss) ↔ ∀ s ∈ ss, OneLine s := by
  have hescaped : ∀ s, OneLine (escaped s) ↔ OneLine s := by
    intro s
    rw [OneLine, escaped, String.toList_ofList, mem_escape (by decide)]
    rfl
  simp +decide [quoteLines, oneLine_joined_iff, hescaped]

theorem oneLine_attributes_iff {ss : List String} :
    OneLine (Statement.attributes ss) ↔ ∀ s ∈ ss, OneLine s := by
  unfold Statement.attributes
  split
  · simp +decide
  · simp +decide [oneLine_joined_iff]

theorem oneLine_edgeAttributes {label : String} {tail head : Option NodeId}
    (ht : ∀ id ∈ tail, OneLine id.path) (hh : ∀ id ∈ head, OneLine id.path) :
    (∀ s ∈ Statement.edgeAttributes label tail head, OneLine s) ↔ OneLine label := by
  have hcut : ∀ {word : String} {cut : Option NodeId}, OneLine word →
      (∀ id ∈ cut, OneLine id.path) →
      ∀ s ∈ (cut.map fun id => word ++ quote (clusterId id)).toList, OneLine s := by
    intro word cut hword hid s hs
    obtain ⟨id, hmem, rfl⟩ := Option.map_eq_some_iff.1 (Option.mem_toList.1 hs)
    simp +decide [clusterId, hword, hid id hmem]
  unfold Statement.edgeAttributes
  rw [List.forall_mem_append, List.forall_mem_append, and_iff_left (hcut (by decide) hh),
    and_iff_left (hcut (by decide) ht)]
  split
  · rename_i hlabel
    simp +decide [hlabel]
  · simp +decide

theorem oneLine_text_iff {s : Statement} (h : s.Tidy ∨ ∃ title, s = .openGraph title) :
    OneLine s.text ↔ ∀ t ∈ s.texts, OneLine t := by
  rcases h with h | ⟨title, rfl⟩
  · cases s with
    | openGraph title => exact h.elim
    | setting text => exact iff_of_true h.1 (by simp [Statement.texts])
    | openCluster id | anchor id | historyNode id =>
      have hid : OneLine id.path := h
      simp +decide [Statement.text, Statement.texts, clusterId, hid]
    | caption lines => simp +decide [Statement.text, Statement.texts, oneLine_quoteLines]
    | node id lines final =>
      have hid : OneLine id.path := h
      simp +decide [Statement.text, Statement.texts, Statement.nodeAttributes, hid,
        oneLine_attributes_iff, oneLine_quoteLines]
    | edge source target label tail head =>
      obtain ⟨hsource, htarget, htail, hhead⟩ := h
      simp +decide [Statement.text, Statement.texts, hsource, htarget, oneLine_attributes_iff,
        oneLine_edgeAttributes htail hhead]
    | close => exact iff_of_true (by decide) (by simp [Statement.texts])
  · simp +decide [Statement.text, Statement.texts]

theorem oneLine_rows {c : Chart} (h : Drawable c) {style : Style} {r : Row}
    (hr : r ∈ rows c style) : OneLine r.text ↔ ∀ t ∈ r.statement.texts, OneLine t := by
  rw [Row.text, oneLine_append, and_iff_right (oneLine_indent r.depth)]
  refine oneLine_text_iff ?_
  rcases List.mem_cons.1 (show r ∈ ⟨0, .openGraph style.title⟩ :: (rows c style).tail from hr)
    with rfl | hr
  · exact .inr ⟨style.title, rfl⟩
  · exact .inl (tidy_inside h style r hr)

end Texts

section Rows

variable {c : Chart} {style : Style} {P : String → Prop}

theorem texts_own {d : Nat} {p : Node} :
    (∀ r ∈ ownRows c style d p, ∀ t ∈ r.statement.texts, P t) ↔
      ((∃ k, p.kind? = some k ∧ k ≠ .history) → ∀ l ∈ labelLines c style p, P l) := by
  cases p <;> simp [ownRows, clusterHead, regionHead, Statement.texts, Node.kind?]

theorem texts_rows : (∀ r ∈ rows c style, ∀ t ∈ r.statement.texts, P t) ↔ P style.title ∧
    (∀ p ∈ Node.partsOf c.roots, (∃ k, p.kind? = some k ∧ k ≠ .history) →
      ∀ l ∈ labelLines c style p, P l) ∧ ∀ t ∈ c.transitions, P t.label.text := by
  have hnodes : (∀ r ∈ nodesRows c style 1 c.roots, ∀ t ∈ r.statement.texts, P t) ↔
      ∀ p ∈ Node.partsOf c.roots, (∃ k, p.kind? = some k ∧ k ≠ .history) →
        ∀ l ∈ labelLines c style p, P l := by
    constructor
    · intro h p hp
      obtain ⟨d, hd⟩ : ∃ d, ownRows c style d p ⊆ nodesRows c style 1 c.roots :=
        ownRows_subset_nodesRows 1 c.roots hp
      exact texts_own.1 fun r hr => h r (hd hr)
    · intro h r hr
      obtain ⟨p, hp, d, hr⟩ := mem_nodesRows c.roots hr
      exact texts_own.2 (h p hp) r hr
  have hedges : (∀ r ∈ c.transitions.map (edgeRow c), ∀ t ∈ r.statement.texts, P t) ↔
      ∀ t ∈ c.transitions, P t.label.text := by
    simp [edgeRow, Statement.texts]
  rw [rows, List.forall_mem_append, List.forall_mem_append, List.forall_mem_append, hnodes, hedges]
  simp [Statement.texts, and_assoc]

def Flat (style : Style) (r : Remark) : Prop :=
  OneLine r.text ∨ (style.labelWidth ≠ 0 ∧ style.labelWidth < Text.columnsOf r.shown)

theorem oneLine_labelLines {n : Node}
    (h : OneLine (((c.state? n.id).map State.caption).getD n.name)) :
    (∀ l ∈ labelLines c style n, OneLine l) ↔
      (style.remarks → ∀ r ∈ c.remarksOn n.id, Flat style r) := by
  rw [labelLines, List.forall_mem_cons, and_iff_right h, List.forall_mem_flatMap]
  simp only [Text.oneLine_wrap, Remark.oneLine_shown]
  by_cases hr : style.remarks <;> simp [hr, Flat]

theorem oneLine_caption {f : FlatChart} (hf : f.Sound) (ha : Assembled f c) (hl : f.Lined)
    {n : Node} (hn : n ∈ Node.partsOf c.roots) (hk : ∃ k, n.kind? = some k) :
    OneLine (((c.state? n.id).map State.caption).getD n.name) := by
  have hcaption : ∀ s ∈ f.states, OneLine s.caption := by
    intro s hs
    unfold State.caption
    cases hlabel : s.label with
    | none => exact (hf.names s hs).oneLine
    | some l => exact hl.captions s hs l hlabel
  cases hstate : c.state? n.id with
  | some s => exact hcaption s (ha.states ▸ List.mem_of_find?_eq_some hstate)
  | none =>
    cases ha.shape n hn with
    | simple hs _ | history hs _ | composite hs _ _ | concurrent hs _ =>
      exact (hf.names _ hs).oneLine
    | region _ _ => cases hk.choose_spec

theorem whole_lines_iff_rows (hd : Drawable c) :
    (∀ l ∈ Text.linesOf (layout c style), Whole l) ↔
      ∀ r ∈ rows c style, ∀ t ∈ r.statement.texts, OneLine t := by
  rw [layout, linesOf_textOf, List.forall_mem_flatMap]
  refine forall₂_congr fun r hr => ?_
  rw [Row.lines, whole_linesOf_iff (legible_rows c style r hr).whole, oneLine_rows hd hr]

theorem linesOf_layout_of_oneLine (h : ∀ r ∈ rows c style, OneLine r.text) :
    Text.linesOf (layout c style) = (rows c style).map Row.text := by
  have hlines : ∀ r ∈ rows c style, r.lines = [r.text] :=
    fun r hr => linesOf_whole (legible_rows c style r hr).whole (h r hr)
  rw [layout, linesOf_textOf, List.flatMap_congr hlines, List.map_eq_flatMap]

end Rows

end Dot

theorem FlatChart.remarked_of_text {input : String} {flat full : FlatChart}
    (hflat : FlatChart.ofText input = .ok flat) (hfull : flat.withHistory = .ok full) :
    ∀ r ∈ full.remarks, ∃ s ∈ full.states, s.id = r.state ∧ s.kind ≠ .history := by
  obtain ⟨b, home, hdrawn⟩ := exists_drawn hflat
  obtain ⟨o, ho, rfl⟩ := withHistory_ok hfull
  intro r hr
  obtain ⟨s, hs, hid⟩ := hdrawn.exists_told ho hr
  exact ⟨s, hdrawn.sound.mem_states ho hs, hid, hdrawn.leaf s hs⟩

namespace Dot

variable {c : Chart} {style : Style}

theorem labelLines_iff {f : FlatChart} (hf : f.Sound) (ha : Assembled f c) (hl : f.Lined)
    (hremarked : ∀ r ∈ c.remarks, ∃ s ∈ c.states, s.id = r.state ∧ s.kind ≠ .history) :
    (∀ p ∈ Node.partsOf c.roots, (∃ k, p.kind? = some k ∧ k ≠ .history) →
      ∀ l ∈ labelLines c style p, OneLine l) ↔ (style.remarks → ∀ r ∈ c.remarks, Flat style r) := by
  constructor
  · intro h hshown r hr
    obtain ⟨s, hs, hid, hk⟩ := hremarked r hr
    obtain ⟨p, hp, hpid, -, hkind⟩ := ha.exists_part hf (ha.states ▸ hs)
    have hlines := h p hp ⟨s.kind, hkind, hk⟩
    rw [oneLine_labelLines (oneLine_caption hf ha hl hp ⟨_, hkind⟩)] at hlines
    refine hlines hshown r (List.mem_filter.2 ⟨hr, ?_⟩)
    simp [hpid, hid]
  · rintro h p hp ⟨k, hkind, -⟩
    rw [oneLine_labelLines (oneLine_caption hf ha hl hp ⟨_, hkind⟩)]
    exact fun hshown r hr => h hshown r (List.mem_of_mem_filter hr)

theorem whole_lines {fallback : Fallback} {input : String} (h : Chart.parse fallback input = .ok c)
    (style : Style) :
    (statementsOf (layout c style) = (rows c style).map Row.text ∧
      ∀ s ∈ statementsOf (layout c style), Whole s) ∧
    ((∀ l ∈ Text.linesOf (layout c style), Whole l) ↔ OneLine style.title ∧
      (style.remarks → ∀ r ∈ c.remarks, r.kind = .note → Flat style r)) ∧
    ((∀ l ∈ Text.linesOf (layout c style), Whole l) →
      Text.linesOf (layout c style) = (rows c style).map Row.text) := by
  obtain ⟨flat, full, hflat, hfull, henforce⟩ := stages_of_parse h
  have hflatSound := FlatChart.sound_of_ofText hflat
  have hf := hflatSound.withHistory hfull
  have ha := assembled_of_enforce hf henforce
  have hl := (FlatChart.lined_of_text hflat).withHistory hflatSound hfull
  have hremarks := (Rules.admitted henforce).remarks
  have hremarked := FlatChart.remarked_of_text hflat hfull
  rw [← hremarks, ← ha.states] at hremarked
  have hd := ha.drawable hf
  have hstatements := statementsOf_textOf (legible_rows c style)
  have hlabels : ∀ t ∈ c.transitions, OneLine t.label.text := ha.transitions ▸ hl.labels
  have hnotes : (∀ r ∈ c.remarks, Flat style r) ↔
      ∀ r ∈ c.remarks, r.kind = .note → Flat style r := by
    refine ⟨fun hall r hr _ => hall r hr, fun hnotes r hr => ?_⟩
    exact (hl.remarks r (hremarks ▸ hr)).elim (hnotes r hr) .inl
  refine ⟨⟨hstatements, ?_⟩, ?_, fun hwhole => ?_⟩
  · rw [layout, hstatements]
    exact List.forall_mem_map.2 fun r hr => (legible_rows c style r hr).whole
  · rw [whole_lines_iff_rows hd, texts_rows, labelLines_iff hf ha hl hremarked,
      and_iff_left hlabels, hnotes]
  · refine linesOf_layout_of_oneLine fun r hr => ?_
    exact (oneLine_rows hd hr).2 ((whole_lines_iff_rows hd).1 hwhole r hr)

end Dot

namespace Sample.Brief

/-- A text with a note of two lines that are too short to be wrapped. -/
def text : String :=
  "[*] --> A\nnote right of A\none\ntwo\nend note"

def events : List (Located Event) :=
  [⟨.clause (.initial "A"), 1, "[*] --> A"⟩,
    ⟨.clause (.note "A" .right "one\ntwo"), 2, "note right of A"⟩]

def flat : FlatChart where
  states := [⟨"A", ⟨"A"⟩, none, none, .simple, none, 1⟩]
  regions := []
  transitions := []
  initials := [⟨.top, ⟨"A"⟩, 1⟩]
  finals := []
  notes := [⟨⟨"A"⟩, .right, "one\ntwo", 2, "note right of A"⟩]
  remarks := []
  direction := none

def chart : Chart where
  states := flat.states
  roots := [.simple ⟨"A"⟩ "A"]
  initial := ⟨"A"⟩
  nested := []
  defaulted := []
  regions := []
  transitions := []
  finals := []
  remarks := [⟨⟨"A"⟩, .note, "one\ntwo", 2⟩]
  direction := none

theorem lines_text : (Text.linesOf text).map Text.trimmed =
    ["[*] --> A", "note right of A", "one", "two", "end note"] :=
  Text.map_trimmed_linesOf (by decide +kernel) (by decide +kernel) (by decide +kernel)

theorem scan_text : Event.scan text = .ok events := by
  have hhead : Event.read "note right of A" 2 = .ok (.inr ⟨"A", .right, []⟩) := by
    decide +kernel
  rw [Event.scan, lines_text]
  refine Event.ofLines_cons (by decide +kernel) (by decide +kernel) ?_
  refine Event.ofLines_of_takes (.noteHead _ (by decide +kernel) hhead) ?_
  refine Event.ofLines_of_takes (.noteLine _ (by decide +kernel)) ?_
  refine Event.ofLines_of_takes (.noteLine _ (by decide +kernel)) ?_
  exact Event.ofLines_of_takes (.noteEnd _ (by decide +kernel)) rfl

theorem parse_text : Chart.parse .firstChild text = .ok chart := by
  have hflat : FlatChart.ofText text = .ok flat :=
    bind_ok.2 ⟨_, scan_text, bind_ok.2 ⟨⟨[.clause ⟨.initial "A", 1, "[*] --> A"⟩,
      .clause ⟨.note "A" .right "one\ntwo", 2, "note right of A"⟩], none⟩, rfl, rfl⟩⟩
  have hfull : flat.withHistory = .ok { flat with remarks := chart.remarks } := by
    rfl
  refine bind_ok.2 ⟨flat, hflat, bind_ok.2 ⟨_, hfull, ?_⟩⟩
  rfl

end Sample.Brief

namespace Dot

theorem whole_lines_brief : Chart.parse .firstChild Sample.Brief.text = .ok Sample.Brief.chart ∧
    ∀ l ∈ Text.linesOf (layout Sample.Brief.chart { labelWidth := 5 }), Whole l := by
  obtain ⟨-, hiff, -⟩ := whole_lines Sample.Brief.parse_text { labelWidth := 5 }
  refine ⟨Sample.Brief.parse_text, hiff.2 ⟨by decide, fun _ => ?_⟩⟩
  refine List.forall_mem_singleton.2 fun _ => .inr ⟨by decide, ?_⟩
  decide +kernel

theorem broken_line : Chart.parse .firstChild Sample.Brief.text = .ok Sample.Brief.chart ∧
    ∃ l ∈ Text.linesOf (layout Sample.Brief.chart {}), ¬Whole l := by
  refine ⟨Sample.Brief.parse_text, "  \"A\" [label=\"A\\none", ?_, ?_⟩
  · decide +kernel
  · decide +kernel

end Dot

end Statechart
