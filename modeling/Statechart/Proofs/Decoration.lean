import Mathlib
import Statechart.Config
import Statechart.Outline
import Statechart.Table
import Statechart.Proofs.Appending
import Statechart.Proofs.Fallback
import Statechart.Proofs.FirstMention
import Statechart.Proofs.Repetition
import Statechart.Proofs.Tree

namespace Statechart

namespace Bindings

variable {bs : List Binding} {e : Binding} {name : String} {n : Nat}

theorem lookup_top_iff (hk : (bs.map Binding.key).Nodup) :
    lookup bs [] name = .ok (some e) ↔ e ∈ bs ∧ e.name = name ∧
      (e.place = [] ∨ ∀ k ∈ bs.map Binding.key, k.2 = name → k = e.key) := by
  constructor
  · intro h
    obtain ⟨he, rfl, -, hnear⟩ := lookup_some h
    refine ⟨he, rfl, hnear.imp (fun hn => List.suffix_nil.1 hn.1) ?_⟩
    rintro ⟨-, hnone⟩ ⟨q, x⟩ hq rfl
    have hreached : Reached (bs.map Binding.key) [] e.name q := ⟨hq, .inr ⟨List.nil_suffix, hnone⟩⟩
    exact Prod.ext (hreached.place_eq h).symm rfl
  · rintro ⟨he, rfl, hnear⟩
    have hout : Place.outward [] = [[]] := rfl
    rw [lookup, hout, List.findSome?_cons, List.findSome?_nil]
    cases hf : find? bs [] e.name with
    | some d =>
      obtain ⟨hd, hdk⟩ := find?_eq_some hf
      have hkey : d.key = e.key := hnear.elim (fun hp => hdk.trans (Prod.ext hp.symm rfl))
        fun hone => hone _ (List.mem_map_of_mem hd) (congrArg Prod.snd hdk)
      rw [List.inj_on_of_nodup_map hk hd he hkey]
    | none =>
      have hplace : e.place ≠ [] := fun hp =>
        find?_eq_none.1 hf (List.mem_map.2 ⟨e, he, Prod.ext hp rfl⟩)
      have hone := hnear.resolve_left hplace
      have hinside : inside bs [] e.name = [e] := by
        rw [← filter_key_eq hk he]
        refine List.filter_congr fun d hd => ?_
        have hiff : d.name = e.name ↔ d.key = e.key :=
          ⟨hone d.key (List.mem_map_of_mem hd), congrArg Prod.snd⟩
        simp [Place.within, Place.mem_outward_iff, hiff]
      simp only [hinside]

theorem lookup_top_of_keys {bs' : List Binding} (hk : (bs.map Binding.key).Nodup)
    (hkeys : bs'.map Binding.key = bs.map Binding.key) (h : lookup bs [] name = .ok (some e)) :
    ∃ d, lookup bs' [] name = .ok (some d) ∧ d.id = e.id := by
  obtain ⟨he, rfl, hnear⟩ := (lookup_top_iff hk).1 h
  obtain ⟨d, hd, hde⟩ := List.mem_map.1 (hkeys ▸ List.mem_map_of_mem he)
  obtain ⟨hplace, hname⟩ := Prod.mk.inj hde
  refine ⟨d, (lookup_top_iff (hkeys ▸ hk)).2 ⟨hd, hname, ?_⟩, congrArg keyId hde⟩
  rwa [hplace, hkeys, hde]

theorem mention_of_le (h : ∀ d ∈ bs, d.line ≤ n) (e : Binding) : mention bs e n = bs := by
  refine (List.map_congr_left fun d hd => ?_).trans (List.map_id' bs)
  have hseen : d.seenAt n = d := by
    rw [Binding.seenAt, min_eq_left (h d hd)]
  rw [hseen, ite_self]

end Bindings

inductive Said (id : NodeId) : List Remark → List Note → Prop
  | nothing : Said id [] []
  | remark (r : Remark) (hr : r.state = id) : Said id [r] []
  | note (n : Note) (hn : n.state = id) (h : History.mentions n.text = []) : Said id [] [n]

namespace Resolution

variable {r r' s t : Resolution} {ref : Place × Located Clause} {c : Located Clause} {e : Binding}
  {name : String}

def remarking (remarks : List Remark) (r : Resolution) : Resolution :=
  { r with remarks := r.remarks ++ remarks }

theorem keys_stepNote (h : stepNote r ref = .ok r') :
    r'.bindings.map Binding.key = r.bindings.map Binding.key := by
  rcases stepNote_eq_ok.1 h with ⟨-, rfl⟩ | ⟨_, _, _, e, -, -, rfl⟩
  · rfl
  · exact Bindings.map_key_mention ..

theorem lines_stepNote {n : Nat} (h : stepNote r ref = .ok r') (hr : ∀ d ∈ r.bindings, d.line ≤ n) :
    ∀ d ∈ r'.bindings, d.line ≤ n := by
  rcases stepNote_eq_ok.1 h with ⟨-, rfl⟩ | ⟨_, _, _, e, -, -, rfl⟩
  · exact hr
  · intro d hd
    obtain ⟨d', hd', ⟨-, rfl⟩ | ⟨-, rfl⟩⟩ := Bindings.mem_update.1 hd
    · exact (min_le_left ..).trans (hr d' hd')
    · exact hr d hd'

theorem stepNote_remarking (remarks : List Remark) (h : stepNote r ref = .ok r') :
    stepNote (r.remarking remarks) ref = .ok (r'.remarking remarks) := by
  rcases stepNote_eq_ok.1 h with ⟨hi, rfl⟩ | ⟨name, side, text, e, hi, he, rfl⟩
  · exact stepNote_eq_ok.2 (.inl ⟨hi, rfl⟩)
  · exact stepNote_eq_ok.2 (.inr ⟨name, side, text, e, hi, he, rfl⟩)

theorem foldlM_stepNote_remarking {refs : List (Place × Located Clause)} (remarks : List Remark)
    (h : refs.foldlM stepNote r = .ok r') :
    refs.foldlM stepNote (r.remarking remarks) = .ok (r'.remarking remarks) := by
  have hrun := foldlM_map_ok (φ := remarking remarks) (g := id) (fun _ => True)
    (fun ref _ r r' hr _ => ⟨trivial, stepNote_remarking remarks hr⟩) h trivial
  rw [List.map_id] at hrun
  exact hrun.2

def more (remarks : List Remark) (notes : List Note) (r : Resolution) : Resolution :=
  { r with
    remarks := r.remarks ++ remarks
    notes := r.notes ++ notes }

theorem step_description {n : Nat} (hl : Bindings.lookup r.bindings [] name = .ok (some e))
    (hr : ∀ d ∈ r.bindings, d.line ≤ n) (text source : String) :
    ∃ x : Remark, x.state = e.id ∧
      step r ([], ⟨.description name text, n, source⟩) = .ok (r.remarking [x]) := by
  have hrefer : Bindings.refer r.bindings [] name ⟨.description name text, n, source⟩ =
      .ok (r.bindings, e.id) := by
    simp only [Bindings.refer, hl, Bindings.mention_of_le hr]
  simp only [step, addDescription, hrefer]
  exact ⟨_, rfl, rfl⟩

theorem stepNote_note {n : Nat} (hl : Bindings.lookup r.bindings [] name = .ok (some e))
    (hr : ∀ d ∈ r.bindings, d.line ≤ n) (side : NoteSide) (text source : String) :
    stepNote r ([], ⟨.note name side text, n, source⟩) =
      .ok (r.more [] [⟨e.id, side, text, n, source⟩]) := by
  simp only [stepNote, hl, Bindings.mention_of_le hr]
  simp [more]

theorem ofRegistry_refer {r : Registry} (hs : ofRegistry r = .ok s)
    (hc : Clause.Decorates name c.item)
    (hlines : ∀ t, r.references.foldlM step (start r.bindings) = .ok t →
      ∀ d ∈ t.bindings, d.line ≤ c.line)
    (hk : (s.bindings.map Binding.key).Nodup)
    (hl : Bindings.lookup s.bindings [] name = .ok (some e)) :
    ∃ remarks notes, ofRegistry (r.refer c) = .ok (s.more remarks notes) ∧
      Said e.id remarks notes := by
  obtain ⟨t, ht, hs⟩ := ofRegistry_ok.1 hs
  have hkeys : s.bindings.map Binding.key = t.bindings.map Binding.key :=
    foldlM_invariant (fun _ u => u.bindings.map Binding.key = t.bindings.map Binding.key)
      (fun _ _ _ _ _ hu hstep => (keys_stepNote hstep).trans hu) rfl hs
  have hlast : ∀ d ∈ s.bindings, d.line ≤ c.line :=
    foldlM_invariant (fun _ u => ∀ d ∈ u.bindings, d.line ≤ c.line)
      (fun _ _ _ _ _ hu hstep => lines_stepNote hstep hu) (hlines t ht) hs
  obtain ⟨item, n, source⟩ := c
  cases hc with
  | description text =>
    obtain ⟨d, hd, hid⟩ := Bindings.lookup_top_of_keys hk hkeys.symm hl
    obtain ⟨x, hx, hstep⟩ := step_description hd (hlines t ht) text source
    have hnotes := foldlM_stepNote_remarking [x] hs
    refine ⟨[x], [], ofRegistry_ok.2 ⟨_, foldlM_concat_ok ht hstep, foldlM_concat_ok hnotes ?_⟩, ?_⟩
    · simp [stepNote, more, remarking]
    · exact .remark x (hx.trans hid)
  | note side text hplain =>
    have hstep : step t ([], ⟨.note name side text, n, source⟩) = .ok t := rfl
    have hnote := stepNote_note hl hlast side text source
    refine ⟨[], _, ofRegistry_ok.2 ⟨t, foldlM_concat_ok ht hstep, foldlM_concat_ok hs hnote⟩, ?_⟩
    exact .note _ rfl hplain

theorem line_le_of_step {b : Block} {r : Registry} {n : Nat} (hr : Registry.ofBlock b = .ok r)
    (hn : ∀ k ∈ (entriesOf [] b).filterMap Entry.line?, k ≤ n)
    (ht : r.references.foldlM step (start r.bindings) = .ok t) : ∀ d ∈ t.bindings, d.line ≤ n := by
  have hempty : Meaning.Fits (fun _ _ => none) r.bindings := by
    intro p x q hq
    cases hq
  obtain ⟨m, -, -, -, htold⟩ := foldlM_step_told hempty ht
  have htraced := (htold m.home fun _ _ _ hq => Meaning.home_eq hq).traced _
    (Registry.traced_ofBlock hr)
  rw [(registered_ofBlock hr).references] at htraced
  intro d hd
  have hmention : (d.key, d.line) ∈ trace m.home (entriesOf [] b) :=
    List.mem_append_left _ (htraced.first d hd).1
  obtain ⟨x, hx, hxd⟩ := List.mem_flatMap.1 (mem_trace_iff.1 (List.mem_map_of_mem hmention))
  exact hn _ (List.mem_filterMap.2 ⟨x, hx, line?_of_mem_mentions hxd⟩)

end Resolution

/-- The state that a name means at the top level: the one that stands there, or else the only one of
    that name. A history state, which the text has no name for, is not among them. -/
structure Means (ss : List State) (name : String) (s : State) : Prop where
  mem : s ∈ ss
  named : s.name = name
  declared : s.kind ≠ .history
  nearest : s.parent = none ∨ ∀ u ∈ ss, u.kind ≠ .history → u.name = name → u = s

namespace Means

variable {ss added : List State} {bs : List Binding} {name : String} {s : State}

theorem of_append (h : Means (ss ++ added) name s) (ha : ∀ u ∈ added, u.kind = .history) :
    Means ss name s := by
  refine ⟨?_, h.named, h.declared, h.nearest.imp_right fun hone u hu => ?_⟩
  · exact (List.mem_append.1 h.mem).resolve_right fun hs => h.declared (ha s hs)
  · exact hone u (List.mem_append_left _ hu)

theorem place_of_owner? {p : Place} (h : p.owner? = none) : p = [] := by
  cases p with
  | nil => rfl
  | cons e p => cases e <;> cases h

theorem exists_lookup (h : Means ((Bindings.sortByLine bs).map Binding.toState) name s)
    (hd : (bs.map Binding.id).Nodup) (hl : ∀ e ∈ bs, e.kind ≠ .history) :
    ∃ e, Bindings.lookup bs [] name = .ok (some e) ∧ e.id = s.id := by
  have hmem : ∀ {e}, e ∈ Bindings.sortByLine bs ↔ e ∈ bs := (Bindings.sortByLine_perm bs).mem_iff
  have hkeys : (bs.map Binding.key).Nodup := by
    have hids : ((bs.map Binding.key).map keyId).Nodup := by
      rw [List.map_map]
      exact hd
    exact hids.of_map
  obtain ⟨e, he, rfl⟩ := List.mem_map.1 h.mem
  have he := hmem.1 he
  refine ⟨e, (Bindings.lookup_top_iff hkeys).2 ⟨he, h.named, ?_⟩, rfl⟩
  refine h.nearest.imp place_of_owner? fun hone k hk hname => ?_
  obtain ⟨d, hdm, rfl⟩ := List.mem_map.1 hk
  have hstate := hone d.toState (List.mem_map_of_mem (hmem.2 hdm)) (hl d hdm) hname
  rw [List.inj_on_of_nodup_map hd hdm he (congrArg State.id hstate)]

end Means

def FlatChart.more (remarks : List Remark) (notes : List Note) (f : FlatChart) : FlatChart :=
  { f with
    remarks := f.remarks ++ remarks
    notes := f.notes ++ notes }

theorem FlatChart.ofText_added {input other line name : String} {f : FlatChart} {s : State}
    (hf : FlatChart.ofText input = .ok f) (hs : Means f.states name s)
    (hd : Decoration name line) (ha : Text.LineAdded line input other) :
    ∃ remarks notes, FlatChart.ofText other = .ok (f.more remarks notes) ∧
      Said s.id remarks notes := by
  obtain ⟨es, t, hes, ht, hblocks⟩ := ofText_ok hf
  obtain ⟨home, hdrawn⟩ := drawn_ofBlocks (wellNamed_of_text hes ht) hblocks
  have hname : IsName name := hs.named ▸ hdrawn.isName s hs.mem
  rcases hd.scan hname ha hes with hother | ⟨c, n, hc, hbefore, hother⟩
  · -- the line is taken for a header
    have hsame : f.more [] [] = f := by simp [FlatChart.more]
    refine ⟨[], [], ?_, .nothing⟩
    rw [hsame]
    exact bind_ok.2 ⟨es, hother, bind_ok.2 ⟨t, ht, hblocks⟩⟩
  · obtain ⟨r, u, hr, hu, rfl⟩ := FlatChart.ofBlocks_ok.1 hblocks
    have hcharted := charted_ofRegistry (registered_ofBlock hr) hu
    have hids : (u.bindings.map Binding.id).Nodup := by
      have hdistinct := hdrawn.wellNested.distinct
      rw [List.map_map] at hdistinct
      exact ((Bindings.sortByLine_perm u.bindings).map Binding.id).nodup_iff.1 hdistinct
    obtain ⟨e, he, hid⟩ := hs.exists_lookup hids hcharted.leaf
    -- every state is mentioned before the line, so that the line moves none of them
    have hlines : ∀ k ∈ (entriesOf [] t.body).filterMap Entry.line?, k ≤ n := by
      rw [BlockTree.filterMap_line?_entriesOf]
      intro k hk
      obtain ⟨d, hd, rfl⟩ := List.mem_map.1 ((BlockTree.linesOf_sublist_of_ofEvents ht).subset hk)
      exact (hbefore d hd).le
    obtain ⟨remarks, notes, hmore, hsaid⟩ := Resolution.ofRegistry_refer
      (c := ⟨c, n, Text.trimmed line⟩) hu hc (fun _ => Resolution.line_le_of_step hr hlines)
      hcharted.keys he
    refine ⟨remarks, notes, ?_, hid ▸ hsaid⟩
    exact bind_ok.2 ⟨_, hother, bind_ok.2 ⟨_, BlockTree.ofEvents_concat ht c n _,
      FlatChart.ofBlocks_ok.2 ⟨_, _, Registry.ofBlock_concat hr hc, hmore, rfl⟩⟩⟩

namespace History

theorem tasksOf_of_plain {n : Note} (h : mentions n.text = []) :
    tasksOf n = [.review n, .keep n] := by
  rw [tasksOf, phrases_eq_nil h]
  rfl

theorem carryOut_concat {ss : List State} {ts : List Transition} {ns : List Note} {n : Note}
    {o : Outcome} (h : carryOut ss ts ns = .ok o) (hn : mentions n.text = []) :
    carryOut ss ts (ns ++ [n]) = .ok { o with remarks := o.remarks ++ remarksOf n } := by
  have hreview : step o (.review n) = .ok o := by
    simp [step, isVague_eq_false hn]
  have htasks : (ns ++ [n]).flatMap tasksOf = ns.flatMap tasksOf ++ [.review n] ++ [.keep n] := by
    simp [tasksOf_of_plain hn]
  rw [carryOut, htasks]
  exact foldlM_concat_ok (foldlM_concat_ok h hreview) rfl

end History

theorem FlatChart.withHistory_more {f g : FlatChart} {id : NodeId} {remarks : List Remark}
    {notes : List Note} (hg : f.withHistory = .ok g) (hs : Said id remarks notes) :
    ∃ before new after, g.remarks = before ++ after ∧ (∀ r ∈ new, r.state = id) ∧
      (f.more remarks notes).withHistory = .ok { g with
        remarks := before ++ new ++ after
        notes := g.notes ++ notes } := by
  obtain ⟨o, ho, rfl⟩ := withHistory_ok hg
  cases hs with
  | nothing =>
    refine ⟨_, [], [], (List.append_nil _).symm, by simp, ?_⟩
    simp [withHistory, more, ho, withOutcome]
  | remark r hr =>
    refine ⟨f.remarks, [r], o.remarks, rfl, by simp [hr], ?_⟩
    simp [withHistory, more, ho, withOutcome]
  | note n hn hplain =>
    refine ⟨_, History.remarksOf n, [], (List.append_nil _).symm,
      fun r hr => (History.state_of_mem_remarksOf hr).trans hn, ?_⟩
    simp [withHistory, more, History.carryOut_concat ho hplain, withOutcome]

theorem Rules.enforce_remarks {f : FlatChart} {fallback : Fallback} {c : Chart} (h : f.Sound)
    (hc : enforce fallback f = .ok c) (remarks : List Remark) (notes : List Note) :
    enforce fallback { f with
      remarks := remarks
      notes := notes } = .ok { c with remarks := remarks } := by
  obtain ⟨top, regions, choice, roots, ht, hm, hch, hr, rfl⟩ := (enforce_eq_ok h).1 hc
  have hsound : FlatChart.Sound { f with
      remarks := remarks
      notes := notes } :=
    ⟨h.nested, h.names, h.initials, h.sources, h.targets, h.histories, h.outside, h.finals⟩
  exact (enforce_eq_ok hsound).2 ⟨top, regions, choice, roots, ht, hm, hch, hr, rfl⟩

namespace Outline

variable (c : Chart) (remarks : List Remark)

mutual

theorem nodeLines_remarks (depth : Nat) (initial : Bool) : ∀ n : Node,
    nodeLines { c with remarks := remarks } depth initial n = nodeLines c depth initial n
  | .simple _ _ | .history _ _ => rfl
  | .composite _ _ start ns => by rw [nodeLines, nodeLines, nodesLines_remarks _ start ns]
  | .concurrent _ _ ns => by rw [nodeLines, nodeLines, nodesLines_remarks _ none ns]
  | .region _ _ start ns => by rw [nodeLines, nodeLines, nodesLines_remarks _ start ns]

theorem nodesLines_remarks (depth : Nat) (start : Option NodeId) : ∀ ns : List Node,
    nodesLines { c with remarks := remarks } depth start ns = nodesLines c depth start ns
  | [] => rfl
  | n :: ns => by
    rw [nodesLines, nodesLines, nodeLines_remarks depth _ n, nodesLines_remarks depth start ns]

end

theorem render_remarks : render { c with remarks := remarks } = render c := by
  rw [render, nodesLines_remarks]
  rfl

end Outline

structure Chart.Adorned (id : NodeId) (c c' : Chart) : Prop where
  same : c' = { c with remarks := c'.remarks }
  remarks : ∃ before new after, c.remarks = before ++ after ∧ c'.remarks = before ++ new ++ after ∧
    ∀ r ∈ new, r.state = id
  config : Config.ofChart c' = Config.ofChart c
  table : Table.rows c' = Table.rows c
  outline : Outline.render c' = Outline.render c

theorem Chart.adorned_of_parse {fallback : Fallback} {input other line name : String} {c : Chart}
    {s : State} (h : Chart.parse fallback input = .ok c) (hs : Means c.states name s)
    (hd : Decoration name line) (ha : Text.LineAdded line input other) :
    ∃ c', Chart.parse fallback other = .ok c' ∧ Chart.Adorned s.id c c' := by
  obtain ⟨f, g, hf, hg, hc⟩ := stages_of_parse h
  have hsound := FlatChart.sound_of_ofText hf
  have hfull := hsound.withHistory hg
  have hmeans : Means f.states name s := by
    obtain ⟨o, ho, rfl⟩ := withHistory_ok hg
    rw [(assembled_of_enforce hfull hc).states] at hs
    change Means o.states name s at hs
    rw [hsound.states_eq ho] at hs
    exact hs.of_append fun u hu => (History.mem_newcomers hu).1
  obtain ⟨remarks, notes, hf', hsaid⟩ := FlatChart.ofText_added hf hmeans hd ha
  obtain ⟨before, new, after, hremarks, hnew, hg'⟩ := FlatChart.withHistory_more hg hsaid
  refine ⟨_, parse_of_stages hf' hg' (Rules.enforce_remarks hfull hc _ _), rfl,
    ⟨before, new, after, ?_, rfl, hnew⟩, rfl, rfl, Outline.render_remarks c _⟩
  obtain ⟨top, regions, choice, roots, -, -, -, -, rfl⟩ := Rules.enforce_ok hfull hc
  exact hremarks

namespace Sample

def off : State :=
  ⟨"Off", ⟨"Off"⟩, none, none, .simple, none, 2⟩

def described : String :=
  "Off" ++ " " ++ ":" ++ " returns to On history"

def noted : String :=
  "note" ++ " " ++ NoteSide.right.word ++ " " ++ "of" ++ " " ++ "Off" ++ " " ++ ":" ++
    " exit / returns to On histories"

end Sample

open Sample in
theorem Chart.adorned_sample : Chart.parse .firstChild text = .ok chart ∧
    Means chart.states "Off" off ∧ Decoration "Off" described ∧ Decoration "Off" noted ∧
    (∃ c', Chart.parse .firstChild (text ++ "\n" ++ described) = .ok c' ∧
      Chart.Adorned off.id chart c') ∧
    ∃ c', Chart.parse .firstChild (text ++ "\n" ++ noted) = .ok c' ∧
      Chart.Adorned off.id chart c' := by
  have hmeans : Means chart.states "Off" off := ⟨by decide, rfl, by decide, .inl rfl⟩
  have hspace : ∀ c ∈ " ".toList, Reader.isSpace c := by simp [Reader.isSpace]
  have hgap : Statement.IsGap " ".toList := ⟨by simp, hspace⟩
  have hdescribed : Decoration "Off" described := .description " " _ hspace (by simp [OneLine])
  have hnoted : Decoration "Off" noted :=
    .note .right " " " " " " " " _ hgap hgap hgap hspace (by simp [OneLine]) (by decide +kernel)
  exact ⟨parse_text, hmeans, hdescribed, hnoted,
    Chart.adorned_of_parse parse_text hmeans hdescribed (.breaking text),
    Chart.adorned_of_parse parse_text hmeans hnoted (.breaking text)⟩

end Statechart
