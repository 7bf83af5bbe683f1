import Mathlib
import Statechart.Proofs.Admission
import Statechart.Proofs.Descent

/-!
Which of several composites a note can mean by one name: those whose scope is around the note's
state, those in the note's state itself, and, where the way up leads through a concurrent state,
those in its other regions too.
-/

namespace Statechart.History

open Nesting

variable {ss : List State} {slots : List RegionSlot} {s t u w : State} {n : Note} {name : String}
  {sc : Scope} {a p : NodeId}

def Holds (ss : List State) (sc : Scope) (u : State) : Prop :=
  ∃ t, Encloses ss t u ∧ t.scope = sc

def Shares (ss : List State) (t u : State) : Prop :=
  Holds ss t.scope u ∨ t.parent = some u.id

def Beside (ss : List State) (t u : State) : Prop :=
  ∃ p j k, t.scope = .region p k ∧ Holds ss (.region p j) u ∧ j ≠ k

def bearers (ss : List State) (name : String) : List State :=
  ss.filter fun s => s.name = name && s.kind.nests

def grant (n : Note) (s : State) : Except HistoryCause NodeId :=
  if s.kind = .concurrent then .error (.concurrent s.id)
  else if n.state.inside s.id then .error (.noteInside n.state s.id)
  else .ok s.id

theorem mem_bearers : s ∈ bearers ss name ↔ s ∈ ss ∧ s.name = name ∧ s.kind.nests := by
  simp [bearers]

theorem filter_named (hname : '/' ∉ name.toList) :
    (named ss name).filter (fun s => s.kind.nests) = bearers ss name := by
  rw [named, List.filter_filter, bearers]
  refine List.filter_congr fun s _ => ?_
  cases s.kind <;> simp [names, hname, StateKind.nests]

theorem composite_of_choose (h : choose ss n name = .ok s) : composite ss n name = grant n s := by
  simp only [composite, h, grant]

theorem choose_eq_severalStates (h : 2 ≤ ((named ss name).filter fun t => t.kind.nests).length)
    (hmany : ∀ s, ((named ss name).filter fun t => t.kind.nests).filter (isVisibleFrom n) ≠ [s]) :
    choose ss n name =
      .error (.severalStates name (((named ss name).filter fun t => t.kind.nests).map State.id)) := by
  unfold choose
  rcases hnamed : named ss name with _ | ⟨v, vs⟩
  · simp [hnamed] at h
  · rw [hnamed] at h hmany
    rcases hnests : (v :: vs).filter (fun t => t.kind.nests) with _ | ⟨t, _ | ⟨w, rest⟩⟩
    · simp [hnests] at h
    · simp [hnests] at h
    · rw [hnests] at hmany
      simp only [hnests]

theorem parent_eq_of_scope (h : s.scope = t.scope) : s.parent = t.parent := by
  cases ht : t.scope with
  | top => rw [scope_eq_top.1 ht, scope_eq_top.1 (h.trans ht)]
  | composite p => rw [(scope_eq_composite.1 ht).1, (scope_eq_composite.1 (h.trans ht)).1]
  | region p k => rw [(scope_eq_region.1 ht).1, (scope_eq_region.1 (h.trans ht)).1]

theorem inside_of_holds (h : WellNested ss slots) (hu : u ∈ ss) (hsc : Holds ss sc u)
    (ha : sc.id? = some a) : u.id.inside a := by
  obtain ⟨t, ht, rfl⟩ := hsc
  exact (h.inside_iff_encloses hu).2 ⟨t, ht, .inl ha⟩

theorem inside_of_beside (h : WellNested ss slots) (hu : u ∈ ss) (hb : Beside ss t u) :
    ∃ p, t.parent = some p ∧ u.id.inside p := by
  obtain ⟨p, j, k, htp, ⟨w, hw, hwp⟩, -⟩ := hb
  exact ⟨p, (scope_eq_region.1 htp).1,
    (h.inside_iff_encloses hu).2 ⟨w, hw, .inr (scope_eq_region.1 hwp).1⟩⟩

theorem not_shares (h : WellNested ss slots) (hu : u ∈ ss) (ha : t.scope.id? = some a)
    (hout : u.id.inside a = false) (hp : t.parent ≠ some u.id) : ¬Shares ss t u := by
  rintro (hscope | hown)
  · simp [inside_of_holds h hu hscope ha] at hout
  · exact hp hown

theorem not_beside (h : WellNested ss slots) (hu : u ∈ ss) (hp : t.parent = some p)
    (hout : u.id.inside p = false) : ¬Beside ss t u := by
  intro hb
  obtain ⟨q, hq, hin⟩ := inside_of_beside h hu hb
  obtain rfl : p = q := Option.some.inj (hp.symm.trans hq)
  simp [hin] at hout

theorem scope_of_siblings (h : WellNested ss slots) (hs : s ∈ ss) (ht : t ∈ ss)
    (hp : s.parent = some p) (hq : t.parent = some p) :
    s.scope = t.scope ∨ ∃ j k, s.scope = .region p j ∧ t.scope = .region p k ∧ j ≠ k := by
  have hkind : ∀ {s t : State}, s ∈ ss → t ∈ ss → ∀ k, s.scope = .composite p →
      t.scope ≠ .region p k := by
    intro s t hs ht k hsp htp
    obtain ⟨v, hv, hvid, hvk⟩ := h.composite s hs p hsp
    obtain ⟨r, hr, rfl, -⟩ := h.region t ht p k htp
    obtain ⟨w, hw, hwid, hwk⟩ := (h.owner r hr).2
    rw [List.inj_on_of_nodup_map h.distinct hv hw (hvid.trans hwid.symm), hwk] at hvk
    cases hvk
  have hscope : ∀ {s : State}, s.parent = some p →
      s.scope = .composite p ∨ ∃ k, s.scope = .region p k := by
    intro s hp
    cases hr : s.region with
    | none => exact .inl (scope_eq_composite.2 ⟨hp, hr⟩)
    | some k => exact .inr ⟨k, scope_eq_region.2 ⟨hp, hr⟩⟩
  rcases hscope hp with hsp | ⟨j, hsp⟩ <;> rcases hscope hq with htp | ⟨k, htp⟩
  · exact .inl (hsp.trans htp.symm)
  · exact absurd htp (hkind hs ht k hsp)
  · exact absurd hsp (hkind ht hs j htp)
  · by_cases hjk : j = k
    · exact .inl (by rw [hsp, htp, hjk])
    · exact .inr ⟨j, k, hsp, htp, hjk⟩

theorem inside_iff_child (h : WellNested ss slots) (hu : u ∈ ss) (ht : t ∈ ss)
    (hp : t.parent = some p) : u.id.inside p ↔ ∃ w, Encloses ss w u ∧ w.parent = some p := by
  obtain ⟨v, hv, rfl⟩ := h.exists_upward ht hp
  rw [h.inside_iff_transGen hu hv.2.1, Relation.TransGen.tail'_iff]
  refine exists_congr fun w => and_congr_right fun hw => ?_
  exact ⟨fun hup => hup.2.2, fun hwp => ⟨mem_of_encloses hu hw, hv.2.1, hwp⟩⟩

theorem isVisibleFrom_iff (h : WellNested ss slots) (ht : t ∈ ss) (hu : u ∈ ss)
    (hn : n.state = u.id) : isVisibleFrom n t ↔ Shares ss t u ∨ Beside ss t u := by
  cases hp : t.parent with
  | none =>
    obtain ⟨r, hr⟩ := h.treelike.ranked
    obtain ⟨root, -, hroot, he⟩ := exists_root h.treelike.rooted hr hu
    have hholds : Holds ss t.scope u :=
      ⟨root, he, (scope_eq_top.2 hroot).trans (scope_eq_top.2 hp).symm⟩
    simp [isVisibleFrom, hp, Shares, hholds]
  | some p =>
    have hvis : isVisibleFrom n t ↔ u.id = p ∨ u.id.inside p := by simp [isVisibleFrom, hp, hn]
    rw [hvis, inside_iff_child h hu ht hp]
    constructor
    · rintro (rfl | ⟨w, hw, hwp⟩)
      · exact .inl (.inr hp)
      · rcases scope_of_siblings h (mem_of_encloses hu hw) ht hwp hp with hsame | ⟨j, k, hj, hk, hne⟩
        · exact .inl (.inl ⟨w, hw, hsame⟩)
        · exact .inr ⟨p, j, k, hk, ⟨w, hw, hj⟩, hne⟩
    · rintro ((⟨w, hw, hsc⟩ | hown) | ⟨q, j, k, hk, ⟨w, hw, hj⟩, -⟩)
      · exact .inr ⟨w, hw, (parent_eq_of_scope hsc).trans hp⟩
      · exact .inl (Option.some.inj (hown.symm.trans hp))
      · refine .inr ⟨w, hw, ?_⟩
        rw [← hp, (scope_eq_region.1 hk).1, (scope_eq_region.1 hj).1]

theorem eq_singleton_of_sole {l : List State} (hd : l.Nodup) (hs : s ∈ l)
    (hone : ∀ t ∈ l, t = s) : l = [s] :=
  List.perm_singleton.1 ((List.perm_ext_iff_of_nodup hd (List.nodup_singleton s)).2 fun t =>
    ⟨fun ht => List.mem_singleton.2 (hone t ht), fun ht => List.mem_singleton.1 ht ▸ hs⟩)

theorem nodup_bearers (hd : (ss.map State.id).Nodup) (name : String) : (bearers ss name).Nodup :=
  (List.Nodup.of_map _ hd).filter _

theorem choose_eq_of_sole (hd : (ss.map State.id).Nodup) (hname : '/' ∉ name.toList)
    (hs : s ∈ bearers ss name) (hvis : isVisibleFrom n s)
    (hone : ∀ t ∈ bearers ss name, isVisibleFrom n t → t = s) : choose ss n name = .ok s := by
  have hvisible : (bearers ss name).filter (isVisibleFrom n) = [s] := by
    refine eq_singleton_of_sole ((nodup_bearers hd name).filter _) (List.mem_filter.2 ⟨hs, hvis⟩) ?_
    intro t ht
    exact hone t (List.mem_filter.1 ht).1 (List.mem_filter.1 ht).2
  rw [choose_eq_ok, filter_named hname]
  rcases hb : bearers ss name with _ | ⟨t, _ | ⟨v, rest⟩⟩
  · simp [hb] at hs
  · obtain rfl : s = t := by simpa [hb] using hs
    exact .inl rfl
  · exact .inr ⟨by simp, hb ▸ hvisible⟩

theorem choose_eq_error_of_two (hname : '/' ∉ name.toList) (hs : s ∈ bearers ss name)
    (ht : t ∈ bearers ss name) (hne : t ≠ s) (hvs : isVisibleFrom n s) (hvt : isVisibleFrom n t) :
    choose ss n name = .error (.severalStates name ((bearers ss name).map State.id)) := by
  have htwo : ∀ {l : List State}, s ∈ l → t ∈ l → 2 ≤ l.length ∧ ∀ v, l ≠ [v] := by
    intro l hsl htl
    rcases l with _ | ⟨a, _ | ⟨b, rest⟩⟩
    · cases hsl
    · exact absurd ((List.mem_singleton.1 htl).trans (List.mem_singleton.1 hsl).symm) hne
    · simp
  rw [← filter_named hname] at hs ht ⊢
  exact choose_eq_severalStates (htwo hs ht).1
    (htwo (List.mem_filter.2 ⟨hs, hvs⟩) (List.mem_filter.2 ⟨ht, hvt⟩)).2

theorem composite_of_foldlM {tasks : List Task} {ts : List Transition} {o : Outcome}
    (hd : (ss.map State.id).Nodup) (h : tasks.foldlM step (start ss ts) = .ok o) :
    composite o.states n name = composite ss n name := by
  obtain ⟨hrun, -⟩ := run_ok hd (List.append_nil ss).symm (by simp) h
  rw [hrun.states]
  exact composite_append fun s hs => (mem_newcomers hs).1

end Statechart.History

namespace Statechart

open History

theorem FlatChart.meant_of_text {input : String} {f : FlatChart}
    (h : FlatChart.ofText input = .ok f) {n : Note} (hn : n ∈ f.notes) :
    ∃ u ∈ f.states, u.id = n.state ∧ ∀ (tasks : List Task) (o : Outcome),
      tasks.foldlM History.step (History.start f.states f.transitions) = .ok o →
      ∀ name, '/' ∉ name.toList → ∀ s ∈ bearers f.states name, Shares f.states s u →
        ((∀ t ∈ bearers f.states name, t ≠ s →
            ¬Shares f.states t u ∧ ¬Beside f.states t u) →
          composite o.states n name = grant n s) ∧
        ∀ t ∈ bearers f.states name, t ≠ s → Shares f.states t u ∨ Beside f.states t u →
          composite o.states n name =
            .error (.severalStates name ((bearers f.states name).map State.id)) := by
  obtain ⟨es, tree, hes, htree, hf⟩ := ofText_ok h
  obtain ⟨home, hdrawn⟩ := drawn_ofBlocks (wellNamed_of_text hes htree) hf
  obtain ⟨u, hu, hid⟩ := hdrawn.exists_noted hn
  have hw := hdrawn.wellNested
  have hvisible : ∀ name, ∀ t ∈ bearers f.states name,
      (isVisibleFrom n t ↔ Shares f.states t u ∨ Beside f.states t u) :=
    fun name t ht => isVisibleFrom_iff hw (mem_bearers.1 ht).1 hu hid.symm
  refine ⟨u, hu, hid, fun tasks o ho name hname s hs hshares => ⟨fun hothers => ?_, ?_⟩⟩
  · rw [composite_of_foldlM hw.distinct ho]
    refine composite_of_choose (choose_eq_of_sole hw.distinct hname hs
      ((hvisible name s hs).2 (.inl hshares)) fun t ht hvis => ?_)
    by_contra hne
    obtain ⟨hout, hbeside⟩ := hothers t ht hne
    exact ((hvisible name t ht).1 hvis).elim hout hbeside
  · intro t ht hne hother
    have hchoose := choose_eq_error_of_two hname hs ht hne
      ((hvisible name s hs).2 (.inl hshares)) ((hvisible name t ht).2 hother)
    rw [composite_of_foldlM hw.distinct ho, composite, hchoose]

namespace Sample.Twins

/-- A text with three composites of one name, two of them in the regions of `P`. -/
def text : String :=
  "[*] --> P\nstate P \x7b\n[*] --> A\nA --> C\nstate C \x7b\n[*] --> X\n\x7d\n" ++
    "note right of A : returns to C history state\n--\n[*] --> B\nstate C \x7b\n[*] --> Y\n\x7d\n" ++
    "\x7d\nstate Q \x7b\n[*] --> D\nD --> C\nstate C \x7b\n[*] --> Z\n\x7d\n" ++
    "note right of D : returns to C history state\n\x7d"

def events : List (Located Event) :=
  [⟨.clause (.initial "P"), 1, "[*] --> P"⟩,
    ⟨.opening ⟨"P", none⟩, 2, "state P \x7b"⟩,
    ⟨.clause (.initial "A"), 3, "[*] --> A"⟩,
    ⟨.clause (.transition "A" "C" none), 4, "A --> C"⟩,
    ⟨.opening ⟨"C", none⟩, 5, "state C \x7b"⟩,
    ⟨.clause (.initial "X"), 6, "[*] --> X"⟩,
    ⟨.close, 7, "\x7d"⟩,
    ⟨.clause (.note "A" .right "returns to C history state"), 8,
      "note right of A : returns to C history state"⟩,
    ⟨.separator, 9, "--"⟩,
    ⟨.clause (.initial "B"), 10, "[*] --> B"⟩,
    ⟨.opening ⟨"C", none⟩, 11, "state C \x7b"⟩,
    ⟨.clause (.initial "Y"), 12, "[*] --> Y"⟩,
    ⟨.close, 13, "\x7d"⟩,
    ⟨.close, 14, "\x7d"⟩,
    ⟨.opening ⟨"Q", none⟩, 15, "state Q \x7b"⟩,
    ⟨.clause (.initial "D"), 16, "[*] --> D"⟩,
    ⟨.clause (.transition "D" "C" none), 17, "D --> C"⟩,
    ⟨.opening ⟨"C", none⟩, 18, "state C \x7b"⟩,
    ⟨.clause (.initial "Z"), 19, "[*] --> Z"⟩,
    ⟨.close, 20, "\x7d"⟩,
    ⟨.clause (.note "D" .right "returns to C history state"), 21,
      "note right of D : returns to C history state"⟩,
    ⟨.close, 22, "\x7d"⟩]

def tree : BlockTree where
  body :=
    [.clause ⟨.initial "P", 1, "[*] --> P"⟩,
      .composite ⟨⟨"P", none⟩, 2, "state P \x7b"⟩
        [.clause ⟨.initial "A", 3, "[*] --> A"⟩,
          .clause ⟨.transition "A" "C" none, 4, "A --> C"⟩,
          .composite ⟨⟨"C", none⟩, 5, "state C \x7b"⟩ [.clause ⟨.initial "X", 6, "[*] --> X"⟩] [],
          .clause ⟨.note "A" .right "returns to C history state", 8,
            "note right of A : returns to C history state"⟩]
        [[.clause ⟨.initial "B", 10, "[*] --> B"⟩,
          .composite ⟨⟨"C", none⟩, 11, "state C \x7b"⟩ [.clause ⟨.initial "Y", 12, "[*] --> Y"⟩] []]],
      .composite ⟨⟨"Q", none⟩, 15, "state Q \x7b"⟩
        [.clause ⟨.initial "D", 16, "[*] --> D"⟩,
          .clause ⟨.transition "D" "C" none, 17, "D --> C"⟩,
          .composite ⟨⟨"C", none⟩, 18, "state C \x7b"⟩ [.clause ⟨.initial "Z", 19, "[*] --> Z"⟩] [],
          .clause ⟨.note "D" .right "returns to C history state", 21,
            "note right of D : returns to C history state"⟩]
        []]
  direction := none

def first : State := ⟨"C", ⟨"P/region1/C"⟩, some ⟨"P"⟩, some 0, .composite, none, 4⟩

def second : State := ⟨"C", ⟨"P/region2/C"⟩, some ⟨"P"⟩, some 1, .composite, none, 11⟩

def third : State := ⟨"C", ⟨"Q/C"⟩, some ⟨"Q"⟩, none, .composite, none, 17⟩

def stateA : State := ⟨"A", ⟨"P/region1/A"⟩, some ⟨"P"⟩, some 0, .simple, none, 3⟩

def stateD : State := ⟨"D", ⟨"Q/D"⟩, some ⟨"Q"⟩, none, .simple, none, 16⟩

def noteA : Note where
  state := stateA.id
  side := .right
  text := "returns to C history state"
  line := 8
  source := "note right of A : returns to C history state"

def noteD : Note where
  state := stateD.id
  side := .right
  text := "returns to C history state"
  line := 21
  source := "note right of D : returns to C history state"

def flat : FlatChart where
  states :=
    [⟨"P", ⟨"P"⟩, none, none, .concurrent, none, 1⟩,
      stateA,
      first,
      ⟨"X", ⟨"P/region1/C/X"⟩, some ⟨"P/region1/C"⟩, none, .simple, none, 6⟩,
      ⟨"B", ⟨"P/region2/B"⟩, some ⟨"P"⟩, some 1, .simple, none, 10⟩,
      second,
      ⟨"Y", ⟨"P/region2/C/Y"⟩, some ⟨"P/region2/C"⟩, none, .simple, none, 12⟩,
      ⟨"Q", ⟨"Q"⟩, none, none, .composite, none, 15⟩,
      stateD,
      third,
      ⟨"Z", ⟨"Q/C/Z"⟩, some ⟨"Q/C"⟩, none, .simple, none, 19⟩]
  regions := [⟨⟨"P"⟩, 0, ⟨"P/region1"⟩⟩, ⟨⟨"P"⟩, 1, ⟨"P/region2"⟩⟩]
  transitions :=
    [⟨⟨"P/region1/A"⟩, ⟨"P/region1/C"⟩, .empty, 4⟩, ⟨⟨"Q/D"⟩, ⟨"Q/C"⟩, .empty, 17⟩]
  initials :=
    [⟨.top, ⟨"P"⟩, 1⟩, ⟨.region ⟨"P"⟩ 0, ⟨"P/region1/A"⟩, 3⟩,
      ⟨.composite ⟨"P/region1/C"⟩, ⟨"P/region1/C/X"⟩, 6⟩,
      ⟨.region ⟨"P"⟩ 1, ⟨"P/region2/B"⟩, 10⟩,
      ⟨.composite ⟨"P/region2/C"⟩, ⟨"P/region2/C/Y"⟩, 12⟩,
      ⟨.composite ⟨"Q"⟩, ⟨"Q/D"⟩, 16⟩, ⟨.composite ⟨"Q/C"⟩, ⟨"Q/C/Z"⟩, 19⟩]
  finals := []
  notes := [noteA, noteD]
  remarks := []
  direction := none

theorem lines_text : (Text.linesOf text).map Text.trimmed = events.map Located.text :=
  Text.map_trimmed_linesOf (by decide +kernel) (by decide +kernel) (by decide +kernel)

theorem scan_text : Event.scan text = .ok events := by
  rw [Event.scan, lines_text]
  exact Event.ofLines_of_reads rfl (by decide +kernel)

theorem ofText_text : FlatChart.ofText text = .ok flat :=
  bind_ok.2 ⟨_, scan_text, bind_ok.2 ⟨tree, rfl, by decide +kernel⟩⟩

theorem bearers_states : bearers flat.states "C" = [first, second, third] := by
  decide

theorem nested : WellNested flat.states flat.regions :=
  (FlatChart.sound_of_ofText ofText_text).nested

end Sample.Twins

theorem FlatChart.meant_in_own_scope : FlatChart.ofText Sample.Twins.text = .ok Sample.Twins.flat ∧
    Sample.Twins.noteD ∈ Sample.Twins.flat.notes ∧
    bearers Sample.Twins.flat.states "C" =
      [Sample.Twins.first, Sample.Twins.second, Sample.Twins.third] ∧
    composite Sample.Twins.flat.states Sample.Twins.noteD "C" = .ok Sample.Twins.third.id := by
  refine ⟨Sample.Twins.ofText_text, by decide, Sample.Twins.bearers_states, ?_⟩
  obtain ⟨u, hu, hid, hall⟩ := FlatChart.meant_of_text Sample.Twins.ofText_text
    (n := Sample.Twins.noteD) (by decide)
  have hD : Sample.Twins.stateD ∈ Sample.Twins.flat.states := by decide
  obtain rfl : u = Sample.Twins.stateD :=
    List.inj_on_of_nodup_map Sample.Twins.nested.distinct hu hD hid
  have hshares : Shares Sample.Twins.flat.states Sample.Twins.third Sample.Twins.stateD :=
    .inl ⟨Sample.Twins.stateD, .refl, rfl⟩
  refine (((hall [] _ rfl "C" (by decide) _ (by decide) hshares).1 ?_).trans (by decide))
  rw [Sample.Twins.bearers_states]
  intro t ht hne
  obtain rfl | rfl : t = Sample.Twins.first ∨ t = Sample.Twins.second := by simpa [hne] using ht
  all_goals exact ⟨not_shares Sample.Twins.nested hD rfl (by decide) (by decide),
    not_beside Sample.Twins.nested hD rfl (by decide)⟩

/-- In `P` the composite `C` of the first region is the only one that shares a scope with `A`, but
    the one of the second region counts as well. -/
theorem FlatChart.ambiguous_across_regions :
    FlatChart.ofText Sample.Twins.text = .ok Sample.Twins.flat ∧
    Sample.Twins.noteA ∈ Sample.Twins.flat.notes ∧
    Sample.Twins.stateA ∈ Sample.Twins.flat.states ∧
    Sample.Twins.stateA.id = Sample.Twins.noteA.state ∧
    Sample.Twins.first ∈ bearers Sample.Twins.flat.states "C" ∧
    Holds Sample.Twins.flat.states Sample.Twins.first.scope Sample.Twins.stateA ∧
    (∀ t ∈ bearers Sample.Twins.flat.states "C",
      Shares Sample.Twins.flat.states t Sample.Twins.stateA → t = Sample.Twins.first) ∧
    composite Sample.Twins.flat.states Sample.Twins.noteA "C" =
      .error (.severalStates "C" [⟨"P/region1/C"⟩, ⟨"P/region2/C"⟩, ⟨"Q/C"⟩]) := by
  have hA : Sample.Twins.stateA ∈ Sample.Twins.flat.states := by decide
  refine ⟨Sample.Twins.ofText_text, by decide, hA, rfl, by decide, ⟨_, .refl, rfl⟩, ?_, by decide⟩
  rw [Sample.Twins.bearers_states]
  intro t ht hshares
  by_contra hne
  obtain rfl | rfl : t = Sample.Twins.second ∨ t = Sample.Twins.third := by simpa [hne] using ht
  all_goals exact not_shares Sample.Twins.nested hA rfl (by decide) (by decide) hshares

end Statechart
