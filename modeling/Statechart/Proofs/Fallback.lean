import Mathlib
import Statechart.Proofs.WellFormed

namespace Statechart

namespace Rules

variable {f : FlatChart} {fallback : Fallback} {c : Chart} {s : State} {ss : List State}
  {ch ch' : Choice}

def default? (f : FlatChart) (s : State) : Option (NodeId × NodeId) :=
  if declaredIn f (.composite s.id) = [] then (firstChild? f s.id).map fun t => (s.id, t.id)
  else none

theorem fst_of_default? {d : NodeId × NodeId} (h : default? f s = some d) : d.1 = s.id := by
  unfold default? at h
  split at h
  · obtain ⟨t, -, rfl⟩ := Option.map_eq_some_iff.1 h
    rfl
  · cases h

theorem isSome_default? : (default? f s).isSome ↔
    declaredIn f (.composite s.id) = [] ∧ ¬Childless f s := by
  rw [← firstChild?_eq_none]
  unfold default?
  split <;> simp_all [Option.isSome_iff_ne_none]

theorem chooseInitial_defaulted (h : chooseInitial f .firstChild ch s = .ok ch') :
    ch'.defaulted = ch.defaulted ++ (default? f s).toList := by
  cases chooseInitial_eq_ok.1 h with
  | declared i hi => simp [default?, hi]
  | childless hnone hchild => simp [default?, hnone, hchild]
  | defaulted u hnone hchild => simp [default?, hnone, hchild]

theorem chooseInitial_reject : chooseInitial f .reject ch s = .ok ch' ↔
    chooseInitial f .firstChild ch s = .ok ch' ∧ default? f s = none := by
  rw [chooseInitial_eq_ok, chooseInitial_eq_ok]
  constructor
  · intro h
    cases h with
    | declared i hi => exact ⟨.declared i hi, by simp [default?, hi]⟩
    | childless hnone hchild => exact ⟨.childless hnone hchild, by simp [default?, hchild]⟩
    | defaulted _ _ _ hfallback => cases hfallback
  · rintro ⟨h, hdefault⟩
    cases h with
    | declared i hi => exact .declared i hi
    | childless hnone hchild => exact .childless hnone hchild
    | defaulted u hnone hchild => simp [default?, hnone, hchild] at hdefault

theorem foldlM_defaulted (h : ss.foldlM (chooseInitial f .firstChild) ch = .ok ch') :
    ch'.defaulted = ch.defaulted ++ ss.filterMap (default? f) := by
  induction ss generalizing ch with
  | nil =>
    cases h
    simp
  | cons s ss ih =>
    obtain ⟨m, hm, h⟩ := foldlM_cons_ok.1 h
    rw [ih h, chooseInitial_defaulted hm, List.append_assoc]
    cases hd : default? f s <;> simp [hd]

theorem foldlM_reject : ss.foldlM (chooseInitial f .reject) ch = .ok ch' ↔
    ss.foldlM (chooseInitial f .firstChild) ch = .ok ch' ∧ ∀ s ∈ ss, default? f s = none := by
  induction ss generalizing ch with
  | nil => simp
  | cons s ss ih =>
    rw [foldlM_cons_ok, foldlM_cons_ok, List.forall_mem_cons]
    simp only [chooseInitial_reject, ih]
    tauto

theorem enforce_eq_ok (h : f.Sound) : enforce fallback f = .ok c ↔ ∃ top regions choice roots,
    topInitial f = .ok top ∧ f.regions.mapM (regionOf f) = .ok regions ∧
      (composites f).foldlM (chooseInitial f fallback) (ofRegions regions) = .ok choice ∧
      Nesting.forest f.states f.regions choice.nested = .ok roots ∧
      c = assemble f top regions choice roots := by
  refine ⟨enforce_ok h, ?_⟩
  rintro ⟨top, regions, choice, roots, ht, hm, hch, hr, rfl⟩
  rw [enforce_eq h]
  exact bind_ok.2 ⟨top, ht, bind_ok.2 ⟨regions, hm, bind_ok.2 ⟨choice, hch,
    bind_ok.2 ⟨roots, hr, rfl⟩⟩⟩⟩

theorem defaulted_of_enforce (h : f.Sound) (hc : enforce .firstChild f = .ok c) :
    c.defaulted = ((composites f).filterMap (default? f)).map Prod.fst := by
  obtain ⟨top, regions, choice, roots, -, -, hch, -, rfl⟩ := enforce_ok h hc
  exact congrArg (List.map Prod.fst) (foldlM_defaulted hch)

theorem enforce_reject (h : f.Sound) : enforce .reject f = .ok c ↔
    enforce .firstChild f = .ok c ∧ c.defaulted = [] := by
  have hnone : enforce .firstChild f = .ok c →
      (c.defaulted = [] ↔ ∀ s ∈ composites f, default? f s = none) := by
    intro hc
    rw [defaulted_of_enforce h hc, List.map_eq_nil_iff, List.filterMap_eq_nil_iff]
  rw [and_congr_right hnone, enforce_eq_ok h, enforce_eq_ok h]
  simp only [foldlM_reject]
  tauto

theorem map_fst_filterMap_default? (ss : List State) :
    (ss.filterMap (default? f)).map Prod.fst =
      (ss.filter fun s => (default? f s).isSome).map State.id := by
  induction ss with
  | nil => rfl
  | cons s ss ih =>
    cases hd : default? f s with
    | none => simp [hd, ih]
    | some d => simp [hd, ih, fst_of_default? hd]

end Rules

def unstarted (b : Block) (ss : List State) : List State :=
  ss.filter fun s => s.kind = .composite ∧ starts b (.composite s.id) = 0 ∧
    ∃ u ∈ ss, u.parent = some s.id ∧ u.kind ≠ .history

theorem defaulted_eq_unstarted {es : List (Located Event)} {t : BlockTree} {f g : FlatChart}
    {c : Chart} {input : String} (hs : Event.scan input = .ok es) (ht : BlockTree.ofEvents es = .ok t)
    (hf : FlatChart.ofBlocks t = .ok f) (hg : f.withHistory = .ok g)
    (hc : Rules.enforce .firstChild g = .ok c) :
    c.defaulted = (unstarted t.body c.states).map State.id := by
  obtain ⟨home, hdrawn⟩ := drawn_ofBlocks (wellNamed_of_text hs ht) hf
  have hsound := hdrawn.sound.withHistory hg
  have hcount : ∀ s, (Rules.declaredIn g s).length = starts t.body s := by
    obtain ⟨o, -, rfl⟩ := withHistory_ok hg
    exact length_declaredIn (f := f.withOutcome o) hdrawn.initials
  rw [Rules.defaulted_of_enforce hsound hc, Rules.map_fst_filterMap_default?,
    (assembled_of_enforce hsound hc).states, unstarted, Rules.composites, List.filter_filter]
  refine congrArg (List.map State.id) (List.filter_congr fun s _ => ?_)
  rw [Bool.eq_iff_iff, Bool.and_eq_true, decide_eq_true_iff, decide_eq_true_iff,
    Rules.isSome_default?, ← hcount, List.length_eq_zero_iff]
  unfold Rules.Childless
  push Not
  tauto

theorem parse_reject_iff (input : String) :
    (∀ c, Chart.parse .reject input = .ok c ↔
      Chart.parse .firstChild input = .ok c ∧ c.defaulted = []) ∧
    ∀ c, Chart.parse .firstChild input = .ok c →
      ∃ es t, Event.scan input = .ok es ∧ BlockTree.ofEvents es = .ok t ∧
        c.defaulted = (unstarted t.body c.states).map State.id ∧ c.defaulted.Nodup := by
  constructor
  · intro c
    constructor
    · intro h
      obtain ⟨flat, full, hflat, hfull, hc⟩ := stages_of_parse h
      have hsound := (FlatChart.sound_of_ofText hflat).withHistory hfull
      obtain ⟨hc, hnone⟩ := (Rules.enforce_reject hsound).1 hc
      exact ⟨parse_of_stages hflat hfull hc, hnone⟩
    · rintro ⟨h, hnone⟩
      obtain ⟨flat, full, hflat, hfull, hc⟩ := stages_of_parse h
      have hsound := (FlatChart.sound_of_ofText hflat).withHistory hfull
      exact parse_of_stages hflat hfull ((Rules.enforce_reject hsound).2 ⟨hc, hnone⟩)
  · intro c h
    obtain ⟨flat, full, hflat, hfull, hc⟩ := stages_of_parse h
    obtain ⟨es, t, hs, ht, hf⟩ := ofText_ok hflat
    have heq := defaulted_eq_unstarted hs ht hf hfull hc
    refine ⟨es, t, hs, ht, heq, ?_⟩
    rw [heq]
    exact (Chart.wellFormed_of_parse h).distinct.sublist (List.filter_sublist.map _)

theorem parse_reject_sample : Chart.parse .firstChild Sample.text = .ok Sample.chart ∧
    Sample.chart.defaulted = [⟨"On"⟩] ∧ ¬Chart.parse .reject Sample.text = .ok Sample.chart ∧
    ∃ es t, Event.scan Sample.text = .ok es ∧ BlockTree.ofEvents es = .ok t ∧
      Sample.chart.defaulted = (unstarted t.body Sample.chart.states).map State.id ∧
      Sample.chart.defaulted.Nodup := by
  obtain ⟨hreject, hdefaulted⟩ := parse_reject_iff Sample.text
  refine ⟨Sample.parse_text, rfl, fun h => ?_, hdefaulted _ Sample.parse_text⟩
  cases ((hreject _).1 h).2

end Statechart
