import Mathlib
import Statechart.Chart.Parse
import Statechart.Proofs.Sound

namespace Statechart

inductive Defect.OfInitials : Defect → Prop
  | noTop : OfInitials .noTopInitial
  | manyTop (lines : List Nat) : OfInitials (.manyTopInitials lines)
  | noRegion (owner : NodeId) (index : Nat) : OfInitials (.noRegionInitial owner index)
  | manyRegion (owner : NodeId) (index : Nat) (lines : List Nat) :
    OfInitials (.manyRegionInitials owner index lines)
  | none (composite : NodeId) : OfInitials (.noInitial composite)
  | many (composite : NodeId) (lines : List Nat) : OfInitials (.manyInitials composite lines)

namespace Rules

variable {f : FlatChart} {fallback : Fallback} {c : Chart} {d : Defect} {s : State}

def Childless (f : FlatChart) (s : State) : Prop :=
  ∀ t ∈ f.states, t.parent = some s.id → t.kind = .history

structure Settled (fallback : Fallback) (f : FlatChart) : Prop where
  top : (declaredIn f .top).length = 1
  regions : ∀ r ∈ f.regions, (declaredIn f (.region r.owner r.index)).length = 1
  composites : ∀ s ∈ f.states, s.kind = .composite → (declaredIn f (.composite s.id)).length ≤ 1
  fallback : fallback = .reject → ∀ s ∈ f.states, s.kind = .composite →
    (declaredIn f (.composite s.id)).length = 0 → Childless f s

theorem checkIds_ok (h : f.Sound) : checkIds f = .ok () := by
  have hnone : firstRepeat [] (f.states.map State.id) = none :=
    firstRepeat_eq_none.2 ⟨h.nested.distinct, by simp⟩
  rw [checkIds, hnone]

theorem stateAt_ok (h : f.Sound) (hs : s ∈ f.states) (line : Nat) :
    stateAt f line s.id = .ok s := by
  have hfind : f.states.find? (fun t => t.id = s.id) = some s :=
    Nesting.find?_of_mem h.nested.distinct hs
  rw [stateAt, hfind]

theorem checkTransition_ok (h : f.Sound) {t : Transition} (ht : t ∈ f.transitions) :
    checkTransition f t = .ok () := by
  obtain ⟨s, hs, hsource⟩ := h.sources t ht
  obtain ⟨u, hu, htarget⟩ := h.targets t ht
  have hfirst : stateAt f t.line t.source = .ok s := hsource ▸ stateAt_ok h hs t.line
  have hsecond : stateAt f t.line t.target = .ok u := htarget ▸ stateAt_ok h hu t.line
  unfold checkTransition
  refine bind_ok.2 ⟨s, hfirst, bind_ok.2 ⟨u, hsecond, ?_⟩⟩
  cases hk : u.kind with
  | simple | composite | concurrent => rfl
  | history =>
    obtain ⟨c, line, rfl, -⟩ := h.histories u hu hk
    have hout : t.source.inside c = false := h.outside t ht c htarget.symm ⟨_, hu, htarget, hk⟩
    simp [History.stateOf, hout]

theorem checkRegions_ok (h : f.Sound) (hs : s ∈ f.states) : checkRegions f s = .ok () := by
  refine if_neg fun ⟨hk, hfew⟩ => ?_
  obtain ⟨n, hn, hi⟩ := h.nested.indices s hs hk
  have hlen := congrArg List.length hi
  rw [List.length_map, List.length_range, ← List.countP_eq_length_filter] at hlen
  omega

def ofRegions (regions : List Region) : Choice :=
  ⟨regions.foldl (fun m r => Initials.set r.id r.initial m) [], []⟩

theorem foundation_eq (h : f.Sound) : foundation f = do
    let top ← topInitial f
    let regions ← f.regions.mapM (regionOf f)
    return (top, regions, ofRegions regions) := by
  have htrans : f.transitions.forM (checkTransition f) = .ok () :=
    forM_ok.2 fun t ht => checkTransition_ok h ht
  have hregions : f.states.forM (checkRegions f) = .ok () :=
    forM_ok.2 fun s hs => checkRegions_ok h hs
  unfold foundation
  rw [checkIds_ok h, htrans, hregions]
  rfl

def assemble (f : FlatChart) (top : NodeId) (regions : List Region) (choice : Choice)
    (roots : List Node) : Chart where
  states := f.states
  roots := roots
  initial := top
  nested := choice.nested
  defaulted := choice.defaulted.map Prod.fst
  regions := regions
  transitions := f.transitions
  finals := f.finals
  remarks := f.remarks
  direction := f.direction

theorem eraseDups_of_nodup {as : List NodeId} (h : as.Nodup) : as.eraseDups = as := by
  induction as with
  | nil => rfl
  | cons a as ih =>
    obtain ⟨ha, has⟩ := List.nodup_cons.1 h
    have hkeep : as.filter (fun b => !b == a) = as := by
      refine List.filter_eq_self.2 fun b hb => ?_
      have hne : b ≠ a := fun he => ha (he ▸ hb)
      simpa using hne
    rw [List.eraseDups_cons, hkeep, ih has]

theorem checkCount_ok (h : f.Sound) {top : NodeId} {regions : List Region} {choice : Choice}
    {roots : List Node} (hr : (Node.idsOf roots).Perm (f.states.map State.id)) :
    checkCount (assemble f top regions choice roots) =
      .ok (assemble f top regions choice roots) := by
  have hlen : (Node.idsOf roots).length = f.states.length := by
    rw [hr.length_eq, List.length_map]
  have hnodup : (Node.idsOf roots).Nodup := hr.nodup_iff.2 h.nested.distinct
  refine if_pos ⟨hlen, ?_⟩
  exact congrArg List.length (eraseDups_of_nodup hnodup)

theorem enforce_eq (h : f.Sound) : enforce fallback f = do
    let top ← topInitial f
    let regions ← f.regions.mapM (regionOf f)
    let choice ← (composites f).foldlM (chooseInitial f fallback) (ofRegions regions)
    let roots ← Nesting.forest f.states f.regions choice.nested
    return assemble f top regions choice roots := by
  unfold enforce
  rw [foundation_eq h]
  cases topInitial f with
  | error d => rfl
  | ok top =>
    cases f.regions.mapM (regionOf f) with
    | error d => rfl
    | ok regions =>
      show ((composites f).foldlM (chooseInitial f fallback) (ofRegions regions) >>= _) =
        (composites f).foldlM (chooseInitial f fallback) (ofRegions regions) >>= _
      cases (composites f).foldlM (chooseInitial f fallback) (ofRegions regions) with
      | error d => rfl
      | ok choice =>
        obtain ⟨roots, hroots, hperm⟩ := Nesting.forest_ok h.nested.treelike choice.nested
        show (Nesting.forest f.states f.regions choice.nested >>= _) =
          Nesting.forest f.states f.regions choice.nested >>= _
        rw [hroots]
        exact checkCount_ok h hperm

theorem enforce_ok (h : f.Sound) (hc : enforce fallback f = .ok c) : ∃ top regions choice roots,
    topInitial f = .ok top ∧ f.regions.mapM (regionOf f) = .ok regions ∧
      (composites f).foldlM (chooseInitial f fallback) (ofRegions regions) = .ok choice ∧
      Nesting.forest f.states f.regions choice.nested = .ok roots ∧
      c = assemble f top regions choice roots := by
  rw [enforce_eq h] at hc
  obtain ⟨top, ht, hc⟩ := bind_ok.1 hc
  obtain ⟨regions, hm, hc⟩ := bind_ok.1 hc
  obtain ⟨choice, hch, hc⟩ := bind_ok.1 hc
  obtain ⟨roots, hr, hc⟩ := bind_ok.1 hc
  exact ⟨top, regions, choice, roots, ht, hm, hch, hr, (Except.ok.inj hc).symm⟩

theorem topInitial_eq_ok {x : NodeId} :
    topInitial f = .ok x ↔ ∃ i, declaredIn f .top = [i] ∧ x = i.target := by
  rcases hi : declaredIn f .top with _ | ⟨i, _ | ⟨j, is⟩⟩ <;> simp [topInitial, hi, eq_comm]

theorem topInitial_ok : (∃ i, topInitial f = .ok i) ↔ (declaredIn f .top).length = 1 := by
  simp only [topInitial_eq_ok, List.length_eq_one_iff]
  exact ⟨fun ⟨_, i, hi, _⟩ => ⟨i, hi⟩, fun ⟨i, hi⟩ => ⟨_, i, hi, rfl⟩⟩

theorem regionOf_eq_ok {r : RegionSlot} {q : Region} : regionOf f r = .ok q ↔
    ∃ i, declaredIn f (.region r.owner r.index) = [i] ∧ q = {
      owner := r.owner
      index := r.index
      name := regionName r.index
      id := r.id
      initial := i.target
      members := (f.states.filter fun s =>
        s.parent = some r.owner && s.region = some r.index).map State.id } := by
  rcases hi : declaredIn f (.region r.owner r.index) with _ | ⟨i, _ | ⟨j, is⟩⟩ <;>
    simp [regionOf, hi, eq_comm]

theorem regionOf_ok {r : RegionSlot} : (∃ q, regionOf f r = .ok q) ↔
    (declaredIn f (.region r.owner r.index)).length = 1 := by
  simp only [regionOf_eq_ok, List.length_eq_one_iff]
  exact ⟨fun ⟨_, i, hi, _⟩ => ⟨i, hi⟩, fun ⟨i, hi⟩ => ⟨_, i, hi, rfl⟩⟩

theorem firstChild?_eq_none : firstChild? f s.id = none ↔ Childless f s := by
  simp [firstChild?, Childless]

inductive Chosen (f : FlatChart) (fallback : Fallback) (ch : Choice) (s : State) : Choice → Prop
  | declared (i : Initial) (hi : declaredIn f (.composite s.id) = [i]) :
      Chosen f fallback ch s { ch with nested := ch.nested.set s.id i.target }
  | childless (hnone : declaredIn f (.composite s.id) = []) (hchild : firstChild? f s.id = none) :
      Chosen f fallback ch s ch
  | defaulted (u : State) (hnone : declaredIn f (.composite s.id) = [])
      (hchild : firstChild? f s.id = some u) (hfallback : fallback = .firstChild) :
      Chosen f fallback ch s {
        nested := ch.nested.set s.id u.id
        defaulted := ch.defaulted ++ [(s.id, u.id)] }

theorem chooseInitial_eq_ok {ch ch' : Choice} :
    chooseInitial f fallback ch s = .ok ch' ↔ Chosen f fallback ch s ch' := by
  constructor
  · intro h
    unfold chooseInitial at h
    split at h
    · rename_i i hi
      cases h
      exact .declared i hi
    · rename_i hnone
      split at h
      · rename_i hchild
        cases h
        exact .childless hnone hchild
      · rename_i u hchild
        cases h
        exact .defaulted u hnone hchild rfl
      · cases h
    · cases h
  · intro h
    cases h with
    | declared i hi => simp [chooseInitial, hi]
    | childless hnone hchild => simp [chooseInitial, hnone, hchild]
    | defaulted u hnone hchild hfallback =>
      subst hfallback
      simp [chooseInitial, hnone, hchild]

theorem chooseInitial_ok {ch : Choice} : (∃ ch', chooseInitial f fallback ch s = .ok ch') ↔
    (declaredIn f (.composite s.id)).length ≤ 1 ∧
      (fallback = .reject → (declaredIn f (.composite s.id)).length = 0 → Childless f s) := by
  rw [← firstChild?_eq_none]
  simp only [chooseInitial_eq_ok]
  constructor
  · rintro ⟨ch', h⟩
    cases h with
    | declared i hi => simp [hi]
    | childless hnone hchild => simp [hnone, hchild]
    | defaulted u hnone hchild hfallback => simp [hnone, hfallback]
  · rintro ⟨hone, hreject⟩
    rcases hi : declaredIn f (.composite s.id) with _ | ⟨i, _ | ⟨j, is⟩⟩
    · cases hchild : firstChild? f s.id with
      | none => exact ⟨ch, .childless hi hchild⟩
      | some u =>
        refine ⟨_, .defaulted u hi hchild ?_⟩
        cases fallback with
        | firstChild => rfl
        | reject => simp [hi, hchild] at hreject
    · exact ⟨_, .declared i hi⟩
    · simp [hi] at hone

theorem exists_enforce_ok_iff (h : f.Sound) :
    (∃ c, enforce fallback f = .ok c) ↔ Settled fallback f := by
  constructor
  · rintro ⟨c, hc⟩
    obtain ⟨top, regions, choice, roots, ht, hm, hch, -, -⟩ := enforce_ok h hc
    have hchoice : ∀ s ∈ f.states, s.kind = .composite →
        (declaredIn f (.composite s.id)).length ≤ 1 ∧ (fallback = .reject →
          (declaredIn f (.composite s.id)).length = 0 → Childless f s) := by
      intro s hs hk
      obtain ⟨ch, ch', hstep⟩ := step_ok_of_foldlM hch s (List.mem_filter.2 ⟨hs, by simpa using hk⟩)
      exact chooseInitial_ok.1 ⟨ch', hstep⟩
    constructor
    case top => exact topInitial_ok.1 ⟨top, ht⟩
    case regions =>
      intro r hr
      obtain ⟨q, -, hq⟩ := mem_left_of_forall₂ (mapM_ok.1 hm) r hr
      exact regionOf_ok.1 ⟨q, hq⟩
    case composites => exact fun s hs hk => (hchoice s hs hk).1
    case fallback => exact fun hf s hs hk hz => (hchoice s hs hk).2 hf hz
  · intro hsettled
    obtain ⟨top, ht⟩ := topInitial_ok.2 hsettled.top
    have hregions : ∀ r ∈ f.regions, ∃ q, regionOf f r = .ok q ∧ True := by
      intro r hr
      obtain ⟨q, hq⟩ := regionOf_ok.2 (hsettled.regions r hr)
      exact ⟨q, hq, trivial⟩
    obtain ⟨regions, hm, -⟩ := exists_mapM_ok hregions
    have hstep : ∀ s ∈ composites f, ∀ ch, ∃ ch', chooseInitial f fallback ch s = .ok ch' := by
      intro s hs ch
      obtain ⟨hs, hk⟩ := List.mem_filter.1 hs
      have hk : s.kind = .composite := by simpa using hk
      exact chooseInitial_ok.2 ⟨hsettled.composites s hs hk, fun hf => hsettled.fallback hf s hs hk⟩
    obtain ⟨choice, hch⟩ := exists_foldlM_ok (ofRegions regions) hstep
    obtain ⟨roots, hr, -⟩ := Nesting.forest_ok h.nested.treelike choice.nested
    refine ⟨assemble f top regions choice roots, ?_⟩
    rw [enforce_eq h]
    exact bind_ok.2 ⟨top, ht, bind_ok.2 ⟨regions, hm, bind_ok.2 ⟨choice, hch,
      bind_ok.2 ⟨roots, hr, rfl⟩⟩⟩⟩

theorem ofInitials_of_enforce (h : f.Sound) (hd : enforce fallback f = .error d) :
    d.OfInitials := by
  rw [enforce_eq h] at hd
  rcases bind_error.1 hd with ht | ⟨top, -, hd⟩
  · unfold topInitial at ht
    split at ht <;> cases ht
    · exact .noTop
    · exact .manyTop _
  rcases bind_error.1 hd with hm | ⟨regions, -, hd⟩
  · obtain ⟨r, -, hr⟩ := mapM_error hm
    unfold regionOf at hr
    split at hr <;> cases hr
    · exact .noRegion _ _
    · exact .manyRegion _ _ _
  rcases bind_error.1 hd with hch | ⟨choice, -, hd⟩
  · obtain ⟨s, -, ch, hs⟩ := foldlM_error hch
    unfold chooseInitial at hs
    split at hs
    · cases hs
    · split at hs <;> cases hs
      exact .none _
    · cases hs
      exact .many _ _
  obtain ⟨roots, hr, -⟩ := Nesting.forest_ok h.nested.treelike choice.nested
  rw [hr] at hd
  cases hd

end Rules

def Entry.isStart (s : Scope) : Entry → Bool
  | .clause p c =>
    match c.item with
    | .initial _ => p.scope = s
    | _ => false
  | _ => false

def starts (b : Block) (s : Scope) : Nat :=
  (entriesOf [] b).countP (Entry.isStart s)

theorem length_declaredIn {b : Block} {f : FlatChart}
    (h : f.initials = (entriesOf [] b).filterMap Entry.initial?) (s : Scope) :
    (Rules.declaredIn f s).length = starts b s := by
  rw [Rules.declaredIn, h, ← List.countP_eq_length_filter, List.countP_filterMap]
  refine List.countP_congr fun e _ => ?_
  cases e with
  | clause p c => cases hi : c.item <;> simp [Entry.initial?, Entry.isStart, hi]
  | head | region => simp [Entry.initial?, Entry.isStart]

theorem enforce_fails_iff {input : String} {es : List (Located Event)} {t : BlockTree}
    {f g : FlatChart} (hs : Event.scan input = .ok es) (ht : BlockTree.ofEvents es = .ok t)
    (hf : FlatChart.ofBlocks t = .ok f) (hg : f.withHistory = .ok g) (fallback : Fallback) :
    ((∃ d, Rules.enforce fallback g = .error d) ↔ starts t.body .top ≠ 1 ∨
      (∃ r ∈ g.regions, starts t.body (.region r.owner r.index) ≠ 1) ∨
      (∃ s ∈ g.states, s.kind = .composite ∧ 2 ≤ starts t.body (.composite s.id)) ∨
      (fallback = .reject ∧ ∃ s ∈ g.states, s.kind = .composite ∧
        starts t.body (.composite s.id) = 0 ∧
        ∃ u ∈ g.states, u.parent = some s.id ∧ u.kind ≠ .history)) ∧
    ∀ d, Rules.enforce fallback g = .error d → d.OfInitials := by
  obtain ⟨home, hdrawn⟩ := drawn_ofBlocks (wellNamed_of_text hs ht) hf
  have hsound := hdrawn.sound.withHistory hg
  refine ⟨?_, fun d hd => Rules.ofInitials_of_enforce hsound hd⟩
  have hcount : ∀ s, (Rules.declaredIn g s).length = starts t.body s := by
    obtain ⟨o, -, rfl⟩ := withHistory_ok hg
    exact length_declaredIn (f := f.withOutcome o) hdrawn.initials
  have hfails : (∃ d, Rules.enforce fallback g = .error d) ↔ ¬ Rules.Settled fallback g := by
    rw [← Rules.exists_enforce_ok_iff hsound]
    cases Rules.enforce fallback g <;> simp
  rw [hfails]
  constructor
  · intro hnot
    by_contra hno
    simp only [not_or, not_exists, not_and, not_not] at hno
    obtain ⟨htop, hregions, hmany, hfirst⟩ := hno
    refine hnot ⟨(hcount _).trans htop, fun r hr => (hcount _).trans (hregions r hr), ?_, ?_⟩
    · intro s hs hk
      have hlt := hmany s hs hk
      rw [hcount]
      omega
    · intro hreject s hs hk hzero u hu hp
      exact hfirst hreject s hs hk ((hcount _).symm.trans hzero) u hu hp
  · intro hbad hsettled
    obtain htop | ⟨r, hr, hne⟩ | ⟨s, hs, hk, hmany⟩ |
      ⟨hreject, s, hs, hk, hzero, u, hu, hp, hkind⟩ := hbad
    · exact htop ((hcount _).symm.trans hsettled.top)
    · exact hne ((hcount _).symm.trans (hsettled.regions r hr))
    · have hle := hsettled.composites s hs hk
      rw [hcount] at hle
      omega
    · exact hkind (hsettled.fallback hreject s hs hk ((hcount _).trans hzero) u hu hp)

namespace Sample

/-- The sample with the history state of `On`, which has no arrow from `[*]`. -/
def full : FlatChart where
  states := flat.states ++ [History.stateOf ⟨"On"⟩ 11]
  regions := flat.regions
  transitions := [⟨⟨"Off"⟩, ⟨"On/H"⟩, .empty, 2⟩, ⟨⟨"On/A"⟩, ⟨"On/B"⟩, .empty, 4⟩]
  initials := flat.initials
  finals := []
  notes := flat.notes
  remarks := []
  direction := none

theorem withHistory_flat : flat.withHistory = .ok full := by
  rfl

end Sample

theorem enforce_fails_sample : Event.scan Sample.text = .ok Sample.events ∧
    BlockTree.ofEvents Sample.events = .ok Sample.tree ∧
    FlatChart.ofBlocks Sample.tree = .ok Sample.flat ∧
    Sample.flat.withHistory = .ok Sample.full ∧
    (∃ d, Rules.enforce .reject Sample.full = .error d ∧ d.OfInitials) ∧
    ¬∃ d, Rules.enforce .firstChild Sample.full = .error d := by
  have hiff := enforce_fails_iff Sample.scan_text Sample.ofEvents_events Sample.ofBlocks_tree
    Sample.withHistory_flat
  refine ⟨Sample.scan_text, Sample.ofEvents_events, Sample.ofBlocks_tree, Sample.withHistory_flat,
    ?_, ?_⟩
  · obtain ⟨d, hd⟩ := (hiff .reject).1.2 (by decide +kernel)
    exact ⟨d, hd, (hiff .reject).2 d hd⟩
  · rw [(hiff .firstChild).1]
    decide +kernel

end Statechart
