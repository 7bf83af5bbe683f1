import Mathlib
import Statechart.Proofs.Fallback
import Statechart.Proofs.Standing
import Statechart.Proofs.Starts
import Statechart.Proofs.TextOrder

namespace Statechart

def start? (ref : Place × Located Clause) : Option Initial :=
  match ref.2.item with
  | .initial target => some ⟨ref.1.scope, .child ref.1.id? target, ref.2.line⟩
  | _ => none

namespace Chart

/-- Whether a state of the name stands directly in a place, history states apart. -/
def Has (c : Chart) (p : Place) (name : String) : Prop :=
  ∃ s ∈ c.states, s.name = name ∧ s.scope = p.scope ∧ s.kind ≠ .history

/-- In the place `p` the name means a state that stands in `q`: the nearest one on the way out, or
    one further inside when there is none. -/
structure Denotes (c : Chart) (p : Place) (name : String) (q : Place) : Prop where
  state : ∃ s ∈ c.states, s.id = .child q.id? name ∧ s.name = name ∧ s.scope = q.scope ∧
    s.kind ≠ .history
  nearest : (q <:+ p ∧ ∀ r, r <:+ p → c.Has r name → r <:+ q) ∨
    (p <:+ q ∧ ∀ r, r <:+ p → ¬c.Has r name)

def Turned (c : Chart) (t u : Transition) : Prop :=
  u = t ∨ (u = { t with target := History.idOf t.target } ∧
    ∃ s ∈ c.states, s.id = u.target ∧ s.kind = .history)

structure ArrowsKept (c : Chart) (home : Place → String → Place)
    (refs : List (Place × Located Clause)) : Prop where
  meaning : ∀ ref ∈ refs, ∀ x ∈ Resolution.reads ref.2.item, c.Denotes ref.1 x (home ref.1 x)
  transitions :
    List.Forall₂ c.Turned (refs.filterMap (Resolution.transition? home)) c.transitions
  lines : (c.transitions.map Transition.line).Pairwise (· < ·)
  starts : ((refs.filterMap start?).map fun i => (i.scope.id?, i.target)).Perm
    (c.starts.filter fun e => e.1 ∉ c.defaulted.map some)
  members : ∀ ref ∈ refs, ∀ x, ref.2.item = .initial x →
    ∃ s ∈ c.states, s.id = .child ref.1.id? x ∧ s.name = x ∧ s.scope = ref.1.scope
  finals : c.finals = (refs.filterMap (Resolution.final? home)).eraseDups
  finals_once : c.finals.Nodup

end Chart

namespace Resolution

theorem line_of_transition? {home : Place → String → Place} {ref : Place × Located Clause}
    {t : Transition} (h : t ∈ transition? home ref) : t.line = ref.2.line := by
  obtain ⟨-, -, -, -, rfl⟩ := transition?_eq_some.1 h
  rfl

theorem nodup_foldl_addOnce {known : List NodeId} (h : known.Nodup) (ids : List NodeId) :
    (ids.foldl addOnce known).Nodup := by
  induction ids generalizing known with
  | nil => exact h
  | cons id ids ih =>
    refine ih ?_
    unfold addOnce
    split
    · exact h
    · rename_i hid
      exact List.nodup_append.2 ⟨h, List.nodup_singleton id, by
        rintro a ha b hb rfl
        exact hid (List.mem_singleton.1 hb ▸ ha)⟩

theorem foldl_addOnce (ids : List NodeId) : ids.foldl addOnce [] = ids.eraseDups := by
  induction ids using List.reverseRecOn with
  | nil => rfl
  | append_singleton ids id ih =>
    rw [List.foldl_append, ih, List.foldl_cons, List.foldl_nil, List.eraseDups_append, addOnce]
    by_cases hid : id ∈ ids
    · simp [hid, List.removeAll]
    · simp [hid, List.removeAll, List.eraseDups_cons]

end Resolution

section Lines

variable {b : Block}

theorem filterMap_references {α : Type} {g : Place × Located Clause → Option α}
    (hg : ∀ p c, Entry.reference? (.clause p c) = none → g (p, c) = none) :
    (references b).filterMap g = (clausesOf [] b).filterMap g := by
  rw [references, clausesOf, List.filterMap_filterMap, List.filterMap_filterMap]
  refine List.filterMap_congr fun e _ => ?_
  cases e with
  | clause p c =>
    have hg := hg p c
    cases hi : c.item <;> simp_all [Entry.reference?, Entry.clause?]
  | head | region => rfl

theorem filterMap_transition? (home : Place → String → Place) :
    (references b).filterMap (Resolution.transition? home) =
      (clausesOf [] b).filterMap (Resolution.transition? home) := by
  refine filterMap_references fun p c hc => ?_
  cases hi : c.item <;> simp_all [Entry.reference?, Resolution.transition?]

theorem filterMap_final? (home : Place → String → Place) :
    (references b).filterMap (Resolution.final? home) =
      (clausesOf [] b).filterMap (Resolution.final? home) := by
  refine filterMap_references fun p c hc => ?_
  cases hi : c.item <;> simp_all [Entry.reference?, Resolution.final?]

theorem filterMap_start? :
    (entriesOf [] b).filterMap Entry.initial? = (clausesOf [] b).filterMap start? := by
  rw [clausesOf, List.filterMap_filterMap]
  refine List.filterMap_congr fun e _ => ?_
  cases e with
  | clause p c => cases hi : c.item <;> simp [Entry.initial?, Entry.clause?, start?, hi]
  | head | region => rfl

theorem mem_clausesOf {ref : Place × Located Clause} :
    ref ∈ clausesOf [] b ↔ .clause ref.1 ref.2 ∈ entriesOf [] b := by
  rw [List.mem_filterMap]
  constructor
  · rintro ⟨e, he, href⟩
    cases e with
    | clause p c => exact Option.some.inj href ▸ he
    | head | region => cases href
  · exact fun h => ⟨_, h, rfl⟩

theorem pairwise_standings {es : List (Located Event)}
    (h : es.Pairwise fun a b => a.line < b.line) (p : Place) :
    (standings p es).Pairwise fun a b => a.2.line < b.2.line := by
  have hline : ∀ {e : Located Event} {c : Located Clause},
      c ∈ Event.clause? e → c.line = e.line := by
    intro e c hc
    cases hi : e.item <;> simp [Event.clause?, hi] at hc
    rw [← hc]
  rw [← List.pairwise_map (f := Prod.snd) (R := fun a b : Located Clause => a.line < b.line),
    map_snd_standings]
  refine h.filterMap _ fun a b hab c hc d hd => ?_
  rwa [hline hc, hline hd]

theorem mem_references_of_reads {ref : Place × Located Clause} (h : ref ∈ clausesOf [] b)
    {x : String} (hx : x ∈ Resolution.reads ref.2.item) :
    ref ∈ references b ∧ x ∈ ref.2.item.names := by
  have hmem := mem_clausesOf.1 h
  cases hi : ref.2.item with
  | declare | initial | note => simp [hi, Resolution.reads] at hx
  | final | transition | description =>
    refine ⟨List.mem_filterMap.2 ⟨_, hmem, by simp [Entry.reference?, hi]⟩, ?_⟩
    simpa [hi, Resolution.reads, Clause.names] using hx

end Lines

theorem Drawn.denotes {b : Block} {home : Place → String → Place} {f : FlatChart} {c : Chart}
    {added : List State} (h : Drawn b home f) (hc : c.states = f.states ++ added)
    (ha : ∀ s ∈ added, s.kind = .history) {ref : Place × Located Clause}
    (href : ref ∈ references b) {x : String} (hx : x ∈ ref.2.item.names) :
    c.Denotes ref.1 x (home ref.1 x) := by
  obtain ⟨s, hs, hid, hname, hscope⟩ := h.exists_referred href hx
  have hstate : ∃ s ∈ c.states, s.id = .child (home ref.1 x).id? x ∧ s.name = x ∧
      s.scope = (home ref.1 x).scope ∧ s.kind ≠ .history :=
    ⟨s, hc ▸ List.mem_append_left _ hs, hid, hname, hscope, h.leaf s hs⟩
  obtain ⟨bs, hcharted, hstates, hm⟩ := h.states
  have hopen : Open (entriesOf [] b) ref.1 := h.coherent.opened _ (mem_references href).1
  -- the places around a line are told apart by the scopes of the states in them
  have hkey : ∀ r, r <:+ ref.1 → c.Has r x → (r, x) ∈ bs.map Binding.key := by
    rintro r hr ⟨u, hu, rfl, huscope, hk⟩
    rw [hc, hstates] at hu
    obtain ⟨e, he, rfl⟩ := List.mem_map.1
      ((List.mem_append.1 hu).resolve_right fun hnew => hk (ha u hnew))
    have hplace : e.place = r := by
      refine h.coherent.place_eq (hcharted.place_and_name h.coherent he).1 (hopen.of_suffix hr) ?_
      rw [← Place.id?_scope, ← Place.id?_scope, ← huscope, e.scope_toState]
    exact List.mem_map.2 ⟨e, he, Prod.ext hplace rfl⟩
  obtain ⟨-, ⟨hup, hmin⟩ | ⟨hdown, hnone⟩⟩ := hm ref href x hx
  · exact ⟨hstate, .inl ⟨hup, fun r hr hhas => hmin r hr (hkey r hr hhas)⟩⟩
  · exact ⟨hstate, .inr ⟨hdown, fun r hr hhas => hnone r hr (hkey r hr hhas)⟩⟩

theorem Chart.lines_of_turned {c : Chart} {ts us : List Transition}
    (h : List.Forall₂ c.Turned ts us) : us.map Transition.line = ts.map Transition.line := by
  induction h with
  | nil => rfl
  | cons hturned _ ih =>
    rw [List.map_cons, List.map_cons, ih]
    rcases hturned with rfl | ⟨rfl, -⟩ <;> rfl

namespace FlatChart.Sound

variable {f g : FlatChart} {c : Chart}

theorem exists_added (h : f.Sound) (hg : f.withHistory = .ok g) (ha : Assembled g c) :
    ∃ added, c.states = f.states ++ added ∧ ∀ s ∈ added, s.kind = .history := by
  obtain ⟨o, ho, rfl⟩ := withHistory_ok hg
  refine ⟨_, ha.states.trans (h.states_eq ho), fun s hs => ?_⟩
  obtain ⟨d, line, rfl, -⟩ := History.exists_of_mem_newcomers hs
  rfl

theorem turned (h : f.Sound) (hg : f.withHistory = .ok g) (ha : Assembled g c) :
    List.Forall₂ c.Turned f.transitions c.transitions := by
  obtain ⟨o, ho, rfl⟩ := withHistory_ok hg
  have hmap : c.transitions = f.transitions.map (History.recalled f.states f.notes) :=
    ha.transitions.trans (History.transitions_of_carryOut h.nested.distinct ho)
  rw [hmap, List.forall₂_map_right_iff, List.forall₂_same]
  intro t _
  rcases History.recalled_cases f.states f.notes t with heq | ⟨k, hk, htarget, -, heq⟩
  · exact .inl heq
  · obtain ⟨s, hs, hid⟩ := History.exists_provided f.states hk
    have hmem : s ∈ c.states := by
      rw [ha.states.trans (h.states_eq ho)]
      exact hs
    refine .inr ⟨by rw [heq, htarget], s, hmem, by rw [hid, heq], ?_⟩
    rcases List.mem_append.1 hs with hs | hs
    · exact (History.carryOut_ok h.nested.distinct ho).1.free k hk s hs hid
    · obtain ⟨d, line, rfl, -⟩ := History.exists_of_mem_newcomers hs
      rfl

end FlatChart.Sound

namespace Rules

variable {f : FlatChart} {fallback : Fallback} {c : Chart} {s : State} {ch ch' : Choice}
  {i j : Initial}

theorem get?_chooseInitial_of_ne {x : NodeId} (hx : x ≠ s.id)
    (hc : chooseInitial f fallback ch s = .ok ch') : ch'.nested.get? x = ch.nested.get? x := by
  cases chooseInitial_eq_ok.1 hc with
  | declared | defaulted => exact Initials.get?_set_of_ne hx ..
  | childless => rfl

theorem get?_chooseInitial_self (hi : declaredIn f (.composite s.id) = [i])
    (hc : chooseInitial f fallback ch s = .ok ch') : ch'.nested.get? s.id = some i.target := by
  simp only [chooseInitial, hi] at hc
  cases hc
  exact Initials.get?_set_self ..

theorem get?_of_declared (h : f.Sound)
    (hc : (composites f).foldlM (chooseInitial f fallback) ch = .ok ch') (hs : s ∈ composites f)
    (hi : declaredIn f (.composite s.id) = [i]) : ch'.nested.get? s.id = some i.target := by
  have hids : ((composites f).map State.id).Nodup :=
    h.nested.distinct.sublist (List.filter_sublist.map _)
  refine foldlM_invariant (fun made ch => (made.map State.id).Nodup → ∀ s ∈ made, ∀ i,
    declaredIn f (.composite s.id) = [i] → ch.nested.get? s.id = some i.target) ?_ (by simp)
    hc hids s hs i hi
  intro made t m m' _ hm hstep hnodup s hs i hi
  rw [List.map_append, List.nodup_append] at hnodup
  obtain ⟨hnodup, -, hdisjoint⟩ := hnodup
  rcases List.mem_append.1 hs with hs | hs
  · have hne : s.id ≠ t.id := hdisjoint _ (List.mem_map_of_mem hs) _ (by simp)
    rw [get?_chooseInitial_of_ne hne hstep]
    exact hm hnodup s hs i hi
  · obtain rfl := List.mem_singleton.1 hs
    exact get?_chooseInitial_self hi hstep

theorem enforce_firstChild (h : f.Sound) (hc : enforce fallback f = .ok c) :
    enforce .firstChild f = .ok c := by
  cases fallback with
  | firstChild => exact hc
  | reject => exact ((enforce_reject h).1 hc).1

section Starts

variable (h : f.Sound) (hc : enforce .firstChild f = .ok c)
include h hc

theorem scope_mem_of_initial (hi : i ∈ f.initials) : i.scope ∈ c.scopes := by
  have ha := assembled_of_enforce h hc
  obtain ⟨u, hu, -, hscope, -⟩ := h.initials i hi
  exact hscope ▸ (ha.wellFormed h).scope_mem (ha.states ▸ hu)

theorem declaredIn_scope (hi : i ∈ f.initials) : declaredIn f i.scope = [i] := by
  have ha := assembled_of_enforce h hc
  have hset := (exists_enforce_ok_iff h).1 ⟨c, hc⟩
  have hmem : i ∈ declaredIn f i.scope := mem_declaredIn.2 ⟨hi, rfl⟩
  have hle : (declaredIn f i.scope).length ≤ 1 := by
    rcases Chart.mem_scopes.1 (scope_mem_of_initial h hc hi) with
      htop | ⟨s, hs, hk, hscope⟩ | ⟨r, hr, hscope⟩
    · exact htop ▸ hset.top.le
    · exact hscope ▸ hset.composites s (ha.states ▸ hs) hk
    · exact hscope ▸ (hset.regions r.slot (ha.mem_slots hr)).le
  obtain ⟨j, hj⟩ := List.length_eq_one_iff.1 (Nat.le_antisymm hle (List.length_pos_of_mem hmem))
  rw [hj, List.mem_singleton] at hmem
  rw [hj, hmem]

theorem initial_unique (hi : i ∈ f.initials) (hj : j ∈ f.initials) (hs : j.scope = i.scope) :
    j = i := by
  have hmem : j ∈ declaredIn f i.scope := mem_declaredIn.2 ⟨hj, hs⟩
  rw [declaredIn_scope h hc hi] at hmem
  exact List.mem_singleton.1 hmem

theorem initialOf_scope (hi : i ∈ f.initials) : c.initialOf i.scope = some i.target := by
  have ha := assembled_of_enforce h hc
  have hw := ha.wellFormed h
  rcases Chart.mem_scopes.1 (scope_mem_of_initial h hc hi) with
    htop | ⟨s, hs, hk, hscope⟩ | ⟨r, hr, hscope⟩
  · obtain ⟨j, hj, hjtop, htarget⟩ := ha.initial
    obtain rfl := initial_unique h hc hi hj (hjtop.trans htop.symm)
    rw [htop, htarget]
    rfl
  · obtain ⟨top, regions, choice, roots, -, -, hch, -, rfl⟩ := enforce_ok h hc
    have hcomposite : s ∈ composites f := List.mem_filter.2 ⟨hs, by simpa using hk⟩
    have hone := declaredIn_scope h hc hi
    rw [hscope] at hone ⊢
    exact get?_of_declared h hch hcomposite hone
  · obtain ⟨j, hj, hjscope, htarget⟩ := (ha.made r hr).initial
    obtain rfl := initial_unique h hc hi hj (hjscope.trans hscope.symm)
    rw [hscope, Chart.initialOf, hw.id_region hr, Chart.startIn, htarget,
      Initials.get?_eq_some_iff hw.once]
    obtain ⟨e, he, hkey⟩ := List.mem_map.1 ((hw.scopes r.id).2 (.inl ⟨r, hr, rfl⟩))
    rcases ha.table.values e he with ⟨q, hq, hqid, hval⟩ | ⟨s, hs, hsid, -⟩
    · obtain rfl := List.inj_on_of_nodup_map hw.regionIds hq hr (hqid.trans hkey)
      have heq : e = (q.id, q.initial) := Prod.ext hkey hval.symm
      exact heq ▸ he
    · have hs : s ∈ c.states := ha.states ▸ (List.mem_filter.1 hs).1
      exact absurd (hkey.symm.trans hsid.symm) (hw.apart r hr s hs)

theorem mem_defaulted_iff {x : NodeId} : x ∈ c.defaulted ↔
    ∃ s ∈ composites f, s.id = x ∧ declaredIn f (.composite s.id) = [] ∧ ¬Childless f s := by
  rw [defaulted_of_enforce h hc, map_fst_filterMap_default?, List.mem_map]
  simp only [List.mem_filter, isSome_default?]
  exact exists_congr fun s => by tauto

theorem notMem_defaulted (hi : i ∈ f.initials) : i.scope.id? ∉ c.defaulted.map some := by
  intro hmem
  obtain ⟨x, hx, hid⟩ := List.mem_map.1 hmem
  obtain ⟨s, hs, rfl, hnone, -⟩ := (mem_defaulted_iff h hc).1 hx
  have ha := assembled_of_enforce h hc
  obtain ⟨hs, hk⟩ := List.mem_filter.1 hs
  have hscope : Scope.composite s.id ∈ c.scopes :=
    Chart.mem_scopes.2 (.inr (.inl ⟨s, ha.states ▸ hs, by simpa using hk, rfl⟩))
  have heq := (ha.wellFormed h).scope_inj hscope (scope_mem_of_initial h hc hi) hid
  rw [heq, declaredIn_scope h hc hi] at hnone
  cases hnone

theorem exists_initial_of_start {e : Option NodeId × NodeId} (he : e ∈ c.starts)
    (hd : e.1 ∉ c.defaulted.map some) : ∃ i ∈ f.initials, i.scope.id? = e.1 ∧ i.target = e.2 := by
  have ha := assembled_of_enforce h hc
  have hw := ha.wellFormed h
  have hstart := (Chart.startIn_eq_some_iff hw.once).2 he
  -- it is enough to find an arrow in the scope, since a scope starts in one state
  suffices hfound : ∃ i ∈ f.initials, i.scope.id? = e.1 by
    obtain ⟨i, hi, hid⟩ := hfound
    have hscope := initialOf_scope h hc hi
    rw [Chart.initialOf, hid, hstart] at hscope
    exact ⟨i, hi, hid, (Option.some.inj hscope).symm⟩
  rcases List.mem_cons.1 he with rfl | he
  · obtain ⟨i, hi, htop, -⟩ := ha.initial
    exact ⟨i, hi, by rw [htop]; rfl⟩
  · obtain ⟨x, hx, rfl⟩ := List.mem_map.1 he
    rcases ha.table.values x hx with ⟨q, hq, hid, -⟩ | ⟨s, hs, hid, u, hu, -, hscope, hk⟩
    · obtain ⟨i, hi, hscope, -⟩ := (ha.made q hq).initial
      exact ⟨i, hi, by rw [hscope, hw.id_region hq, hid]⟩
    · have hfull : ¬Childless f s := fun hless => hk (hless u hu (scope_eq_composite.1 hscope).1)
      have hsome : declaredIn f (.composite s.id) ≠ [] := fun hnone =>
        hd (List.mem_map_of_mem ((mem_defaulted_iff h hc).2 ⟨s, hs, hid, hnone, hfull⟩))
      obtain ⟨i, hi⟩ := List.exists_mem_of_ne_nil _ hsome
      obtain ⟨hi, hscope⟩ := mem_declaredIn.1 hi
      exact ⟨i, hi, by rw [hscope, ← hid]; rfl⟩

theorem nodup_scopes : (f.initials.map fun i => i.scope.id?).Nodup := by
  refine List.pairwise_map.2 (List.pairwise_iff_forall_sublist.2 fun {i j} hsub hid => ?_)
  have hi : i ∈ f.initials := hsub.subset (by simp)
  have hj : j ∈ f.initials := hsub.subset (by simp)
  have hscope := ((assembled_of_enforce h hc).wellFormed h).scope_inj
    (scope_mem_of_initial h hc hi) (scope_mem_of_initial h hc hj) hid
  have htwo := hsub.filter fun k => k.scope = i.scope
  rw [← declaredIn, declaredIn_scope h hc hi] at htwo
  simpa [hscope] using htwo.length_le

theorem starts_perm : (f.initials.map fun i => (i.scope.id?, i.target)).Perm
    (c.starts.filter fun e => e.1 ∉ c.defaulted.map some) := by
  have hw := (assembled_of_enforce h hc).wellFormed h
  have hleft : (f.initials.map fun i => (i.scope.id?, i.target)).Nodup := by
    refine .of_map Prod.fst ?_
    rw [List.map_map]
    exact nodup_scopes h hc
  have hright : (c.starts.filter fun e => e.1 ∉ c.defaulted.map some).Nodup :=
    hw.nodup_starts.of_map.filter _
  refine (List.perm_ext_iff_of_nodup hleft hright).2 fun e => ?_
  rw [List.mem_map, List.mem_filter, decide_eq_true_iff]
  constructor
  · rintro ⟨i, hi, rfl⟩
    exact ⟨(Chart.startIn_eq_some_iff hw.once).1 (initialOf_scope h hc hi),
      notMem_defaulted h hc hi⟩
  · rintro ⟨he, hd⟩
    obtain ⟨i, hi, hid, htarget⟩ := exists_initial_of_start h hc he hd
    exact ⟨i, hi, Prod.ext hid htarget⟩

end Starts

end Rules

theorem Chart.arrowsKept_of_parse {fallback : Fallback} {input : String} {c : Chart}
    (h : Chart.parse fallback input = .ok c) : ∃ es home, Event.scan input = .ok es ∧
      (standings [] es).map Prod.snd = es.filterMap Event.clause? ∧
      c.ArrowsKept home (standings [] es) := by
  obtain ⟨flat, full, hflat, hfull, henforce⟩ := stages_of_parse h
  obtain ⟨es, t, hs, ht, hf⟩ := ofText_ok hflat
  obtain ⟨home, hdrawn⟩ := drawn_ofBlocks (wellNamed_of_text hs ht) hf
  have hsound := hdrawn.sound.withHistory hfull
  have hc := Rules.enforce_firstChild hsound henforce
  have ha := assembled_of_enforce hsound hc
  obtain ⟨added, hstates, hadded⟩ := hdrawn.sound.exists_added hfull ha
  have hkept : full.initials = flat.initials ∧ full.finals = flat.finals := by
    obtain ⟨o, -, rfl⟩ := withHistory_ok hfull
    exact ⟨rfl, rfl⟩
  have htrans := hdrawn.sound.turned hfull ha
  rw [hdrawn.transitions, filterMap_transition?, ← BlockTree.standings_eq ht] at htrans
  have hfinals : c.finals = ((standings [] es).filterMap (Resolution.final? home)).foldl
      Resolution.addOnce [] := by
    rw [BlockTree.standings_eq ht, ← filterMap_final?, ← hdrawn.finals, ← hkept.2, ha.finals]
  refine ⟨es, home, hs, map_snd_standings [] es, ?_⟩
  constructor
  case meaning =>
    intro ref href x hx
    rw [BlockTree.standings_eq ht] at href
    obtain ⟨href, hx⟩ := mem_references_of_reads href hx
    exact hdrawn.denotes hstates hadded href hx
  case transitions => exact htrans
  case lines =>
    have hincreasing := pairwise_standings (Event.increasing_ofLines (by simp) hs).2 []
    rw [Chart.lines_of_turned htrans, List.pairwise_map]
    refine hincreasing.filterMap _ fun a b hab t ht u hu => ?_
    rwa [Resolution.line_of_transition? ht, Resolution.line_of_transition? hu]
  case starts =>
    rw [BlockTree.standings_eq ht, ← filterMap_start?, ← hdrawn.initials, ← hkept.1]
    exact Rules.starts_perm hsound hc
  case members =>
    intro ref href x hx
    rw [BlockTree.standings_eq ht] at href
    have hkey : (ref.1, x) ∈ declarations t.body :=
      List.mem_filterMap.2 ⟨_, mem_clausesOf.1 href, by simp [Entry.key?, hx]⟩
    obtain ⟨s, hs, hid, hname, hscope⟩ := hdrawn.exists_declared hkey
    exact ⟨s, hstates ▸ List.mem_append_left _ hs, hid, hname, hscope⟩
  case finals => rw [hfinals, Resolution.foldl_addOnce]
  case finals_once =>
    rw [hfinals]
    exact Resolution.nodup_foldl_addOnce .nil _

theorem Chart.arrowsKept_sample : Chart.parse .firstChild Sample.text = .ok Sample.chart ∧
    ∃ es home, Event.scan Sample.text = .ok es ∧
      (standings [] es).map Prod.snd = es.filterMap Event.clause? ∧
      Sample.chart.ArrowsKept home (standings [] es) :=
  ⟨Sample.parse_text, Chart.arrowsKept_of_parse Sample.parse_text⟩

end Statechart
