import Mathlib
import Statechart.Proofs.Rules

namespace Statechart

namespace Initials

variable {m : Initials} {x scope target : NodeId}

theorem lt_of_order_lt {a b : NodeId} (h : a.order b = .lt) : a.path < b.path := by
  unfold NodeId.order at h
  split at h
  · assumption
  · split at h <;> cases h

theorem lt_of_order_gt {a b : NodeId} (h : a.order b = .gt) : b.path < a.path := by
  unfold NodeId.order at h
  split at h
  · cases h
  · rename_i hlt
    split at h
    · cases h
    · rename_i hne
      refine lt_of_le_of_ne (not_lt.1 hlt) fun he => hne ?_
      cases a
      cases b
      exact congrArg NodeId.mk he.symm

theorem mem_keys_set : x ∈ (set scope target m).map Prod.fst ↔ x = scope ∨ x ∈ m.map Prod.fst := by
  induction m with
  | nil => simp [set]
  | cons e m ih =>
    obtain ⟨s, t⟩ := e
    cases h : scope.order s with
    | lt => simp [set, h]
    | eq =>
      obtain rfl := NodeId.eq_of_order_eq h
      simp [set, h]
    | gt =>
      simp only [set, h, List.map_cons, List.mem_cons, ih]
      exact or_left_comm

theorem mem_set {e : NodeId × NodeId} (h : e ∈ set scope target m) :
    e = (scope, target) ∨ e ∈ m := by
  induction m with
  | nil => simpa [set] using h
  | cons d m ih =>
    obtain ⟨s, t⟩ := d
    cases ho : scope.order s with
    | lt => simpa [set, ho] using h
    | eq =>
      simp only [set, ho, List.mem_cons] at h
      exact h.imp_right (List.mem_cons_of_mem _)
    | gt =>
      simp only [set, ho, List.mem_cons] at h
      rcases h with rfl | h
      · exact .inr List.mem_cons_self
      · exact (ih h).imp_right (List.mem_cons_of_mem _)

def Ordered (m : Initials) : Prop :=
  (m.map Prod.fst).Pairwise fun a b => a.path < b.path

theorem Ordered.set (h : m.Ordered) : (set scope target m).Ordered := by
  induction m with
  | nil => exact List.pairwise_singleton _ _
  | cons e m ih =>
    obtain ⟨s, t⟩ := e
    obtain ⟨hs, hm⟩ := List.pairwise_cons.1 h
    cases ho : scope.order s with
    | lt =>
      have hlt := lt_of_order_lt ho
      simp only [Initials.set, ho, Ordered]
      refine .cons (List.forall_mem_cons.2 ⟨hlt, fun x hx => hlt.trans (hs x hx)⟩) h
    | eq =>
      obtain rfl := NodeId.eq_of_order_eq ho
      simp only [Initials.set, ho, Ordered]
      exact .cons hs hm
    | gt =>
      have hlt := lt_of_order_gt ho
      simp only [Initials.set, ho, Ordered]
      refine .cons (fun x hx => ?_) (ih hm)
      rcases mem_keys_set.1 hx with rfl | hx
      · exact hlt
      · exact hs x hx

theorem Ordered.nodup (h : m.Ordered) : (m.map Prod.fst).Nodup :=
  h.imp fun hlt he => (he ▸ hlt).false

end Initials

def Region.slot (q : Region) : RegionSlot :=
  ⟨q.owner, q.index, q.id⟩

namespace Rules

variable {f : FlatChart} {fallback : Fallback} {s : State} {qs : List Region}

theorem mem_declaredIn {i : Initial} {scope : Scope} :
    i ∈ declaredIn f scope ↔ i ∈ f.initials ∧ i.scope = scope := by
  simp [declaredIn]

structure Made (f : FlatChart) (r : RegionSlot) (q : Region) : Prop where
  slot : q.slot = r
  members : q.members = (f.states.filter fun s =>
    s.parent = some q.owner && s.region = some q.index).map State.id
  initial : ∃ i ∈ f.initials, i.scope = .region q.owner q.index ∧ i.target = q.initial

theorem made_of_regionOf {r : RegionSlot} {q : Region} (h : regionOf f r = .ok q) : Made f r q := by
  obtain ⟨i, hi, rfl⟩ := regionOf_eq_ok.1 h
  have hmem : i ∈ declaredIn f (.region r.owner r.index) := hi ▸ List.mem_singleton_self i
  exact ⟨rfl, rfl, i, (mem_declaredIn.1 hmem).1, (mem_declaredIn.1 hmem).2, rfl⟩

structure Tabled (f : FlatChart) (qs : List Region) (made : List State) (m : Initials) : Prop where
  ordered : m.Ordered
  keys : ∀ x, x ∈ m.map Prod.fst ↔
    (∃ q ∈ qs, q.id = x) ∨ ∃ s ∈ made, s.id = x ∧ ¬Childless f s
  values : ∀ e ∈ m, (∃ q ∈ qs, q.id = e.1 ∧ q.initial = e.2) ∨ ∃ s ∈ made, s.id = e.1 ∧
    ∃ u ∈ f.states, u.id = e.2 ∧ u.scope = .composite s.id ∧ u.kind ≠ .history

theorem tabled_ofRegions (f : FlatChart) (qs : List Region) :
    Tabled f qs [] (ofRegions qs).nested := by
  unfold ofRegions
  induction qs using List.reverseRecOn with
  | nil => exact ⟨.nil, by simp, by simp⟩
  | append_singleton qs q ih =>
    rw [List.foldl_append, List.foldl_cons, List.foldl_nil]
    refine ⟨ih.ordered.set, fun x => ?_, fun e he => ?_⟩
    · rw [Initials.mem_keys_set, ih.keys]
      simp [or_comm, eq_comm]
    · rcases Initials.mem_set he with rfl | he
      · exact .inl ⟨q, by simp, rfl, rfl⟩
      · rcases ih.values e he with ⟨q', hq', hval⟩ | ⟨s, hs, -⟩
        · exact .inl ⟨q', by simp [hq'], hval⟩
        · cases hs

theorem chooseInitial_cases (h : f.Sound) (hs : s ∈ f.states) (hk : s.kind = .composite)
    {ch ch' : Choice} (hc : chooseInitial f fallback ch s = .ok ch') :
    (Childless f s ∧ ch' = ch) ∨ ∃ u ∈ f.states, u.scope = .composite s.id ∧ u.kind ≠ .history ∧
      ch'.nested = Initials.set s.id u.id ch.nested := by
  cases chooseInitial_eq_ok.1 hc with
  | declared i hi =>
    have hmem : i ∈ declaredIn f (.composite s.id) := hi ▸ List.mem_singleton_self i
    obtain ⟨hmem, hscope⟩ := mem_declaredIn.1 hmem
    obtain ⟨u, hu, hid, huscope, hkind⟩ := h.initials i hmem
    exact .inr ⟨u, hu, huscope.trans hscope, hkind, by rw [hid]⟩
  | childless _ hchild => exact .inl ⟨firstChild?_eq_none.1 hchild, rfl⟩
  | defaulted u _ hchild _ =>
    have hprop := List.find?_some hchild
    simp only [Bool.and_eq_true, decide_eq_true_eq] at hprop
    have hmem := List.mem_of_find?_eq_some hchild
    exact .inr ⟨u, hmem, h.nested.scope_of_parent hmem hs hk hprop.1, hprop.2, rfl⟩

theorem Tabled.step (h : f.Sound) {made : List State} {ch ch' : Choice} (hs : s ∈ f.states)
    (hk : s.kind = .composite) (ht : Tabled f qs made ch.nested)
    (hc : chooseInitial f fallback ch s = .ok ch') : Tabled f qs (made ++ [s]) ch'.nested := by
  have hvalues : ∀ e ∈ ch.nested, (∃ q ∈ qs, q.id = e.1 ∧ q.initial = e.2) ∨
      ∃ t ∈ made ++ [s], t.id = e.1 ∧
        ∃ u ∈ f.states, u.id = e.2 ∧ u.scope = .composite t.id ∧ u.kind ≠ .history := by
    intro e he
    rcases ht.values e he with hq | ⟨t, htm, hval⟩
    · exact .inl hq
    · exact .inr ⟨t, List.mem_append_left _ htm, hval⟩
  rcases chooseInitial_cases h hs hk hc with ⟨hless, rfl⟩ | ⟨u, hu, hscope, hkind, hset⟩
  · refine ⟨ht.ordered, fun x => ?_, hvalues⟩
    rw [ht.keys]
    simp [hless]
  · have hfull : ¬Childless f s := fun hless => hkind (hless u hu (scope_eq_composite.1 hscope).1)
    rw [hset]
    refine ⟨ht.ordered.set, fun x => ?_, fun e he => ?_⟩
    · rw [Initials.mem_keys_set, ht.keys]
      simp only [List.mem_append, List.mem_singleton, or_and_right, exists_or, exists_eq_left]
      rw [or_left_comm, or_comm (a := x = s.id)]
      simp [hfull, eq_comm]
    · rcases Initials.mem_set he with rfl | he
      · exact .inr ⟨s, by simp, rfl, u, hu, rfl, hscope, hkind⟩
      · exact hvalues e he

theorem tabled_of_foldlM (h : f.Sound) {choice : Choice}
    (hc : (composites f).foldlM (chooseInitial f fallback) (ofRegions qs) = .ok choice) :
    Tabled f qs (composites f) choice.nested := by
  refine foldlM_invariant (fun made ch => Tabled f qs made ch.nested) ?_ (tabled_ofRegions f qs) hc
  intro made s ch ch' hs ht hstep
  obtain ⟨hs, hk⟩ := List.mem_filter.1 hs
  exact ht.step h hs (by simpa using hk) hstep

structure Defaulted (f : FlatChart) (made : List State) (m : Initials) (d : NodeId × NodeId) :
    Prop where
  made : d.1 ∈ made.map State.id
  chosen : m.get? d.1 = some d.2
  first : ∃ u, firstChild? f d.1 = some u ∧ u.id = d.2

theorem defaulted_step {made : List State} {ch ch' : Choice}
    (hd : ∀ d ∈ ch.defaulted, Defaulted f made ch.nested d) (hnew : s.id ∉ made.map State.id)
    (hc : chooseInitial f fallback ch s = .ok ch') :
    ∀ d ∈ ch'.defaulted, Defaulted f (made ++ [s]) ch'.nested d := by
  have hmade : ∀ d ∈ ch.defaulted, d.1 ∈ (made ++ [s]).map State.id := by
    intro d hm
    rw [List.map_append]
    exact List.mem_append_left _ (hd d hm).made
  have hset : ∀ target, ∀ d ∈ ch.defaulted,
      Defaulted f (made ++ [s]) (ch.nested.set s.id target) d := by
    intro target d hm
    obtain ⟨hold, hchosen, hfirst⟩ := hd d hm
    have hne : d.1 ≠ s.id := fun he => hnew (he ▸ hold)
    exact ⟨hmade d hm, (Initials.get?_set_of_ne hne ..).trans hchosen, hfirst⟩
  cases chooseInitial_eq_ok.1 hc with
  | declared => exact hset _
  | childless => exact fun d hm => ⟨hmade d hm, (hd d hm).chosen, (hd d hm).first⟩
  | defaulted u _ hchild _ =>
    intro d hm
    rcases List.mem_append.1 hm with hm | hm
    · exact hset _ d hm
    · obtain rfl := List.mem_singleton.1 hm
      exact ⟨by simp, Initials.get?_set_self .., u, hchild, rfl⟩

theorem defaulted_of_foldlM (h : f.Sound) {choice : Choice}
    (hc : (composites f).foldlM (chooseInitial f fallback) (ofRegions qs) = .ok choice) :
    ∀ d ∈ choice.defaulted, Defaulted f (composites f) choice.nested d := by
  have hids : ((composites f).map State.id).Nodup :=
    h.nested.distinct.sublist (List.filter_sublist.map _)
  -- no composite is gone through twice, so the entry that one makes stays as it is
  refine foldlM_invariant (fun made ch => (made.map State.id).Nodup →
    ∀ d ∈ ch.defaulted, Defaulted f made ch.nested d) ?_ (by simp [ofRegions]) hc hids
  intro made s ch ch' _ hd hstep hnodup
  rw [List.map_append, List.nodup_append] at hnodup
  obtain ⟨hnodup, -, hdisjoint⟩ := hnodup
  exact defaulted_step (hd hnodup) (fun hm => hdisjoint _ hm _ (by simp) rfl) hstep

end Rules

end Statechart
