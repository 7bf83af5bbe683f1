import Mathlib
import Statechart.Proofs.NameResolution
import Statechart.Proofs.TextOrder
import Statechart.Proofs.WellFormed

/-!
The order of the states of a chart: that of their first mentions in the text, but for the two ends
of an arrow when its target is declared ahead of its source.
-/

namespace Statechart

open Resolution

def Entry.mentions (home : Place → String → Place) : Entry → List (NodeId × Nat)
  | .clause p c =>
    match c.item with
    | .declare name _ | .initial name => [(.child p.id? name, c.line)]
    | item => item.names.map fun x => (idAt home p x, c.line)
  | .head p o _ => [(.child p.id? o.item.name, o.line)]
  | .region _ _ _ => []

def mentions (b : Block) (home : Place → String → Place) : List (NodeId × Nat) :=
  (entriesOf [] b).flatMap (Entry.mentions home)

def declaredIds (b : Block) : List NodeId :=
  (declarations b).map keyId

/-- An arrow from `t` to `s` is the first line to mention either, and `s` is declared ahead of `t`, or
    `t` never is. -/
def Swapped (b : Block) (home : Place → String → Place) (s t : State) : Prop :=
  ∃ p c source target label, (p, c) ∈ references b ∧ c.item = .transition source target label ∧
    t.id = idAt home p source ∧ s.id = idAt home p target ∧ s.line = c.line ∧ t.line = c.line ∧
    (declaredIds b).idxOf s.id < (declaredIds b).idxOf t.id

def Before (b : Block) (home : Place → String → Place) (s t : State) : Prop :=
  Swapped b home s t ∨ ¬Swapped b home t s ∧
    ((mentions b home).map Prod.fst).idxOf s.id < ((mentions b home).map Prod.fst).idxOf t.id

structure InTextOrder (b : Block) (home : Place → String → Place) (ss : List State) : Prop where
  increasing : (mentions b home).Pairwise fun m n => m.2 ≤ n.2
  mem_ids : ∀ id, id ∈ ss.map State.id ↔ id ∈ (mentions b home).map Prod.fst
  first : ∀ s ∈ ss, (s.id, s.line) ∈ mentions b home ∧
    ∀ n, (s.id, n) ∈ mentions b home → s.line ≤ n
  order : ss.Pairwise (Before b home)

section Positions

variable {α : Type} [BEq α] [LawfulBEq α] {l pre post : List α} {a a' : α}

theorem idxOf_lt_of_notMem (ha : a ∈ l) (ha' : a' ∉ l) (l' : List α) :
    (l ++ l').idxOf a < (l ++ l').idxOf a' := by
  have hlt := List.idxOf_lt_length_of_mem ha
  rw [List.idxOf_append_of_mem ha, List.idxOf_append_of_notMem ha']
  omega

theorem idxOf_append_lt_iff (hne : a ≠ a') (ha : a ∉ pre) (ha' : a' ∉ pre) :
    (l ++ (pre ++ a :: a' :: post)).idxOf a < (l ++ (pre ++ a :: a' :: post)).idxOf a' ↔
      ¬l.idxOf a' < l.idxOf a := by
  by_cases hl : a ∈ l
  · by_cases hl' : a' ∈ l
    · have hidx : l.idxOf a ≠ l.idxOf a' := fun he => hne ((List.idxOf_inj hl).1 he)
      rw [List.idxOf_append_of_mem hl, List.idxOf_append_of_mem hl']
      omega
    · have hlt := idxOf_lt_of_notMem hl hl' (pre ++ a :: a' :: post)
      have hle := List.idxOf_lt_length_of_mem hl
      rw [List.idxOf_eq_length hl']
      omega
  · by_cases hl' : a' ∈ l
    · have hlt := idxOf_lt_of_notMem hl' hl (pre ++ a :: a' :: post)
      have hle := List.idxOf_lt_length_of_mem hl'
      rw [List.idxOf_eq_length hl]
      omega
    · have hself : a ∉ l ++ pre := by simp [hl, ha]
      have hother : a' ∉ l ++ pre ++ [a] := by simp [hl', ha', hne.symm]
      have hlt := idxOf_lt_of_notMem (List.mem_append_right _ List.mem_cons_self) hother (a' :: post)
      rw [List.idxOf_eq_length hl, List.idxOf_eq_length hl']
      simpa using hlt

end Positions

section Mentions

variable {home : Place → String → Place} {es : List Entry} {x : Entry}

theorem mem_trace (es : List Entry) {m : Mention} : m ∈ trace home es ↔ ∃ x ∈ es, m ∈ trace home [x] := by
  simp only [trace, List.mem_append, List.mem_flatMap, List.mem_filterMap, List.mem_singleton,
    exists_eq_left]
  constructor
  · rintro ((⟨x, hx, h⟩ | ⟨ref, ⟨x, hx, hr⟩, h⟩) | ⟨ref, ⟨x, hx, hr⟩, h⟩)
    · exact ⟨x, hx, .inl (.inl h)⟩
    · exact ⟨x, hx, .inl (.inr ⟨ref, hr, h⟩)⟩
    · exact ⟨x, hx, .inr ⟨ref, hr, h⟩⟩
  · rintro ⟨x, hx, (h | ⟨ref, hr, h⟩) | ⟨ref, hr, h⟩⟩
    · exact .inl (.inl ⟨x, hx, h⟩)
    · exact .inl (.inr ⟨ref, ⟨x, hx, hr⟩, h⟩)
    · exact .inr ⟨ref, ⟨x, hx, hr⟩, h⟩

theorem map_toId_trace (x : Entry) : (trace home [x]).map Mention.toId = x.mentions home := by
  cases x with
  | clause p c =>
    cases hi : c.item <;>
      simp [trace, Entry.declaration?, Entry.reference?, readings, notings, reads, noted,
        Entry.mentions, Clause.names, Mention.toId, keyId, idAt, hi]
  | head | region => rfl

theorem mem_trace_iff {m : NodeId × Nat} :
    m ∈ (trace home es).map Mention.toId ↔ m ∈ es.flatMap (Entry.mentions home) := by
  simp only [List.mem_flatMap, ← map_toId_trace, List.mem_map, mem_trace es]
  constructor
  · rintro ⟨m', ⟨x, hx, hm⟩, rfl⟩
    exact ⟨x, hx, m', hm, rfl⟩
  · rintro ⟨x, hx, m', hm, rfl⟩
    exact ⟨m', ⟨x, hx, hm⟩, rfl⟩

theorem mem_mentions_of_readings {id : NodeId}
    (h : id ∈ ((es.filterMap Entry.reference?).flatMap (readings home)).map fun m => keyId m.1) :
    id ∈ (es.flatMap (Entry.mentions home)).map Prod.fst := by
  obtain ⟨m, hm, rfl⟩ := List.mem_map.1 h
  have hmem : m.toId ∈ (trace home es).map Mention.toId :=
    List.mem_map_of_mem (List.mem_append_left _ (List.mem_append_right _ hm))
  exact List.mem_map_of_mem (mem_trace_iff.1 hmem)

theorem line?_of_mem_mentions {m : NodeId × Nat} (h : m ∈ x.mentions home) :
    x.line? = some m.2 := by
  cases x with
  | clause p c =>
    have hline : m.2 = c.line := by
      cases hi : c.item with
      | transition source target label =>
        simp only [Entry.mentions, hi, Clause.names, List.map_cons, List.map_nil, List.mem_cons,
          List.not_mem_nil, or_false] at h
        rcases h with rfl | rfl <;> rfl
      | declare | initial | final | description | note =>
        simp only [Entry.mentions, hi, Clause.names, List.map_cons, List.map_nil,
          List.mem_singleton] at h
        rw [h]
    rw [hline]
    rfl
  | head p o kind =>
    rw [List.mem_singleton.1 h]
    rfl
  | region => cases h

theorem transition_of_mentions {m m' : NodeId × Nat} (h : m ∈ x.mentions home)
    (h' : m' ∈ x.mentions home) (hne : m.1 ≠ m'.1) : ∃ p c source target label, x = .clause p c ∧
      c.item = .transition source target label ∧
      ((m.1 = idAt home p source ∧ m'.1 = idAt home p target) ∨
        (m'.1 = idAt home p source ∧ m.1 = idAt home p target)) := by
  cases x with
  | clause p c =>
    cases hi : c.item with
    | transition source target label =>
      refine ⟨p, c, source, target, label, rfl, hi, ?_⟩
      simp only [Entry.mentions, hi, Clause.names, List.map_cons, List.map_nil, List.mem_cons,
        List.not_mem_nil, or_false] at h h'
      rcases h with rfl | rfl <;> rcases h' with rfl | rfl <;> simp_all
    | declare | initial | final | description | note =>
      simp only [Entry.mentions, hi, Clause.names, List.map_cons, List.map_nil,
        List.mem_singleton] at h h'
      exact absurd (h.trans h'.symm ▸ rfl) hne
  | head p o kind =>
    have heq : m = m' := (List.mem_singleton.1 h).trans (List.mem_singleton.1 h').symm
    exact absurd (heq ▸ rfl) hne
  | region => cases h

end Mentions

section Order

variable {b : Block} {home : Place → String → Place} {u v : NodeId} {n : Nat}

theorem lines_of_mentions (home : Place → String → Place)
    (h : ((entriesOf [] b).filterMap Entry.line?).Pairwise (· < ·)) :
    (entriesOf [] b).Pairwise fun x y =>
      ∀ m ∈ x.mentions home, ∀ m' ∈ y.mentions home, m.2 < m'.2 := by
  refine (List.pairwise_filterMap.1 h).imp ?_
  intro x y hlt m hm m' hm'
  exact hlt _ (line?_of_mem_mentions hm) _ (line?_of_mem_mentions hm')

theorem increasing_mentions (home : Place → String → Place)
    (h : ((entriesOf [] b).filterMap Entry.line?).Pairwise (· < ·)) :
    (mentions b home).Pairwise fun m m' => m.2 ≤ m'.2 := by
  refine List.pairwise_flatMap.2 ⟨fun x _ => List.pairwise_of_forall_mem_list ?_, ?_⟩
  · intro m hm m' hm'
    have heq := (line?_of_mem_mentions hm).symm.trans (line?_of_mem_mentions hm')
    exact (Option.some.inj heq).le
  · exact (lines_of_mentions home h).imp fun hlt m hm m' hm' => (hlt m hm m' hm').le

theorem idxOf_lt_of_line_lt {ms : List (NodeId × Nat)} (h : ms.Pairwise fun m m' => m.2 ≤ m'.2)
    (hu : (u, n) ∈ ms) (hv : ∀ k, (v, k) ∈ ms → n < k) :
    (ms.map Prod.fst).idxOf u < (ms.map Prod.fst).idxOf v := by
  obtain ⟨pre, post, rfl⟩ := List.append_of_mem hu
  have hnot : v ∉ (pre ++ [(u, n)]).map Prod.fst := by
    intro hmem
    obtain ⟨m, hm, rfl⟩ := List.mem_map.1 hmem
    have hlt := hv m.2 (by rcases List.mem_append.1 hm with hm | hm <;> simp_all)
    rcases List.mem_append.1 hm with hm | hm
    · have hle := (List.pairwise_append.1 h).2.2 m hm (u, n) List.mem_cons_self
      exact absurd hle (not_le.2 hlt)
    · rw [List.mem_singleton.1 hm] at hlt
      exact lt_irrefl n hlt
  have hself : u ∈ (pre ++ [(u, n)]).map Prod.fst := by simp
  have hlt := idxOf_lt_of_notMem hself hnot (post.map Prod.fst)
  simpa using hlt

structure Arrow (b : Block) (home : Place → String → Place) (u v : NodeId) (pre : List Entry)
    (p : Place) (c : Located Clause) (post : List Entry) : Prop where
  entries : entriesOf [] b = pre ++ .clause p c :: post
  ends : ∃ source target label, c.item = .transition source target label ∧
    u = idAt home p source ∧ v = idAt home p target
  source : u ∉ (pre.flatMap (Entry.mentions home)).map Prod.fst
  target : v ∉ (pre.flatMap (Entry.mentions home)).map Prod.fst
  distinct : u ≠ v

namespace Arrow

variable {pre post : List Entry} {p : Place} {c : Located Clause}

theorem mem_references (h : Arrow b home u v pre p c post) : (p, c) ∈ references b := by
  obtain ⟨source, target, label, hi, -, -⟩ := h.ends
  refine List.mem_filterMap.2 ⟨.clause p c, by simp [h.entries], ?_⟩
  simp [Entry.reference?, hi]

theorem idxOf_lt (h : Arrow b home u v pre p c post) :
    ((mentions b home).map Prod.fst).idxOf u < ((mentions b home).map Prod.fst).idxOf v := by
  obtain ⟨source, target, label, hi, hu, hv⟩ := h.ends
  have hmentions : (mentions b home).map Prod.fst =
      [] ++ ((pre.flatMap (Entry.mentions home)).map Prod.fst ++
        u :: v :: (post.flatMap (Entry.mentions home)).map Prod.fst) := by
    simp [mentions, h.entries, Entry.mentions, hi, Clause.names, hu, hv]
  rw [hmentions, idxOf_append_lt_iff h.distinct h.source h.target]
  simp

theorem keys_trace (h : Arrow b home u v pre p c post) :
    ∃ rest, ((trace home (entriesOf [] b)).map Mention.toId).map Prod.fst = declaredIds b ++
      (((pre.filterMap Entry.reference?).flatMap (readings home)).map (fun m => keyId m.1) ++
        u :: v :: rest) := by
  obtain ⟨source, target, label, hi, hu, hv⟩ := h.ends
  have hreadings : (references b).flatMap (readings home) =
      (pre.filterMap Entry.reference?).flatMap (readings home) ++ readings home (p, c) ++
        (post.filterMap Entry.reference?).flatMap (readings home) := by
    simp [references, h.entries, Entry.reference?, hi]
  have hends : (readings home (p, c)).map (fun m => keyId m.1) = [u, v] := by
    simp [readings, reads, hi, keyId, idAt, hu, hv]
  have hdeclared : ((entriesOf [] b).filterMap Entry.declaration?).map (fun m => keyId m.1) =
      declaredIds b := by
    rw [declaredIds, declarations, ← map_fst_declaration?, List.map_map]
    rfl
  have hmap : ((trace home (entriesOf [] b)).map Mention.toId).map Prod.fst =
      (trace home (entriesOf [] b)).map (fun m => keyId m.1) := List.map_map
  refine ⟨((post.filterMap Entry.reference?).flatMap (readings home) ++
    (references b).flatMap (notings home)).map fun m => keyId m.1, ?_⟩
  rw [hmap, trace, hreadings, List.map_append, List.map_append, List.map_append, List.map_append,
    hdeclared, hends]
  simp

theorem idxOf_trace_lt_iff (h : Arrow b home u v pre p c post) :
    (((trace home (entriesOf [] b)).map Mention.toId).map Prod.fst).idxOf u <
      (((trace home (entriesOf [] b)).map Mention.toId).map Prod.fst).idxOf v ↔
      ¬(declaredIds b).idxOf v < (declaredIds b).idxOf u := by
  obtain ⟨rest, hkeys⟩ := h.keys_trace
  rw [hkeys]
  exact idxOf_append_lt_iff h.distinct (fun hu => h.source (mem_mentions_of_readings hu))
    fun hv => h.target (mem_mentions_of_readings hv)

end Arrow

theorem exists_entry (h : ((entriesOf [] b).filterMap Entry.line?).Pairwise (· < ·))
    (hu : (u, n) ∈ mentions b home) : ∃ pre x post, entriesOf [] b = pre ++ x :: post ∧
      (∀ m ∈ pre.flatMap (Entry.mentions home), m.2 < n) ∧
      ∀ w, (w, n) ∈ mentions b home → (w, n) ∈ x.mentions home := by
  obtain ⟨x, hx, hux⟩ := List.mem_flatMap.1 hu
  obtain ⟨pre, post, heq⟩ := List.append_of_mem hx
  have hlines := lines_of_mentions home h
  rw [heq] at hlines
  obtain ⟨-, hpost, hpre⟩ := List.pairwise_append.1 hlines
  have hbefore : ∀ m ∈ pre.flatMap (Entry.mentions home), m.2 < n := by
    intro m hm
    obtain ⟨z, hz, hmz⟩ := List.mem_flatMap.1 hm
    exact hpre z hz x List.mem_cons_self m hmz _ hux
  refine ⟨pre, x, post, heq, hbefore, fun w hw => ?_⟩
  rw [mentions, heq, List.flatMap_append, List.flatMap_cons, List.mem_append, List.mem_append] at hw
  rcases hw with hw | hw | hw
  · exact absurd (hbefore _ hw) (lt_irrefl n)
  · exact hw
  · obtain ⟨z, hz, hmz⟩ := List.mem_flatMap.1 hw
    exact absurd ((List.pairwise_cons.1 hpost).1 z hz _ hux _ hmz) (lt_irrefl n)

theorem exists_arrow (h : ((entriesOf [] b).filterMap Entry.line?).Pairwise (· < ·))
    (hu : (u, n) ∈ mentions b home) (hv : (v, n) ∈ mentions b home) (hne : u ≠ v)
    (hleast : ∀ k, (u, k) ∈ mentions b home ∨ (v, k) ∈ mentions b home → n ≤ k) :
    ∃ pre p c post, c.line = n ∧
      (Arrow b home u v pre p c post ∨ Arrow b home v u pre p c post) := by
  obtain ⟨pre, x, post, heq, hbefore, hall⟩ := exists_entry h hu
  have hnot : ∀ w, (∀ k, (w, k) ∈ mentions b home → n ≤ k) →
      w ∉ (pre.flatMap (Entry.mentions home)).map Prod.fst := by
    intro w hw hmem
    obtain ⟨m, hm, rfl⟩ := List.mem_map.1 hmem
    have hmentions : m ∈ mentions b home := by
      rw [mentions, heq, List.flatMap_append]
      exact List.mem_append_left _ hm
    exact absurd (hw m.2 hmentions) (not_le.2 (hbefore m hm))
  have hnu := hnot u fun k hk => hleast k (.inl hk)
  have hnv := hnot v fun k hk => hleast k (.inr hk)
  obtain ⟨p, c, source, target, label, rfl, hi, hends⟩ :=
    transition_of_mentions (hall u hu) (hall v hv) hne
  refine ⟨pre, p, c, post, Option.some.inj (line?_of_mem_mentions (hall u hu)), ?_⟩
  rcases hends with hends | hends
  · exact .inl ⟨heq, ⟨source, target, label, hi, hends⟩, hnu, hnv, hne⟩
  · exact .inr ⟨heq, ⟨source, target, label, hi, hends⟩, hnv, hnu, hne.symm⟩

theorem Listed.inTextOrder {ss : List State}
    (h : Listed ((trace home (entriesOf [] b)).map Mention.toId) ss)
    (hlines : ((entriesOf [] b).filterMap Entry.line?).Pairwise (· < ·)) :
    InTextOrder b home ss := by
  have hfirst : ∀ s ∈ ss, (s.id, s.line) ∈ mentions b home ∧
      ∀ n, (s.id, n) ∈ mentions b home → s.line ≤ n := by
    intro s hs
    obtain ⟨hline, hleast⟩ := h.first s hs
    exact ⟨mem_trace_iff.1 hline, fun n hn => hleast n (mem_trace_iff.2 hn)⟩
  have hincreasing := increasing_mentions home hlines
  refine ⟨hincreasing, fun id => ?_, hfirst, h.order.imp_of_mem fun {s t} hs ht hst => ?_⟩
  · rw [h.mem_ids, List.mem_map, List.mem_map]
    simp only [mem_trace_iff]
    rfl
  obtain ⟨hsline, hsleast⟩ := hfirst s hs
  obtain ⟨htline, htleast⟩ := hfirst t ht
  rcases hst with hlt | ⟨hline, hidx⟩
  · refine .inr ⟨?_, idxOf_lt_of_line_lt hincreasing hsline fun k hk => hlt.trans_le (htleast k hk)⟩
    rintro ⟨_, c, _, _, _, -, -, -, -, htc, hsc, -⟩
    omega
  · -- only an arrow can be the first line to mention both
    have hne : s.id ≠ t.id := fun he => (he ▸ hidx).false
    obtain ⟨pre, p, c, post, hc, harrow | harrow⟩ := exists_arrow hlines hsline (hline ▸ htline) hne
      fun k hk => hk.elim (hsleast k) (hline ▸ htleast k)
    · refine .inr ⟨?_, harrow.idxOf_lt⟩
      rintro ⟨_, _, _, _, _, -, -, -, -, -, -, hlt⟩
      exact harrow.idxOf_trace_lt_iff.1 hidx hlt
    · obtain ⟨source, target, label, hi, hsource, htarget⟩ := harrow.ends
      refine .inl ⟨p, c, source, target, label, harrow.mem_references, hi, hsource, htarget,
        hc.symm, hline ▸ hc.symm, ?_⟩
      by_contra hlt
      have hback := harrow.idxOf_trace_lt_iff.2 hlt
      omega

end Order

namespace Drawn

variable {b : Block} {home : Place → String → Place} {f g : FlatChart} {fallback : Fallback}
  {c : Chart}

theorem inTextOrder (h : Drawn b home f)
    (hlines : ((entriesOf [] b).filterMap Entry.line?).Pairwise (· < ·)) :
    InTextOrder b home f.states := by
  obtain ⟨bs, htraced, hstates⟩ := h.order
  have hids : (bs.map Binding.id).Nodup := by
    have hdistinct := h.wellNested.distinct
    rw [hstates, List.map_map] at hdistinct
    exact ((Bindings.sortByLine_perm bs).map Binding.id).nodup_iff.1 hdistinct
  rw [hstates]
  exact (htraced.listed hids).inTextOrder hlines

theorem order_withHistory (h : Drawn b home f) (ho : f.states.Pairwise (Before b home))
    (hg : f.withHistory = .ok g) : (∀ v ∈ g.states, v.kind ≠ .history → v ∈ f.states) ∧
      g.states.Pairwise fun s t => s.kind ≠ .history → t.kind ≠ .history → Before b home s t := by
  obtain ⟨o, hout, rfl⟩ := withHistory_ok hg
  have hstates := h.sound.states_eq hout
  have hnew : ∀ v ∈ History.newcomers (f.states.map State.id) (History.calls f.states f.notes),
      v.kind = .history := fun v hv => (History.mem_newcomers hv).1
  refine ⟨fun v hv hk => ?_, ?_⟩
  · change v ∈ o.states at hv
    rw [hstates] at hv
    exact (List.mem_append.1 hv).resolve_right fun hv => hk (hnew v hv)
  · change o.states.Pairwise _
    rw [hstates, List.pairwise_append]
    refine ⟨ho.imp fun hst _ _ => hst, ?_, fun s _ t ht _ hk => absurd (hnew t ht) hk⟩
    exact List.pairwise_of_forall_mem_list fun s hs t _ hk => absurd (hnew s hs) hk

theorem first_of_defaulted (h : Drawn b home f) (ho : f.states.Pairwise (Before b home))
    (hg : f.withHistory = .ok g) (hc : Rules.enforce fallback g = .ok c) :
    ∀ x ∈ c.defaulted, ∃ u ∈ f.states, c.nested.get? x = some u.id ∧ u.parent = some x ∧
      u.kind ≠ .history ∧ ∀ v ∈ c.states, v.parent = some x → v.kind ≠ .history → v ≠ u →
        v ∈ f.states ∧ Before b home u v := by
  have hsound := h.sound.withHistory hg
  obtain ⟨top, regions, choice, roots, -, -, hch, -, rfl⟩ := Rules.enforce_ok hsound hc
  obtain ⟨hold, horder⟩ := h.order_withHistory ho hg
  intro x hx
  obtain ⟨d, hd, rfl⟩ := List.mem_map.1 hx
  obtain ⟨-, hchosen, u, hu, hid⟩ := Rules.defaulted_of_foldlM hsound hch d hd
  obtain ⟨hp, earlier, later, heq, hearlier⟩ := List.find?_eq_some_iff_append.1 hu
  obtain ⟨hparent, hkind⟩ : u.parent = some d.1 ∧ u.kind ≠ .history := by simpa using hp
  refine ⟨u, hold u (heq ▸ by simp) hkind, hid ▸ hchosen, hparent, hkind, ?_⟩
  intro v hv hvp hvk hne
  refine ⟨hold v hv hvk, ?_⟩
  have hlater : v ∈ later := by
    change v ∈ g.states at hv
    rw [heq] at hv
    rcases List.mem_append.1 hv with hv | hv
    · have hnot := hearlier v hv
      simp [hvp, hvk] at hnot
    · exact (List.mem_cons.1 hv).resolve_left hne
  rw [heq] at horder
  exact (List.pairwise_cons.1 (List.pairwise_append.1 horder).2.1).1 v hlater hkind hvk

end Drawn

theorem exists_inTextOrder {input : String} {es : List (Located Event)} {t : BlockTree}
    {f : FlatChart} (hs : Event.scan input = .ok es) (ht : BlockTree.ofEvents es = .ok t)
    (hf : FlatChart.ofBlocks t = .ok f) : ∃ home, Drawn t.body home f ∧
      InTextOrder t.body home f.states ∧
      ∀ fallback c, Chart.parse fallback input = .ok c → ∀ x ∈ c.defaulted, ∃ u ∈ f.states,
        c.nested.get? x = some u.id ∧ u.parent = some x ∧ u.kind ≠ .history ∧
          ∀ v ∈ c.states, v.parent = some x → v.kind ≠ .history → v ≠ u →
            v ∈ f.states ∧ Before t.body home u v := by
  obtain ⟨home, h⟩ := drawn_ofBlocks (wellNamed_of_text hs ht) hf
  have horder := h.inTextOrder (increasing_lines_of_text hs ht)
  refine ⟨home, h, horder, fun fallback c hc => ?_⟩
  obtain ⟨flat, full, hflat, hfull, henforce⟩ := stages_of_parse hc
  have htext : FlatChart.ofText input = .ok f := bind_ok.2 ⟨es, hs, bind_ok.2 ⟨t, ht, hf⟩⟩
  obtain rfl : flat = f := Except.ok.inj (hflat.symm.trans htext)
  exact h.first_of_defaulted horder.order hfull henforce

theorem exists_inTextOrder_sample : Event.scan Sample.text = .ok Sample.events ∧
    BlockTree.ofEvents Sample.events = .ok Sample.tree ∧
    FlatChart.ofBlocks Sample.tree = .ok Sample.flat ∧
    Chart.parse .firstChild Sample.text = .ok Sample.chart ∧
    ∃ home, Drawn Sample.tree.body home Sample.flat ∧
      InTextOrder Sample.tree.body home Sample.flat.states ∧
      ∃ u ∈ Sample.flat.states, Sample.chart.nested.get? ⟨"On"⟩ = some u.id ∧
        u.parent = some ⟨"On"⟩ ∧ u.kind ≠ .history ∧
        ∀ v ∈ Sample.chart.states, v.parent = some ⟨"On"⟩ → v.kind ≠ .history → v ≠ u →
          v ∈ Sample.flat.states ∧ Before Sample.tree.body home u v := by
  obtain ⟨home, hdrawn, horder, hdefault⟩ :=
    exists_inTextOrder Sample.scan_text Sample.ofEvents_events Sample.ofBlocks_tree
  exact ⟨Sample.scan_text, Sample.ofEvents_events, Sample.ofBlocks_tree, Sample.parse_text, home,
    hdrawn, horder, hdefault .firstChild Sample.chart Sample.parse_text ⟨"On"⟩
      List.mem_cons_self⟩

namespace Backward

/-- A text with an arrow whose target alone is declared, further down. -/
def text : String :=
  "[*] --> On\nstate On \x7b\n  A --> B\n  state B\n\x7d"

def events : List (Located Event) :=
  [⟨.clause (.initial "On"), 1, "[*] --> On"⟩,
    ⟨.opening ⟨"On", none⟩, 2, "state On \x7b"⟩,
    ⟨.clause (.transition "A" "B" none), 3, "A --> B"⟩,
    ⟨.clause (.declare "B" none), 4, "state B"⟩,
    ⟨.close, 5, "\x7d"⟩]

def tree : BlockTree where
  body :=
    [.clause ⟨.initial "On", 1, "[*] --> On"⟩,
      .composite ⟨⟨"On", none⟩, 2, "state On \x7b"⟩
        [.clause ⟨.transition "A" "B" none, 3, "A --> B"⟩,
          .clause ⟨.declare "B" none, 4, "state B"⟩] []]
  direction := none

def flat : FlatChart where
  states :=
    [⟨"On", ⟨"On"⟩, none, none, .composite, none, 1⟩,
      ⟨"B", ⟨"On/B"⟩, some ⟨"On"⟩, none, .simple, none, 3⟩,
      ⟨"A", ⟨"On/A"⟩, some ⟨"On"⟩, none, .simple, none, 3⟩]
  regions := []
  transitions := [⟨⟨"On/A"⟩, ⟨"On/B"⟩, .empty, 3⟩]
  initials := [⟨.top, ⟨"On"⟩, 1⟩]
  finals := []
  notes := []
  remarks := []
  direction := none

theorem lines_text : (Text.linesOf text).map Text.trimmed = events.map Located.text := by
  decide +kernel

theorem scan_text : Event.scan text = .ok events := by
  rw [Event.scan, lines_text]
  exact Event.ofLines_of_reads rfl (by decide +kernel)

theorem ofBlocks_tree : FlatChart.ofBlocks tree = .ok flat := by
  rfl

theorem idxOf_mentions {home : Place → String → Place} (h : Drawn tree.body home flat) :
    ((mentions tree.body home).map Prod.fst).idxOf ⟨"On/A"⟩ <
      ((mentions tree.body home).map Prod.fst).idxOf ⟨"On/B"⟩ := by
  have htransitions : [(⟨⟨"On/A"⟩, ⟨"On/B"⟩, .empty, 3⟩ : Transition)] =
      [⟨idAt home [.body "On"] "A", idAt home [.body "On"] "B", .empty, 3⟩] := h.transitions
  have hends := List.singleton_inj.1 htransitions
  have hmentions : (mentions tree.body home).map Prod.fst =
      [⟨"On"⟩, ⟨"On"⟩, idAt home [.body "On"] "A", idAt home [.body "On"] "B", ⟨"On/B"⟩] := rfl
  rw [hmentions, ← (Transition.mk.inj hends).1, ← (Transition.mk.inj hends).2.1]
  decide +kernel

end Backward

/-- The target of an arrow may come before the source, and be the initial state for it. -/
theorem target_before_source : Event.scan Backward.text = .ok Backward.events ∧
    BlockTree.ofEvents Backward.events = .ok Backward.tree ∧
    FlatChart.ofBlocks Backward.tree = .ok Backward.flat ∧
    (∃ c, Chart.parse .firstChild Backward.text = .ok c ∧ c.defaulted = [⟨"On"⟩] ∧
      c.nested.get? ⟨"On"⟩ = some ⟨"On/B"⟩) ∧
    (∃ home, Drawn Backward.tree.body home Backward.flat) ∧
    ∀ home, Drawn Backward.tree.body home Backward.flat →
      ((mentions Backward.tree.body home).map Prod.fst).idxOf ⟨"On/A"⟩ <
          ((mentions Backward.tree.body home).map Prod.fst).idxOf ⟨"On/B"⟩ ∧
        ¬Backward.flat.states.Pairwise fun s t =>
          ((mentions Backward.tree.body home).map Prod.fst).idxOf s.id <
            ((mentions Backward.tree.body home).map Prod.fst).idxOf t.id := by
  have hflat : FlatChart.ofText Backward.text = .ok Backward.flat :=
    bind_ok.2 ⟨_, Backward.scan_text, bind_ok.2 ⟨_, rfl, Backward.ofBlocks_tree⟩⟩
  refine ⟨Backward.scan_text, rfl, Backward.ofBlocks_tree, ?_,
    drawn_ofBlocks (wellNamed_of_text Backward.scan_text rfl) Backward.ofBlocks_tree,
    fun home h => ?_⟩
  · unfold Chart.parse
    rw [hflat]
    exact ⟨_, rfl, rfl, rfl⟩
  · have hlt := Backward.idxOf_mentions h
    refine ⟨hlt, fun hp => ?_⟩
    obtain ⟨-, hrest⟩ := List.pairwise_cons.1 hp
    exact absurd ((List.pairwise_cons.1 hrest).1 _ List.mem_cons_self) hlt.asymm

end Statechart
