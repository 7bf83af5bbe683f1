import Mathlib
import Statechart.Nesting
import Statechart.Proofs.Run

namespace Statechart

theorem firstRepeat_eq_none {seen as : List NodeId} :
    firstRepeat seen as = none ↔ as.Nodup ∧ ∀ a ∈ as, a ∉ seen := by
  induction as generalizing seen with
  | nil => simp [firstRepeat]
  | cons a as ih =>
    by_cases ha : a ∈ seen
    · simp [firstRepeat, ha]
    · have hsplit : (∀ b ∈ as, b ∉ a :: seen) ↔ a ∉ as ∧ ∀ b ∈ as, b ∉ seen := by
        simp only [List.mem_cons, not_or, forall_and]
        exact and_congr_left' ⟨fun h hm => h a hm rfl, fun h b hb hba => h (hba ▸ hb)⟩
      rw [firstRepeat, if_neg ha, ih, hsplit, List.nodup_cons, List.forall_mem_cons]
      tauto

theorem flatMap_filter_perm {α κ : Type} [DecidableEq κ] (key : α → κ) {ks : List κ}
    (hk : ks.Nodup) {as : List α} (h : ∀ a ∈ as, key a ∈ ks) :
    (ks.flatMap fun k => as.filter fun a => key a = k).Perm as := by
  induction ks generalizing as with
  | nil =>
    have has : as = [] := List.eq_nil_iff_forall_not_mem.2 fun a ha => by simpa using h a ha
    simp [has]
  | cons k ks ih =>
    obtain ⟨hnot, hk⟩ := List.nodup_cons.1 hk
    have hrest : (ks.flatMap fun j => as.filter fun a => key a = j) =
        ks.flatMap fun j => (as.filter fun a => !decide (key a = k)).filter fun a => key a = j := by
      refine List.flatMap_congr fun j hj => ?_
      rw [List.filter_filter]
      refine List.filter_congr fun a _ => ?_
      have hjk : j ≠ k := fun hjk => hnot (hjk ▸ hj)
      by_cases ha : key a = j <;> simp [ha, hjk]
    rw [List.flatMap_cons, hrest]
    have hkeys : ∀ a ∈ as.filter fun a => !decide (key a = k), key a ∈ ks := by
      intro a ha
      obtain ⟨ha, hak⟩ := List.mem_filter.1 ha
      have hne : key a ≠ k := by simpa using hak
      exact (List.mem_cons.1 (h a ha)).resolve_left hne
    exact ((ih hk hkeys).append_left _).trans (List.filter_append_perm _ as)

namespace Nesting

variable {ss : List State} {rs : List RegionSlot} {s t : State} {r : State → Nat}

/-- States that each lie higher than those above them, counted from the top. -/
structure Ranked (ss : List State) (r : State → Nat) : Prop where
  bounded : ∀ s ∈ ss, r s < ss.length
  lower : ∀ s ∈ ss, ∀ t ∈ ss, s.parent = some t.id → r t < r s

def Upward (ss : List State) (s t : State) : Prop :=
  s ∈ ss ∧ t ∈ ss ∧ s.parent = some t.id

structure Rooted (ss : List State) : Prop where
  distinct : (ss.map State.id).Nodup
  parents : ∀ s ∈ ss, ∀ p, s.parent = some p → ∃ t ∈ ss, t.id = p ∧ t.kind.nests
  acyclic : ∀ s, ¬ Relation.TransGen (Upward ss) s s

structure Treelike (ss : List State) (rs : List RegionSlot) : Prop where
  distinct : (ss.map State.id).Nodup
  parents : ∀ s ∈ ss, ∀ p, s.parent = some p → ∃ t ∈ ss, t.id = p ∧ t.kind.nests
  ranked : ∃ r, Ranked ss r
  slots : ∀ s ∈ ss, ∀ t ∈ ss, t.kind = .concurrent → s.parent = some t.id →
    ∃ r ∈ rs, r.owner = t.id ∧ s.region = some r.index
  indices : ∀ t ∈ ss, t.kind = .concurrent →
    ((rs.filter fun r => r.owner = t.id).map RegionSlot.index).Nodup

theorem ranked_of_weight (w : State → Nat)
    (h : ∀ s ∈ ss, ∀ t ∈ ss, s.parent = some t.id → w t < w s) :
    Ranked ss fun s => ss.countP fun u => w u < w s := by
  constructor
  · intro s hs
    refine List.countP_lt_length_iff.2 ⟨s, hs, by simp⟩
  · intro s hs t ht hp
    have hlt := h s hs t ht hp
    rw [List.countP_eq_length_filter, List.countP_eq_length_filter]
    have hsub : (ss.filter fun u => w u < w t).Sublist (ss.filter fun u => w u < w s) := by
      refine List.monotone_filter_right ss fun u hu => ?_
      simp only [decide_eq_true_eq] at hu ⊢
      omega
    refine lt_of_le_of_ne hsub.length_le fun he => ?_
    have heq := hsub.eq_of_length he
    have hmem : t ∈ ss.filter fun u => w u < w s := List.mem_filter.2 ⟨ht, by simpa using hlt⟩
    rw [← heq] at hmem
    simp at hmem

theorem Ranked.lt (hr : Ranked ss r) (h : Relation.TransGen (Upward ss) s t) : r t < r s := by
  induction h with
  | single hup => exact hr.lower _ hup.1 _ hup.2.1 hup.2.2
  | tail _ hup ih => exact (hr.lower _ hup.1 _ hup.2.1 hup.2.2).trans ih

theorem Treelike.rooted (h : Treelike ss rs) : Rooted ss := by
  obtain ⟨r, hr⟩ := h.ranked
  exact ⟨h.distinct, h.parents, fun _ hcycle => (hr.lt hcycle).false⟩

open Classical in
theorem Rooted.ranked (h : Rooted ss) : ∃ r, Ranked ss r := by
  let above (s : State) : Finset State :=
    ss.toFinset.filter fun u => Relation.TransGen (Upward ss) s u
  refine ⟨_, ranked_of_weight (fun s => (above s).card) fun s hs t ht hp => ?_⟩
  have hup : Upward ss s t := ⟨hs, ht, hp⟩
  refine Finset.card_lt_card ((Finset.ssubset_iff_of_subset ?_).2 ⟨t, ?_, ?_⟩)
  · intro u hu
    obtain ⟨hu, htu⟩ := Finset.mem_filter.1 hu
    exact Finset.mem_filter.2 ⟨hu, .head hup htu⟩
  · exact Finset.mem_filter.2 ⟨List.mem_toFinset.2 ht, .single hup⟩
  · exact fun hself => h.acyclic t (Finset.mem_filter.1 hself).2

theorem find?_of_mem (hd : (ss.map State.id).Nodup) (ht : t ∈ ss) : find? ss t.id = some t := by
  cases hf : find? ss t.id with
  | none => simpa using List.find?_eq_none.1 hf t ht
  | some u =>
    have hu : u.id = t.id := by simpa using List.find?_some hf
    rw [List.inj_on_of_nodup_map hd (List.mem_of_find?_eq_some hf) ht hu]

theorem childrenOf_eq_nil (h : Rooted ss) (hs : s ∈ ss) (hk : s.kind.nests = false) :
    childrenOf ss s.id = [] := by
  refine List.filter_eq_nil_iff.2 fun t ht hp => ?_
  obtain ⟨u, hu, hid, hn⟩ := h.parents t ht s.id (by simpa using hp)
  rw [List.inj_on_of_nodup_map h.distinct hu hs hid, hk] at hn
  cases hn

theorem mem_childrenOf : t ∈ childrenOf ss s.id ↔ t ∈ ss ∧ t.parent = some s.id := by
  simp [childrenOf]

theorem endsWithin_of_rank (h : Rooted ss) (hr : Ranked ss r) {n : Nat} (hs : s ∈ ss)
    (hn : r s ≤ n) : endsWithin ss n s := by
  induction n generalizing s with
  | zero =>
    cases hp : s.parent with
    | none => simp [endsWithin, hp]
    | some p =>
      obtain ⟨t, ht, rfl, -⟩ := h.parents s hs p hp
      have hlt := hr.lower s hs t ht hp
      omega
  | succ k ih =>
    cases hp : s.parent with
    | none => simp [endsWithin, hp]
    | some p =>
      obtain ⟨t, ht, rfl, -⟩ := h.parents s hs p hp
      have hlt := hr.lower s hs t ht hp
      unfold endsWithin
      simp only [hp, find?_of_mem h.distinct ht]
      exact ih ht (by omega)

theorem slotsOf_eq_insertionSort (owner : NodeId) : slotsOf rs owner =
    (rs.filter fun r => r.owner = owner).insertionSort fun q r => q.index ≤ r.index := by
  have hinsert : insertByIndex = List.orderedInsert fun q r => q.index ≤ r.index := by
    funext r qs
    induction qs with
    | nil => rfl
    | cons q qs ih => rw [insertByIndex, List.orderedInsert, ih]
  unfold slotsOf
  rw [hinsert]
  rfl

theorem slotsOf_perm (rs : List RegionSlot) (owner : NodeId) :
    (slotsOf rs owner).Perm (rs.filter fun r => r.owner = owner) := by
  rw [slotsOf_eq_insertionSort]
  exact List.perm_insertionSort ..

def below (ss : List State) : Nat → State → List NodeId
  | 0, s => [s.id]
  | k + 1, s => s.id :: (childrenOf ss s.id).flatMap (below ss k)

theorem idsOf_perm {α : Type} {b : α → List NodeId} {as : List α} {ns : List Node}
    (h : List.Forall₂ (fun a n => (Node.ids n).Perm (b a)) as ns) :
    (Node.idsOf ns).Perm (as.flatMap b) := by
  induction h with
  | nil => exact .refl _
  | cons ha _ ih =>
    rw [Node.idsOf, List.flatMap_cons]
    exact ha.append ih

theorem nodeOfSlot_ok {members : List State} {node : State → Except Defect Node}
    {b : State → List NodeId} (m : Initials) (q : RegionSlot)
    (h : ∀ t ∈ members, ∃ n, node t = .ok n ∧ n.ids.Perm (b t)) :
    ∃ n, nodeOfSlot members m node q = .ok n ∧
      n.ids.Perm ((members.filter fun t => t.region = some q.index).flatMap b) := by
  obtain ⟨ns, hns, hall⟩ := exists_mapM_ok fun t ht =>
    h t (List.mem_of_mem_filter (p := fun t => t.region = some q.index) ht)
  refine ⟨.region q.id (regionName q.index) (m.get? q.id) ns, ?_, ?_⟩
  · rw [nodeOfSlot, bind_ok]
    exact ⟨ns, hns, rfl⟩
  · rw [Node.ids]
    exact idsOf_perm hall

theorem regions_perm (h : Treelike ss rs) (hs : s ∈ ss) (hk : s.kind = .concurrent) :
    ((slotsOf rs s.id).flatMap fun q =>
      (childrenOf ss s.id).filter fun t => t.region = some q.index).Perm (childrenOf ss s.id) := by
  have hperm := slotsOf_perm rs s.id
  have hnodup : ((slotsOf rs s.id).map fun q => some q.index).Nodup := by
    have hi := h.indices s hs hk
    rw [← (hperm.map RegionSlot.index).nodup_iff] at hi
    rw [← Function.comp_def some RegionSlot.index, ← List.map_map]
    exact hi.map (Option.some_injective Nat)
  have hmem : ∀ t ∈ childrenOf ss s.id,
      t.region ∈ (slotsOf rs s.id).map fun q => some q.index := by
    intro t ht
    obtain ⟨ht, hp⟩ := mem_childrenOf.1 ht
    obtain ⟨q, hq, hown, hreg⟩ := h.slots t ht s hs hk hp
    refine List.mem_map.2 ⟨q, hperm.mem_iff.2 (List.mem_filter.2 ⟨hq, ?_⟩), hreg.symm⟩
    simpa using hown
  have hgroup := flatMap_filter_perm State.region hnodup hmem
  rwa [List.flatMap_map] at hgroup

theorem find?_isStray (h : Treelike ss rs) (hs : s ∈ ss) (hk : s.kind = .concurrent) :
    (childrenOf ss s.id).find? (isStray (slotsOf rs s.id)) = none := by
  refine List.find?_eq_none.2 fun t ht => ?_
  obtain ⟨ht, hp⟩ := mem_childrenOf.1 ht
  obtain ⟨q, hq, hown, hreg⟩ := h.slots t ht s hs hk hp
  have hmem : q ∈ slotsOf rs s.id :=
    (slotsOf_perm rs s.id).mem_iff.2 (List.mem_filter.2 ⟨hq, by simpa using hown⟩)
  simp only [isStray, hreg, Bool.not_eq_true, Bool.not_eq_false', List.any_eq_true,
    decide_eq_true_eq]
  exact ⟨q, hmem, rfl⟩

theorem nodeOf_simple (hk : s.kind = .simple) (m : Initials) (depth : Nat) :
    nodeOf ss rs m depth s = .ok (.simple s.id s.name) := by
  cases depth <;> simp [nodeOf, hk]

theorem nodeOf_history (hk : s.kind = .history) (m : Initials) (depth : Nat) :
    nodeOf ss rs m depth s = .ok (.history s.id s.name) := by
  cases depth <;> simp [nodeOf, hk]

theorem nodeOf_composite {m : Initials} {depth : Nat} {n : Node} (hk : s.kind = .composite) :
    nodeOf ss rs m depth s = .ok n ↔ ∃ k ns, depth = k + 1 ∧
      (childrenOf ss s.id).mapM (nodeOf ss rs m k) = .ok ns ∧
        n = .composite s.id s.name (m.get? s.id) ns := by
  unfold nodeOf
  cases depth with
  | zero => simp [hk]
  | succ k =>
    simp only [hk, bind_ok, Nat.add_right_cancel_iff, exists_and_left, exists_eq_left']
    exact exists_congr fun ns => and_congr_right' ⟨fun h => by cases h; rfl, fun h => by rw [h]; rfl⟩

theorem nodeOf_concurrent {m : Initials} {depth : Nat} {n : Node} (hk : s.kind = .concurrent) :
    nodeOf ss rs m depth s = .ok n ↔ ∃ k ns, depth = k + 1 ∧
      (childrenOf ss s.id).find? (isStray (slotsOf rs s.id)) = none ∧
        (slotsOf rs s.id).mapM (nodeOfSlot (childrenOf ss s.id) m (nodeOf ss rs m k)) = .ok ns ∧
          n = .concurrent s.id s.name ns := by
  unfold nodeOf
  cases depth with
  | zero => simp [hk]
  | succ k =>
    simp only [hk, Nat.add_right_cancel_iff, exists_and_left, exists_eq_left']
    cases (childrenOf ss s.id).find? (isStray (slotsOf rs s.id)) with
    | some t => simp
    | none =>
      simp only [bind_ok, true_and]
      exact exists_congr fun ns => and_congr_right' ⟨fun h => by cases h; rfl, fun h => by rw [h]; rfl⟩

theorem nodeOf_ok (h : Treelike ss rs) (hr : Ranked ss r) (m : Initials) {depth : Nat} (hs : s ∈ ss)
    (hd : ss.length ≤ r s + depth) :
    ∃ n, nodeOf ss rs m depth s = .ok n ∧ n.ids.Perm (below ss depth s) := by
  induction depth generalizing s with
  | zero =>
    have hlt := hr.bounded s hs
    omega
  | succ k ih =>
    have hchildren : ∀ t ∈ childrenOf ss s.id,
        ∃ n, nodeOf ss rs m k t = .ok n ∧ n.ids.Perm (below ss k t) := by
      intro t ht
      obtain ⟨ht, hp⟩ := mem_childrenOf.1 ht
      have hlt := hr.lower t ht s hs hp
      -- one level further down, one step less is left
      exact ih ht (by omega)
    cases hk : s.kind with
    | simple =>
      have hnil := childrenOf_eq_nil h.rooted hs (by rw [hk]; rfl)
      exact ⟨_, nodeOf_simple hk m _, by simp [Node.ids, below, hnil]⟩
    | history =>
      have hnil := childrenOf_eq_nil h.rooted hs (by rw [hk]; rfl)
      exact ⟨_, nodeOf_history hk m _, by simp [Node.ids, below, hnil]⟩
    | composite =>
      obtain ⟨ns, hns, hall⟩ := exists_mapM_ok hchildren
      refine ⟨_, (nodeOf_composite hk).2 ⟨k, ns, rfl, hns, rfl⟩, ?_⟩
      rw [Node.ids, below]
      exact (idsOf_perm hall).cons s.id
    | concurrent =>
      obtain ⟨ns, hns, hall⟩ := exists_mapM_ok fun q (_ : q ∈ slotsOf rs s.id) =>
        nodeOfSlot_ok m q hchildren
      refine ⟨_, (nodeOf_concurrent hk).2 ⟨k, ns, rfl, find?_isStray h hs hk, hns, rfl⟩, ?_⟩
      rw [Node.ids, below]
      refine (List.Perm.trans (idsOf_perm hall) ?_).cons s.id
      rw [← List.flatMap_assoc]
      exact (regions_perm h hs hk).flatMap_right _

abbrev Encloses (ss : List State) (t s : State) : Prop :=
  Relation.ReflTransGen (Upward ss) s t

theorem rank_le (hr : Ranked ss r) (h : Encloses ss t s) : r t ≤ r s := by
  induction h with
  | refl => exact le_rfl
  | tail _ hup ih =>
    obtain ⟨hs, ht, hp⟩ := hup
    exact (hr.lower _ hs _ ht hp).le.trans ih

theorem mem_of_encloses (hs : s ∈ ss) (h : Encloses ss t s) : t ∈ ss := by
  induction h with
  | refl => exact hs
  | tail _ hup _ => exact hup.2.1

theorem eq_of_encloses (hr : Ranked ss r) (hp : s.parent = t.parent) (he : Encloses ss t s) :
    s = t := by
  rcases Relation.ReflTransGen.cases_head he with rfl | ⟨u, ⟨hs, hu, hpu⟩, hut⟩
  · rfl
  · have hle := rank_le hr hut
    have hlt := hr.lower t (mem_of_encloses hu hut) u hu (hp ▸ hpu)
    omega

theorem upward_unique (h : Treelike ss rs) : Relator.RightUnique (Upward ss) := by
  intro s t u ⟨_, ht, hpt⟩ ⟨_, hu, hpu⟩
  rw [hpt, Option.some.injEq] at hpu
  exact List.inj_on_of_nodup_map h.distinct ht hu hpu

theorem mem_below {k : Nat} (hs : s ∈ ss) {x : NodeId} (hx : x ∈ below ss k s) :
    ∃ t ∈ ss, t.id = x ∧ Encloses ss s t := by
  induction k generalizing s with
  | zero =>
    obtain rfl := List.mem_singleton.1 hx
    exact ⟨s, hs, rfl, .refl⟩
  | succ k ih =>
    rcases List.mem_cons.1 hx with rfl | hx
    · exact ⟨s, hs, rfl, .refl⟩
    · obtain ⟨c, hc, hx⟩ := List.mem_flatMap.1 hx
      obtain ⟨hc, hp⟩ := mem_childrenOf.1 hc
      obtain ⟨t, ht, hid, he⟩ := ih hc hx
      exact ⟨t, ht, hid, he.tail ⟨hc, hs, hp⟩⟩

theorem mem_below_of_encloses (hr : Ranked ss r) {k : Nat} (hs : s ∈ ss)
    (hd : ss.length ≤ r s + k) (he : Encloses ss s t) : t.id ∈ below ss k s := by
  induction he generalizing k with
  | refl =>
    cases k with
    | zero => simp [below]
    | succ k => simp [below]
  | @tail c s _ hup ih =>
    obtain ⟨hc, -, hp⟩ := hup
    have hlt := hr.lower c hc s hs hp
    have hbound := hr.bounded s hs
    obtain ⟨k, rfl⟩ : ∃ j, k = j + 1 := ⟨k - 1, by omega⟩
    rw [below]
    refine List.mem_cons_of_mem _ (List.mem_flatMap.2 ⟨c, mem_childrenOf.2 ⟨hc, hp⟩, ?_⟩)
    exact ih hc (by omega)

theorem nodup_flatMap_below (h : Treelike ss rs) (hr : Ranked ss r) {k : Nat} {cs : List State}
    {q : Option NodeId} (hcs : cs.Nodup) (hsub : ∀ c ∈ cs, c ∈ ss ∧ c.parent = q)
    (hk : ∀ c ∈ cs, (below ss k c).Nodup) : (cs.flatMap (below ss k)).Nodup := by
  refine List.nodup_flatMap.2 ⟨hk, hcs.imp_of_mem fun {c d} hc hd hne => ?_⟩
  obtain ⟨hcm, hcp⟩ := hsub c hc
  obtain ⟨hdm, hdp⟩ := hsub d hd
  intro x hx hx'
  obtain ⟨t, ht, hid, htc⟩ := mem_below hcm hx
  obtain ⟨u, hu, hid', hud⟩ := mem_below hdm hx'
  obtain rfl := List.inj_on_of_nodup_map h.distinct ht hu (hid.trans hid'.symm)
  -- the way up from `t` passes both, so one of the siblings lies in the other
  rcases Relation.ReflTransGen.total_of_right_unique (upward_unique h) htc hud with hcd | hdc
  · exact hne (eq_of_encloses hr (hcp.trans hdp.symm) hcd)
  · exact hne (eq_of_encloses hr (hdp.trans hcp.symm) hdc).symm

theorem nodup_below (h : Treelike ss rs) (hr : Ranked ss r) (k : Nat) (hs : s ∈ ss) :
    (below ss k s).Nodup := by
  induction k generalizing s with
  | zero => exact List.nodup_singleton _
  | succ k ih =>
    rw [below, List.nodup_cons]
    constructor
    · intro hx
      obtain ⟨c, hc, hx⟩ := List.mem_flatMap.1 hx
      obtain ⟨hcm, hp⟩ := mem_childrenOf.1 hc
      obtain ⟨t, ht, hid, he⟩ := mem_below hcm hx
      obtain rfl := List.inj_on_of_nodup_map h.distinct ht hs hid
      have hle := rank_le hr he
      have hlt := hr.lower c hcm t ht hp
      omega
    · exact nodup_flatMap_below h hr ((List.Nodup.of_map _ h.distinct).filter _)
        (fun c hc => mem_childrenOf.1 hc) fun c hc => ih (mem_childrenOf.1 hc).1

theorem exists_root (h : Rooted ss) (hr : Ranked ss r) (hs : s ∈ ss) :
    ∃ t ∈ ss, t.parent = none ∧ Encloses ss t s := by
  induction hn : r s using Nat.strong_induction_on generalizing s with
  | _ n ih =>
    cases hp : s.parent with
    | none => exact ⟨s, hs, hp, .refl⟩
    | some p =>
      obtain ⟨u, hu, rfl, -⟩ := h.parents s hs p hp
      have hlt := hr.lower s hs u hu hp
      obtain ⟨t, ht, hroot, he⟩ := ih (r u) (by omega) hu rfl
      exact ⟨t, ht, hroot, .head ⟨hs, hu, hp⟩ he⟩

theorem below_roots_perm (h : Treelike ss rs) :
    ((ss.filter fun s => s.parent.isNone).flatMap (below ss ss.length)).Perm (ss.map State.id) := by
  obtain ⟨r, hr⟩ := h.ranked
  have hroot : ∀ s ∈ ss.filter fun s => s.parent.isNone, s ∈ ss ∧ s.parent = none := by
    intro s hs
    simpa using hs
  have hnodup := nodup_flatMap_below h hr (k := ss.length)
    ((List.Nodup.of_map _ h.distinct).filter _) hroot fun s hs => nodup_below h hr _ (hroot s hs).1
  refine (List.perm_ext_iff_of_nodup hnodup h.distinct).2 fun x => ?_
  constructor
  · intro hx
    obtain ⟨s, hs, hx⟩ := List.mem_flatMap.1 hx
    obtain ⟨t, ht, rfl, -⟩ := mem_below (hroot s hs).1 hx
    exact List.mem_map_of_mem ht
  · intro hx
    obtain ⟨t, ht, rfl⟩ := List.mem_map.1 hx
    obtain ⟨s, hs, hp, he⟩ := exists_root h.rooted hr ht
    refine List.mem_flatMap.2 ⟨s, List.mem_filter.2 ⟨hs, by simp [hp]⟩, ?_⟩
    exact mem_below_of_encloses hr hs (by omega) he

theorem forest_eq (h : Rooted ss) (m : Initials) : forest ss rs m =
    (ss.filter fun s => s.parent.isNone).mapM (nodeOf ss rs m ss.length) := by
  obtain ⟨r, hr⟩ := h.ranked
  have hfirst : firstRepeat [] (ss.map State.id) = none :=
    firstRepeat_eq_none.2 ⟨h.distinct, by simp⟩
  have hparents : ss.forM (checkParent ss) = .ok () := by
    refine forM_ok.2 fun s hs => ?_
    cases hp : s.parent with
    | none => simp [checkParent, hp]
    | some p =>
      obtain ⟨t, ht, rfl, hn⟩ := h.parents s hs p hp
      simp [checkParent, hp, find?_of_mem h.distinct ht, hn]
  have hdescent : ss.forM (checkDescent ss) = .ok () :=
    forM_ok.2 fun s hs => if_pos (endsWithin_of_rank h hr hs (hr.bounded s hs).le)
  unfold forest
  rw [hfirst, hparents, hdescent]
  rfl

theorem forest_ok (h : Treelike ss rs) (m : Initials) :
    ∃ roots, forest ss rs m = .ok roots ∧ (Node.idsOf roots).Perm (ss.map State.id) := by
  obtain ⟨r, hr⟩ := h.ranked
  have hroots : ∀ s ∈ ss.filter fun s => s.parent.isNone, ∃ n,
      nodeOf ss rs m ss.length s = .ok n ∧ n.ids.Perm (below ss ss.length s) :=
    fun s hs => nodeOf_ok h hr m (List.mem_of_mem_filter hs) (by omega)
  obtain ⟨roots, hok, hall⟩ := exists_mapM_ok hroots
  exact ⟨roots, (forest_eq h.rooted m).trans hok, (idsOf_perm hall).trans (below_roots_perm h)⟩

end Nesting

end Statechart
