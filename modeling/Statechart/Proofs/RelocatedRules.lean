import Mathlib
import Statechart.Proofs.Relocation
import Statechart.Proofs.Rules

namespace Statechart

namespace Relocation

variable {m : Relocation} {f : FlatChart} {fallback : Fallback} {w : String}

theorem order_under_wrapper (h : w ∈ m.wrapper) (a : NodeId) : (m.under a).order ⟨w⟩ = .gt := by
  have hlt : ¬(m.under a).path < w := by
    refine not_lt.2 (le_of_lt ?_)
    rw [String.lt_iff_toList_lt, toList_under_of_mem h]
    exact lt_append_cons w.toList _ _
  rw [NodeId.order, if_neg hlt, if_neg (wrapper_ne_under h a).symm]

section Table

variable {start scope target : NodeId} {t : Initials}

theorem table_of_none (h : m.wrapper = none) (start : NodeId) (t : Initials) :
    m.table start t = m.pairs t := by
  rw [table, h]
  rfl

theorem table_of_mem (h : w ∈ m.wrapper) (start : NodeId) (t : Initials) :
    m.table start t = (⟨w⟩, m.under start) :: m.pairs t := by
  rw [table, Option.mem_def.1 h]
  rfl

theorem pairs_cons (m : Relocation) (e : NodeId × NodeId) (t : List (NodeId × NodeId)) :
    m.pairs (e :: t) = (m.under e.1, m.under e.2) :: m.pairs t :=
  rfl

theorem pairs_append (m : Relocation) (t t' : List (NodeId × NodeId)) :
    m.pairs (t ++ t') = m.pairs t ++ m.pairs t' :=
  List.map_append

theorem set_under (m : Relocation) (scope target : NodeId) (t : Initials) :
    Initials.set (m.under scope) (m.under target) (m.pairs t) =
      m.pairs (Initials.set scope target t) := by
  induction t with
  | nil => rfl
  | cons e t ih =>
    rw [pairs_cons, Initials.set, Initials.set, order_under, ih]
    cases scope.order e.1 <;> rfl

theorem set_table (m : Relocation) (start scope target : NodeId) (t : Initials) :
    Initials.set (m.under scope) (m.under target) (m.table start t) =
      m.table start (Initials.set scope target t) := by
  rcases m.cases_wrapper with h | ⟨w, h⟩
  · rw [table_of_none h, table_of_none h, set_under]
  · rw [table_of_mem h, table_of_mem h, Initials.set, order_under_wrapper h, ← set_under]

theorem set_wrapper (h : w ∈ m.wrapper) (start : NodeId) (t : Initials) :
    Initials.set ⟨w⟩ (m.under start) (m.pairs t) =
      m.table start t := by
  rw [table_of_mem h]
  cases t with
  | nil => rfl
  | cons e t => rw [pairs_cons, Initials.set, order_wrapper h]

theorem lookup_under (m : Relocation) (scope : NodeId) (t : Initials) :
    (m.pairs t).lookup (m.under scope) =
      (t.lookup scope).map m.under := by
  induction t with
  | nil => rfl
  | cons e t ih =>
    have hkey : (m.under scope == m.under e.1) = (scope == e.1) := by
      rw [Bool.eq_iff_iff, beq_iff_eq, beq_iff_eq, under_inj]
    rw [pairs_cons, List.lookup_cons, List.lookup_cons, hkey, ih]
    cases scope == e.1 <;> rfl

theorem get?_table (m : Relocation) (start scope : NodeId) (t : Initials) :
    (m.table start t).get? (m.under scope) = (t.get? scope).map m.under := by
  rw [Initials.get?]
  rcases m.cases_wrapper with h | ⟨w, h⟩
  · rw [table_of_none h, lookup_under]
    rfl
  · rw [table_of_mem h, List.lookup_cons, beq_eq_false_iff_ne.2 (wrapper_ne_under h scope).symm]
    exact m.lookup_under scope t

theorem get?_table_wrapper (h : w ∈ m.wrapper) (start : NodeId) (t : Initials) :
    (m.table start t).get? ⟨w⟩ = some (m.under start) := by
  rw [Initials.get?, table_of_mem h, List.lookup_cons_self]

end Table

section Initial

theorem declaredIn_flat (m : Relocation) (f : FlatChart) (scope : Scope) :
    Rules.declaredIn (m.flat f) (m.scope scope) = (Rules.declaredIn f scope).map m.initial := by
  have hshell : (m.wrapper.toList.map fun w => (⟨.top, ⟨w⟩, 1⟩ : Initial)).filter
      (fun i => i.scope = m.scope scope) = [] := by
    rw [List.filter_eq_nil_iff]
    intro i hi
    obtain ⟨w, hw, rfl⟩ := List.mem_map.1 hi
    have hne : Scope.top ≠ m.scope scope := (scope_ne_top (Option.mem_toList.1 hw) scope).symm
    simp [hne]
  have hsame : (fun i : Initial => decide (i.scope = m.scope scope)) ∘ m.initial =
      fun i => decide (i.scope = scope) :=
    funext fun i => decide_eq_decide.2 scope_inj
  show (m.initials f.initials).filter (fun i => i.scope = m.scope scope) = _
  rw [initials, List.filter_append, hshell, List.nil_append, List.filter_map, hsame]
  rfl

theorem declaredIn_top (h : w ∈ m.wrapper) (f : FlatChart) :
    Rules.declaredIn (m.flat f) .top = [⟨.top, ⟨w⟩, 1⟩] := by
  have hnil : (f.initials.map m.initial).filter (fun i => i.scope = .top) = [] := by
    rw [List.filter_eq_nil_iff, List.forall_mem_map]
    intro i _
    rw [decide_eq_true_iff]
    exact scope_ne_top h i.scope
  show (m.initials f.initials).filter (fun i => i.scope = .top) = _
  rw [initials, Option.mem_def.1 h, List.filter_append, hnil]
  rfl

theorem topInitial_flat {top : NodeId} (h : Rules.topInitial f = .ok top) :
    Rules.topInitial (m.flat f) = .ok (m.above.getD (m.under top)) := by
  obtain ⟨i, hi, rfl⟩ := Rules.topInitial_eq_ok.1 h
  rw [Rules.topInitial_eq_ok]
  rcases m.cases_wrapper with hw | ⟨w, hw⟩
  · have habove : m.above = none := by rw [above, hw]; rfl
    have htop : m.scope .top = .top := by rw [Relocation.scope, habove]
    have hmoved := m.declaredIn_flat f .top
    rw [htop, hi] at hmoved
    exact ⟨_, hmoved, by rw [habove]; rfl⟩
  · exact ⟨_, declaredIn_top hw f, by rw [mem_above hw]; rfl⟩

theorem around_eq_under {a : Option NodeId} {b : NodeId} :
    m.around a = some (m.under b) ↔ a = some b :=
  around_inj (b := some b)

theorem regionOf_flat {r : RegionSlot} {q : Region} (h : Rules.regionOf f r = .ok q) :
    Rules.regionOf (m.flat f) (m.slot r) = .ok (m.region q) := by
  have hmembers : (m.states f.states).filter (fun s =>
      s.parent = some (m.under r.owner) && s.region = some r.index) =
      (f.states.filter fun s => s.parent = some r.owner && s.region = some r.index).map m.state := by
    refine filter_states (fun w hw => by simp) (fun s => ?_) f.states
    exact congrArg (· && decide (s.region = some r.index)) (decide_eq_decide.2 around_eq_under)
  have hids : ((m.flat f).states.filter fun s =>
      s.parent = some (m.slot r).owner && s.region = some (m.slot r).index).map State.id =
      ((f.states.filter fun s =>
        s.parent = some r.owner && s.region = some r.index).map State.id).map m.under := by
    rw [show ((m.flat f).states.filter fun s =>
      s.parent = some (m.slot r).owner && s.region = some (m.slot r).index) = _ from hmembers,
      List.map_map, List.map_map]
    rfl
  obtain ⟨i, hi, rfl⟩ := Rules.regionOf_eq_ok.1 h
  have hmoved := m.declaredIn_flat f (.region r.owner r.index)
  rw [hi] at hmoved
  refine Rules.regionOf_eq_ok.2 ⟨m.initial i, hmoved, ?_⟩
  rw [hids]
  rfl

theorem firstChild?_flat (m : Relocation) (f : FlatChart) (id : NodeId) :
    Rules.firstChild? (m.flat f) (m.under id) = (Rules.firstChild? f id).map m.state := by
  refine find?_states (fun w hw => by simp) (fun s => ?_) f.states
  exact congrArg (· && decide (s.kind ≠ .history)) (decide_eq_decide.2 around_eq_under)

def choice (m : Relocation) (start : NodeId) (ch : Rules.Choice) : Rules.Choice where
  nested := m.table start ch.nested
  defaulted := m.pairs ch.defaulted

theorem chooseInitial_flat {start : NodeId} {ch ch' : Rules.Choice} {s : State}
    (h : Rules.chooseInitial f fallback ch s = .ok ch') :
    Rules.chooseInitial (m.flat f) fallback (m.choice start ch) (m.state s) =
      .ok (m.choice start ch') := by
  have hmoved := m.declaredIn_flat f (.composite s.id)
  have hchild := m.firstChild?_flat f s.id
  rw [Rules.chooseInitial_eq_ok]
  cases Rules.chooseInitial_eq_ok.1 h with
  | declared i hi =>
    rw [hi] at hmoved
    have hset := m.set_table start s.id i.target ch.nested
    simp only [choice, ← hset]
    exact .declared (m.initial i) hmoved
  | childless hnone hnochild =>
    rw [hnone] at hmoved
    rw [hnochild] at hchild
    exact .childless hmoved hchild
  | defaulted u hnone hfirst hfallback =>
    rw [hnone] at hmoved
    rw [hfirst] at hchild
    have hset := m.set_table start s.id u.id ch.nested
    simp only [choice, ← hset, pairs_append]
    exact .defaulted (m.state u) hmoved hchild hfallback

theorem composites_flat (m : Relocation) (f : FlatChart) :
    Rules.composites (m.flat f) = m.states (Rules.composites f) := by
  have hshell : (m.shell.map Binding.toState).filter (fun s => s.kind = .composite) =
      m.shell.map Binding.toState := by
    refine List.filter_eq_self.2 fun s hs => ?_
    obtain ⟨w, -, rfl⟩ := mem_shellStates.1 hs
    rfl
  show (m.states f.states).filter (fun s => s.kind = .composite) = _
  rw [states, List.filter_append, hshell, List.filter_map]
  rfl

theorem ofRegions_nested (m : Relocation) (qs : List Region) :
    (Rules.ofRegions (qs.map m.region)).nested = m.pairs (Rules.ofRegions qs).nested := by
  have hfold : ∀ t : Initials,
      (qs.map m.region).foldl (fun t q => Initials.set q.id q.initial t) (m.pairs t) =
        m.pairs (qs.foldl (fun t q => Initials.set q.id q.initial t) t) := by
    induction qs with
    | nil => exact fun _ => rfl
    | cons q qs ih =>
      intro t
      have hset : Initials.set (m.region q).id (m.region q).initial (m.pairs t) =
          m.pairs (Initials.set q.id q.initial t) := m.set_under q.id q.initial t
      rw [List.map_cons, List.foldl_cons, List.foldl_cons, hset, ih]
  exact hfold []

theorem choices_flat {i : Initial} {qs : List Region} {ch : Rules.Choice}
    (hi : Rules.declaredIn f .top = [i])
    (h : (Rules.composites f).foldlM (Rules.chooseInitial f fallback) (Rules.ofRegions qs) = .ok ch) :
    (Rules.composites (m.flat f)).foldlM (Rules.chooseInitial (m.flat f) fallback)
      (Rules.ofRegions (qs.map m.region)) = .ok (m.choice i.target ch) := by
  have hrest := (foldlM_map_ok (φ := m.choice i.target) (g := m.state) (fun _ => True)
    (fun s _ ch ch' hs _ => ⟨trivial, chooseInitial_flat hs⟩) h trivial).2
  have hstart : Rules.ofRegions (qs.map m.region) = ⟨m.pairs (Rules.ofRegions qs).nested, []⟩ := by
    rw [← m.ofRegions_nested qs]
    rfl
  -- the wrapper is the first composite, and what it chooses is the start of the others' table
  rw [composites_flat, states, foldlM_append_ok, hstart]
  refine ⟨m.choice i.target (Rules.ofRegions qs), ?_, hrest⟩
  have hchosen : ∀ t, t = m.table i.target (Rules.ofRegions qs).nested →
      (⟨t, []⟩ : Rules.Choice) = m.choice i.target (Rules.ofRegions qs) := by
    rintro t rfl
    rfl
  unfold shell
  rcases m.cases_wrapper with hw | ⟨w, hw⟩
  · rw [hw]
    exact congrArg Except.ok (hchosen _ (table_of_none hw i.target _).symm)
  · have hdeclared := m.declaredIn_flat f .top
    rw [Relocation.scope, mem_above hw, hi] at hdeclared
    have hchoose : Rules.chooseInitial (m.flat f) fallback
        ⟨m.pairs (Rules.ofRegions qs).nested, []⟩ ⟨w, ⟨w⟩, none, none, .composite, none, 1⟩ =
          .ok (m.choice i.target (Rules.ofRegions qs)) := by
      simp only [Rules.chooseInitial, hdeclared, List.map_singleton]
      exact congrArg Except.ok (hchosen _ (set_wrapper hw i.target _))
    rw [Option.mem_def.1 hw]
    exact foldlM_cons_ok.2 ⟨_, hchoose, rfl⟩

end Initial

section Trees

open Nesting

variable {ss : List State} {rs : List RegionSlot} {t : Initials} {start : NodeId}

theorem childrenOf_states (m : Relocation) (ss : List State) (id : NodeId) :
    childrenOf (m.states ss) (m.under id) = (childrenOf ss id).map m.state :=
  filter_states (fun w hw => by simp) (fun s => decide_eq_decide.2 around_eq_under) ss

theorem roots_states (m : Relocation) (hw : m.wrapper = none) (ss : List State) :
    (m.states ss).filter (fun s => s.parent.isNone) =
      (ss.filter fun s => s.parent.isNone).map m.state := by
  refine filter_states (fun w h => by simp [hw] at h) (fun s => ?_) ss
  rw [state, around, above, hw]
  cases s.parent <;> rfl

theorem childrenOf_wrapper (hw : w ∈ m.wrapper) (ss : List State) :
    childrenOf (m.states ss) ⟨w⟩ = (ss.filter fun s => s.parent.isNone).map m.state := by
  have habove : m.around none = some ⟨w⟩ := by rw [around, mem_above hw]; rfl
  refine filter_states (fun v hv => by simp) (fun s => ?_) ss
  rw [Bool.eq_iff_iff, decide_eq_true_iff, Option.isNone_iff_eq_none, state, ← habove]
  exact around_inj

theorem roots_wrapper (hw : w ∈ m.wrapper) (ss : List State) :
    (m.states ss).filter (fun s => s.parent.isNone) =
      [⟨w, ⟨w⟩, none, none, .composite, none, 1⟩] := by
  have hnil : (ss.map m.state).filter (fun s => s.parent.isNone) = [] := by
    rw [List.filter_eq_nil_iff, List.forall_mem_map]
    intro s _
    rw [state, around, mem_above hw]
    cases s.parent <;> simp
  rw [states, List.filter_append, hnil, shell, Option.mem_def.1 hw]
  rfl

theorem insertByIndex_slot (m : Relocation) (r : RegionSlot) (rs : List RegionSlot) :
    insertByIndex (m.slot r) (rs.map m.slot) = (insertByIndex r rs).map m.slot := by
  induction rs with
  | nil => rfl
  | cons s rs ih =>
    have hle : (m.slot r).index ≤ (m.slot s).index ↔ r.index ≤ s.index := Iff.rfl
    simp only [List.map_cons, insertByIndex, hle, ih]
    split <;> rfl

theorem slotsOf_slots (m : Relocation) (rs : List RegionSlot) (owner : NodeId) :
    slotsOf (rs.map m.slot) (m.under owner) = (slotsOf rs owner).map m.slot := by
  have hsame : (fun r : RegionSlot => decide (r.owner = m.under owner)) ∘ m.slot =
      fun r => decide (r.owner = owner) :=
    funext fun r => decide_eq_decide.2 under_inj
  have hfold : ∀ qs : List RegionSlot, (qs.map m.slot).foldr insertByIndex [] =
      (qs.foldr insertByIndex []).map m.slot := by
    intro qs
    induction qs with
    | nil => rfl
    | cons q qs ih => rw [List.map_cons, List.foldr_cons, List.foldr_cons, ih, insertByIndex_slot]
  rw [slotsOf, List.filter_map, hsame, hfold]
  rfl

theorem find?_isStray_slots (m : Relocation) (slots : List RegionSlot) (ss : List State) :
    (ss.map m.state).find? (isStray (slots.map m.slot)) = (ss.find? (isStray slots)).map m.state := by
  have hsame : isStray (slots.map m.slot) ∘ m.state = isStray slots := by
    funext s
    rw [Function.comp_apply, isStray, isStray, state]
    cases s.region with
    | none => rfl
    | some index =>
      simp only [List.any_map]
      rfl
  rw [List.find?_map, hsame]

theorem nodeOfSlot_slot {members : List State} {node node' : State → Except Defect Node}
    {q : RegionSlot} {n : Node}
    (hnode : ∀ s ∈ members, ∀ n, node s = .ok n → node' (m.state s) = .ok (n.renamed m.under))
    (h : nodeOfSlot members t node q = .ok n) :
    nodeOfSlot (members.map m.state) (m.table start t) node' (m.slot q) =
      .ok (n.renamed m.under) := by
  obtain ⟨ns, hns, h⟩ := bind_ok.1 h
  cases h
  have hmembers : (members.map m.state).filter (fun s => s.region = some (m.slot q).index) =
      (members.filter fun s => s.region = some q.index).map m.state := by
    rw [List.filter_map]
    rfl
  have hmoved := mapM_map_ok (fun s hs n hn => hnode s (List.mem_of_mem_filter hs) n hn) hns
  rw [nodeOfSlot, hmembers]
  refine bind_ok.2 ⟨ns.map (Node.renamed m.under), hmoved, ?_⟩
  rw [Node.renamed, Node.renamedAll_eq_map, ← get?_table]
  rfl

theorem nodeOf_states {depth : Nat} {s : State} {n : Node} (h : nodeOf ss rs t depth s = .ok n) :
    nodeOf (m.states ss) (rs.map m.slot) (m.table start t) depth (m.state s) =
      .ok (n.renamed m.under) := by
  induction depth using Nat.strong_induction_on generalizing s n with
  | _ depth ih =>
    cases hk : s.kind with
    | simple =>
      obtain rfl := Except.ok.inj ((nodeOf_simple hk t depth).symm.trans h)
      exact nodeOf_simple (s := m.state s) hk _ depth
    | history =>
      obtain rfl := Except.ok.inj ((nodeOf_history hk t depth).symm.trans h)
      exact nodeOf_history (s := m.state s) hk _ depth
    | composite =>
      obtain ⟨k, ns, rfl, hns, rfl⟩ := (nodeOf_composite hk).1 h
      refine (nodeOf_composite (s := m.state s) hk).2 ⟨k, ns.map (Node.renamed m.under), rfl, ?_, ?_⟩
      · rw [show (m.state s).id = m.under s.id from rfl, childrenOf_states]
        exact mapM_map_ok (fun u _ v hv => ih k k.lt_succ_self hv) hns
      · rw [Node.renamed, Node.renamedAll_eq_map, ← get?_table]
        rfl
    | concurrent =>
      obtain ⟨k, ns, rfl, hstray, hns, rfl⟩ := (nodeOf_concurrent hk).1 h
      refine (nodeOf_concurrent (s := m.state s) hk).2 ⟨k, ns.map (Node.renamed m.under), rfl, ?_, ?_, ?_⟩
      · rw [show (m.state s).id = m.under s.id from rfl, childrenOf_states, slotsOf_slots,
          find?_isStray_slots, hstray]
        rfl
      · rw [show (m.state s).id = m.under s.id from rfl, childrenOf_states, slotsOf_slots]
        exact mapM_map_ok (fun q _ v hv => nodeOfSlot_slot (fun u _ v hv =>
          ih k k.lt_succ_self hv) hv) hns
      · rw [Node.renamed, Node.renamedAll_eq_map]
        rfl

theorem roots_of_none (h : m.wrapper = none) (start : NodeId) (ns : List Node) :
    m.roots start ns = ns.map (Node.renamed m.under) := by
  rw [roots, h, Node.renamedAll_eq_map]

theorem roots_of_mem (h : w ∈ m.wrapper) (start : NodeId) (ns : List Node) :
    m.roots start ns = [.composite ⟨w⟩ w (some (m.under start)) (ns.map (Node.renamed m.under))] := by
  rw [roots, Option.mem_def.1 h, Node.renamedAll_eq_map]

theorem length_states_of_none (h : m.wrapper = none) (ss : List State) :
    (m.states ss).length = ss.length := by
  simp [states, shell, h]

theorem length_states_of_mem (h : w ∈ m.wrapper) (ss : List State) :
    (m.states ss).length = ss.length + 1 := by
  simp [states, shell, Option.mem_def.1 h]

theorem forest_states {ns : List Node} (hold : Treelike ss rs)
    (hnew : Treelike (m.states ss) (rs.map m.slot)) (h : forest ss rs t = .ok ns) :
    forest (m.states ss) (rs.map m.slot) (m.table start t) = .ok (m.roots start ns) := by
  rw [forest_eq hold.rooted] at h
  rw [forest_eq hnew.rooted]
  have hnodes : ((ss.filter fun s => s.parent.isNone).map m.state).mapM
      (nodeOf (m.states ss) (rs.map m.slot) (m.table start t) ss.length) =
        .ok (ns.map (Node.renamed m.under)) :=
    mapM_map_ok (fun s _ n hn => nodeOf_states hn) h
  rcases m.cases_wrapper with hw | ⟨w, hw⟩
  · rw [roots_states m hw, length_states_of_none hw, roots_of_none hw]
    exact hnodes
  · -- the wrapper is one level more, and what it holds has as many as before
    have htop : nodeOf (m.states ss) (rs.map m.slot) (m.table start t) (ss.length + 1)
        ⟨w, ⟨w⟩, none, none, .composite, none, 1⟩ =
          .ok (.composite ⟨w⟩ w (some (m.under start)) (ns.map (Node.renamed m.under))) := by
      unfold nodeOf
      simp only [childrenOf_wrapper hw, get?_table_wrapper hw]
      exact bind_ok.2 ⟨_, hnodes, rfl⟩
    rw [roots_wrapper hw, length_states_of_mem hw, roots_of_mem hw]
    exact mapM_ok.2 (.cons htop .nil)

end Trees

section Enforce

open Rules

variable {c : Chart}

theorem assemble_flat {top : NodeId} {qs : List Region} {ch : Choice} {ns : List Node} :
    assemble (m.flat f) (m.above.getD (m.under top)) (qs.map m.region) (m.choice top ch)
      (m.roots top ns) = m.chart (assemble f top qs ch ns) := by
  have hdefaulted : (m.pairs ch.defaulted).map Prod.fst =
      (ch.defaulted.map Prod.fst).map m.under := by
    rw [pairs, List.map_map, List.map_map]
    rfl
  simp only [assemble, chart, choice, hdefaulted]
  rfl

theorem enforce_flat (hold : f.Sound) (hnew : (m.flat f).Sound) (h : enforce fallback f = .ok c) :
    enforce fallback (m.flat f) = .ok (m.chart c) := by
  obtain ⟨top, qs, ch, ns, htop, hqs, hch, hns, rfl⟩ := enforce_ok hold h
  obtain ⟨i, hi, rfl⟩ := Rules.topInitial_eq_ok.1 htop
  rw [enforce_eq hnew]
  refine bind_ok.2 ⟨_, topInitial_flat htop, ?_⟩
  refine bind_ok.2 ⟨qs.map m.region, mapM_map_ok (fun r _ q hq => regionOf_flat hq) hqs, ?_⟩
  refine bind_ok.2 ⟨m.choice i.target ch, choices_flat hi hch, ?_⟩
  refine bind_ok.2 ⟨m.roots i.target ns, ?_, congrArg Except.ok assemble_flat⟩
  exact forest_states hold.nested.treelike hnew.nested.treelike hns

end Enforce

end Relocation

end Statechart
