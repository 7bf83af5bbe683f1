import Mathlib
import Statechart.History
import Statechart.Proofs.Run

namespace Statechart.History

variable {ss : List State} {ts : List Transition} {ns : List Note} {n : Note} {name : String}
  {c : NodeId} {o o' : Outcome}

theorem inside_self (a : NodeId) : a.inside a = false := by
  by_contra h
  have hp := List.isPrefixOf_iff_prefix.1 (Bool.not_eq_false _ ▸ h)
  have hl := hp.length_le
  simp at hl

theorem idOf_injective {c d : NodeId} (h : idOf c = idOf d) : c = d := by
  have hp := congrArg (fun a => a.path.toList) h
  simp only [idOf, NodeId.toList_path_child_some, List.append_left_inj] at hp
  cases c
  cases d
  simpa [String.toList_inj] using hp

def stateOf (composite : NodeId) (line : Nat) : State where
  name := stateName
  id := idOf composite
  parent := some composite
  region := none
  kind := .history
  label := none
  line := line

def called (ss : List State) (n : Note) : List NodeId :=
  (phrases n.text).filterMap fun p => (composite ss n p.1).toOption

def speaksOf (n : Note) (composite source : NodeId) : Bool :=
  source = n.state || (n.state = composite && !source.inside composite)

def recalled (ss : List State) (ns : List Note) (t : Transition) : Transition :=
  if ∃ n ∈ ns, t.target ∈ called ss n ∧ speaksOf n t.target t.source then
    { t with target := idOf t.target }
  else t

theorem concerns_iff {t : Transition} :
    concerns n c t ↔ (t.target = c ∨ t.target = idOf c) ∧ speaksOf n c t.source := by
  by_cases hn : n.state = c
  · by_cases hs : t.source = c <;> simp [concerns, speaksOf, hn, hs, inside_self]
  · simp [concerns, speaksOf, hn]

theorem composite_append {added : List State} (ha : ∀ s ∈ added, s.kind = .history) :
    composite (ss ++ added) n name = composite ss n name := by
  have hnil : named added name = [] := by
    rw [named, List.filter_eq_nil_iff]
    intro s hs
    simp [ha s hs]
  have hn : named (ss ++ added) name = named ss name := by
    simpa [named, List.filter_append] using hnil
  simp only [composite, choose, hn]

theorem choose_eq_ok {s : State} : choose ss n name = .ok s ↔
    (named ss name).filter (fun t => t.kind.nests) = [s] ∨
      2 ≤ ((named ss name).filter fun t => t.kind.nests).length ∧
        ((named ss name).filter fun t => t.kind.nests).filter (isVisibleFrom n) = [s] := by
  unfold choose
  rcases hnamed : named ss name with _ | ⟨u, us⟩
  · simp
  · rcases hnests : (u :: us).filter (fun t => t.kind.nests) with _ | ⟨t, _ | ⟨v, rest⟩⟩
    · simp only [hnests]
      simp
    · simp only [hnests]
      simp
    · simp only [hnests]
      rcases (t :: v :: rest).filter (isVisibleFrom n) with _ | ⟨a, _ | ⟨b, cs⟩⟩ <;> simp

theorem choose_ok {s : State} (h : choose ss n name = .ok s) :
    s ∈ ss ∧ names name s ∧ s.kind.nests := by
  have hsub : s ∈ (named ss name).filter fun t => t.kind.nests := by
    rcases choose_eq_ok.1 h with hone | ⟨-, hmany⟩
    · exact hone ▸ List.mem_singleton_self s
    · exact List.mem_of_mem_filter (hmany ▸ List.mem_singleton_self s)
  simp only [named, List.mem_filter, Bool.and_eq_true] at hsub
  exact ⟨hsub.1.1, hsub.1.2.1, hsub.2⟩

theorem composite_eq_ok : composite ss n name = .ok c ↔ ∃ s, choose ss n name = .ok s ∧
    s.kind ≠ .concurrent ∧ n.state.inside s.id = false ∧ s.id = c := by
  unfold composite
  cases choose ss n name with
  | error e => simp
  | ok s =>
    by_cases hk : s.kind = .concurrent
    · simp [hk]
    · by_cases hi : n.state.inside s.id <;> simp [hk, hi]

theorem composite_ok (h : composite ss n name = .ok c) :
    ∃ s ∈ ss, s.id = c ∧ s.kind = .composite ∧ names name s ∧ n.state.inside c = false := by
  obtain ⟨s, hs, hc, hi, rfl⟩ := composite_eq_ok.1 h
  obtain ⟨hm, hn, hk⟩ := choose_ok hs
  refine ⟨s, hm, rfl, ?_, hn, hi⟩
  cases hsk : s.kind <;> simp_all [StateKind.nests]

theorem source_outside {source : NodeId} (ho : n.state.inside c = false)
    (hs : speaksOf n c source) : source.inside c = false := by
  obtain rfl | ⟨-, hout⟩ : source = n.state ∨ n.state = c ∧ source.inside c = false := by
    simpa [speaksOf] using hs
  · exact ho
  · exact hout

def newcomers (known : List NodeId) : List (Note × NodeId) → List State
  | [] => []
  | (n, c) :: ks =>
    if idOf c ∈ known then newcomers known ks
    else stateOf c n.line :: newcomers (known ++ [idOf c]) ks

theorem provide_eq_ok {line : Nat} {ss' : List State} : provide ss c line = .ok ss' ↔
    ((ss.find? fun s => s.id = idOf c) = none ∧ ss' = ss ++ [stateOf c line]) ∨
      ∃ s, (ss.find? fun s => s.id = idOf c) = some s ∧ s.kind = .history ∧ ss' = ss := by
  unfold provide
  cases ss.find? fun s => s.id = idOf c with
  | none => simp [stateOf, eq_comm]
  | some s => by_cases hk : s.kind = .history <;> simp [hk, eq_comm (a := ss)]

theorem provide_ok {line : Nat} {ss' : List State} (hd : (ss.map State.id).Nodup)
    (h : provide ss c line = .ok ss') :
    (∀ s ∈ ss, s.id = idOf c → s.kind = .history) ∧
      ss' = ss ++ if idOf c ∈ ss.map State.id then [] else [stateOf c line] := by
  rcases provide_eq_ok.1 h with ⟨hf, rfl⟩ | ⟨s, hf, hk, rfl⟩
  · have hn : ∀ s ∈ ss, s.id ≠ idOf c := by simpa using hf
    refine ⟨fun s hs he => absurd he (hn s hs), ?_⟩
    rw [if_neg (by simpa using hn)]
  · have hs := List.mem_of_find?_eq_some hf
    have he : s.id = idOf c := by simpa using List.find?_some hf
    refine ⟨fun t ht hte => ?_, ?_⟩
    · rw [← List.inj_on_of_nodup_map hd hs ht (he.trans hte.symm)]
      exact hk
    · rw [if_pos (List.mem_map.2 ⟨s, hs, he⟩), List.append_nil]

theorem redirect_eq_ok {ts' : List Transition} : redirect ts n c = .ok ts' ↔
    (∃ t ∈ ts, concerns n c t) ∧ ts' = ts.map (turn n c) := by
  unfold redirect
  rw [← List.any_eq_true]
  by_cases hany : ts.any (concerns n c) <;> simp [hany, eq_comm]

theorem mem_newcomers {known : List NodeId} {s : State} {ks : List (Note × NodeId)}
    (h : s ∈ newcomers known ks) : s.kind = .history ∧ s.id ∉ known := by
  induction ks generalizing known with
  | nil => simp [newcomers] at h
  | cons k ks ih =>
    obtain ⟨n, c⟩ := k
    unfold newcomers at h
    split at h
    · exact ih h
    · rename_i hc
      rcases List.mem_cons.1 h with rfl | h
      · exact ⟨rfl, hc⟩
      · have hs := ih h
        simp only [List.mem_append, not_or] at hs
        exact ⟨hs.1, hs.2.1⟩

theorem nodup_newcomers {known : List NodeId} (ks : List (Note × NodeId)) :
    ((newcomers known ks).map State.id).Nodup := by
  induction ks generalizing known with
  | nil => simp [newcomers]
  | cons k ks ih =>
    obtain ⟨n, c⟩ := k
    unfold newcomers
    split
    · exact ih
    · refine List.nodup_cons.2 ⟨?_, ih⟩
      intro h
      obtain ⟨s, hs, he⟩ := List.mem_map.1 h
      exact (mem_newcomers hs).2 (by simp [he, stateOf])

structure Attached (o : Outcome) (n : Note) (c : NodeId) (o' : Outcome) : Prop where
  free : ∀ s ∈ o.states, s.id = idOf c → s.kind = .history
  states : o'.states = o.states ++ newcomers (o.states.map State.id) [(n, c)]
  transitions : o'.transitions = o.transitions.map (turn n c)
  motive : ∃ t ∈ o.transitions, concerns n c t

def attached (o : Outcome) (n : Note) (c : NodeId) (ss : List State) (ts : List Transition) :
    Outcome :=
  { o with
    states := ss
    transitions := ts
    attachments := o.attachments ++
      [⟨c, o.transitions.countP fun t => concerns n c t && t.target = c⟩] }

theorem attach_eq_ok : attach o n name = .ok o' ↔ ∃ c ss ts, composite o.states n name = .ok c ∧
    provide o.states c n.line = .ok ss ∧ redirect o.transitions n c = .ok ts ∧
      o' = attached o n c ss ts := by
  unfold attach attached
  cases hc : composite o.states n name with
  | error e => simp
  | ok c =>
    cases hp : provide o.states c n.line with
    | error e => simp [hp]
    | ok ss => cases hr : redirect o.transitions n c <;> simp [hp, hr, eq_comm]

theorem attach_ok (hd : (o.states.map State.id).Nodup) (h : attach o n name = .ok o') :
    ∃ c, composite o.states n name = .ok c ∧ Attached o n c o' := by
  obtain ⟨c, ss, ts, hc, hp, hr, rfl⟩ := attach_eq_ok.1 h
  obtain ⟨hfree, rfl⟩ := provide_ok hd hp
  obtain ⟨hmotive, rfl⟩ := redirect_eq_ok.1 hr
  exact ⟨c, hc, hfree, rfl, rfl, hmotive⟩

def callOf? (ss : List State) : Task → Option (Note × NodeId)
  | .attach n name => (composite ss n name).toOption.map (n, ·)
  | .review _ | .keep _ => none

def turnAll (ks : List (Note × NodeId)) (t : Transition) : Transition :=
  ks.foldl (fun t k => turn k.1 k.2 t) t

theorem turn_source (n : Note) (c : NodeId) (t : Transition) : (turn n c t).source = t.source := by
  unfold turn
  split <;> rfl

theorem turn_of_ne {t : Transition} (h : t.target ≠ c) : turn n c t = t := by
  simp [turn, h]

theorem turnAll_of_ne {ks : List (Note × NodeId)} {t : Transition}
    (h : ∀ k ∈ ks, t.target ≠ k.2) : turnAll ks t = t := by
  induction ks with
  | nil => rfl
  | cons k ks ih =>
    rw [turnAll, List.foldl_cons, turn_of_ne (h k (by simp))]
    exact ih fun l hl => h l (by simp [hl])

theorem target_turn {t : Transition} (h : concerns n c t) : (turn n c t).target = idOf c := by
  by_cases ht : t.target = c
  · simp [turn, h, ht]
  · rw [turn_of_ne ht]
    exact (concerns_iff.1 h).1.resolve_left ht

/-- No history state that is called for is itself a composite that is called. -/
def Apart (ks : List (Note × NodeId)) : Prop :=
  ∀ k ∈ ks, ∀ l ∈ ks, idOf k.2 ≠ l.2

theorem turnAll_eq {ks : List (Note × NodeId)} (ha : Apart ks) (t : Transition) :
    turnAll ks t = if ∃ k ∈ ks, t.target = k.2 ∧ speaksOf k.1 k.2 t.source then
      { t with target := idOf t.target } else t := by
  induction ks generalizing t with
  | nil => simp [turnAll]
  | cons k ks ih =>
    have hrest : Apart ks := fun l hl m hm => ha l (by simp [hl]) m (by simp [hm])
    by_cases hk : t.target = k.2 ∧ speaksOf k.1 k.2 t.source
    · have hc : concerns k.1 k.2 t := concerns_iff.2 ⟨.inl hk.1, hk.2⟩
      have hturn : turn k.1 k.2 t = { t with target := idOf t.target } := by
        simp [turn, hc, hk.1]
      rw [if_pos ⟨k, by simp, hk⟩, turnAll, List.foldl_cons, hturn]
      refine turnAll_of_ne fun l hl => ?_
      rw [hk.1]
      exact ha k (by simp) l (by simp [hl])
    · have hturn : turn k.1 k.2 t = t := by
        unfold turn
        rw [if_neg]
        rw [Bool.and_eq_true, concerns_iff, decide_eq_true_eq]
        exact fun h => hk ⟨h.2, h.1.2⟩
      rw [turnAll, List.foldl_cons, hturn, ← turnAll, ih hrest t]
      simp only [List.exists_mem_cons_iff, hk, false_or]

structure Run (ss : List State) (o : Outcome) (ks : List (Note × NodeId)) (o' : Outcome) :
    Prop where
  states : o'.states = o.states ++ newcomers (o.states.map State.id) ks
  transitions : o'.transitions = o.transitions.map (turnAll ks)
  free : ∀ k ∈ ks, ∀ s ∈ ss, s.id = idOf k.2 → s.kind = .history
  motive : ∀ k ∈ ks, ∃ t ∈ o'.transitions, t.target = idOf k.2 ∧ speaksOf k.1 k.2 t.source

theorem apart_of_free {ks : List (Note × NodeId)}
    (hf : ∀ k ∈ ks, ∀ s ∈ ss, s.id = idOf k.2 → s.kind = .history)
    (hk : ∀ k ∈ ks, ∃ name, composite ss k.1 name = .ok k.2) : Apart ks := by
  intro k hk' l hl he
  obtain ⟨name, hn⟩ := hk l hl
  obtain ⟨s, hs, hid, hkind, -⟩ := composite_ok hn
  have := hf k hk' s hs (hid.trans he.symm)
  simp [hkind] at this

theorem nodup_append_newcomers {ks : List (Note × NodeId)} (hd : (ss.map State.id).Nodup) :
    ((ss ++ newcomers (ss.map State.id) ks).map State.id).Nodup := by
  rw [List.map_append, List.nodup_append]
  refine ⟨hd, nodup_newcomers ks, ?_⟩
  rintro a ha b hb rfl
  obtain ⟨s, hs, rfl⟩ := List.mem_map.1 hb
  exact (mem_newcomers hs).2 ha

theorem newcomers_cons (known : List NodeId) (k : Note × NodeId) (ks : List (Note × NodeId)) :
    newcomers known (k :: ks) = newcomers known [k] ++
      newcomers (known ++ (newcomers known [k]).map State.id) ks := by
  by_cases hk : idOf k.2 ∈ known <;> simp [newcomers, hk, stateOf]

theorem Run.cons {k : Note × NodeId} {ks : List (Note × NodeId)} {m : Outcome} {added : List State}
    (ho : o.states = ss ++ added) (ha : Attached o k.1 k.2 m) (hr : Run ss m ks o')
    (hk : ∀ l ∈ k :: ks, ∃ name, composite ss l.1 name = .ok l.2) : Run ss o (k :: ks) o' := by
  have hfree : ∀ l ∈ k :: ks, ∀ s ∈ ss, s.id = idOf l.2 → s.kind = .history := by
    intro l hl s hs
    rcases List.mem_cons.1 hl with rfl | hl
    · exact ha.free s (ho ▸ List.mem_append_left _ hs)
    · exact hr.free l hl s hs
  have hapart := apart_of_free hfree hk
  refine ⟨?_, ?_, hfree, ?_⟩
  · rw [hr.states, ha.states, newcomers_cons _ k ks, List.append_assoc, List.map_append]
  · rw [hr.transitions, ha.transitions, List.map_map]
    rfl
  · intro l hl
    rcases List.mem_cons.1 hl with rfl | hl
    · obtain ⟨t, ht, hc⟩ := ha.motive
      have hstay : turnAll ks (turn l.1 l.2 t) = turn l.1 l.2 t := by
        refine turnAll_of_ne fun i hi => ?_
        rw [target_turn hc]
        exact hapart l (by simp) i (by simp [hi])
      refine ⟨turn l.1 l.2 t, ?_, target_turn hc, ?_⟩
      · rw [hr.transitions, ha.transitions, List.map_map]
        exact List.mem_map.2 ⟨t, ht, hstay⟩
      · rw [turn_source]
        exact (concerns_iff.1 hc).2
    · exact hr.motive l hl

theorem callOf?_attach (h : composite ss n name = .ok c) :
    callOf? ss (.attach n name) = some (n, c) := by
  simp [callOf?, h, Except.toOption]

theorem composite_of_callOf? {task : Task} {k : Note × NodeId} (h : callOf? ss task = some k) :
    ∃ name, composite ss k.1 name = .ok k.2 := by
  cases task with
  | review | keep => simp [callOf?] at h
  | attach n name =>
    cases hc : composite ss n name with
    | error e => simp [callOf?, hc, Except.toOption] at h
    | ok c =>
      rw [callOf?_attach hc] at h
      cases h
      exact ⟨name, hc⟩

theorem attach_added {added : List State} (hd : (o.states.map State.id).Nodup)
    (ho : o.states = ss ++ added) (ha : ∀ s ∈ added, s.kind = .history)
    (h : attach o n name = .ok o') : ∃ c, composite ss n name = .ok c ∧ Attached o n c o' ∧
      (o'.states.map State.id).Nodup ∧
      ∃ more, o'.states = ss ++ more ∧ ∀ s ∈ more, s.kind = .history := by
  obtain ⟨c, hc, hatt⟩ := attach_ok hd h
  -- history states are never named, so a phrase means the same as at the start
  rw [ho, composite_append ha] at hc
  refine ⟨c, hc, hatt, hatt.states ▸ nodup_append_newcomers hd,
    added ++ newcomers (o.states.map State.id) [(n, c)], ?_, ?_⟩
  · rw [hatt.states, ho, List.append_assoc]
  · intro s hs
    rcases List.mem_append.1 hs with hs | hs
    · exact ha s hs
    · exact (mem_newcomers hs).1

theorem attach_of_step (h : step o (.attach n name) = .ok o') : attach o n name = .ok o' := by
  simp only [step] at h
  split at h
  · cases h
  · rename_i m hm
    rw [hm, Except.ok.inj h]

theorem review_of_step (h : step o (.review n) = .ok o') : isVague n.text = false ∧ o' = o := by
  simp only [step] at h
  split at h
  · cases h
  · rename_i hv
    exact ⟨by simpa using hv, (Except.ok.inj h).symm⟩

theorem run_ok {tasks : List Task} {added : List State} (hd : (o.states.map State.id).Nodup)
    (ho : o.states = ss ++ added) (ha : ∀ s ∈ added, s.kind = .history)
    (h : tasks.foldlM step o = .ok o') :
    Run ss o (tasks.filterMap (callOf? ss)) o' ∧
      ∀ n name, Task.attach n name ∈ tasks → ∃ c, composite ss n name = .ok c := by
  induction tasks generalizing o added with
  | nil =>
    cases h
    refine ⟨⟨by simp [newcomers], ?_, by simp, by simp⟩, by simp⟩
    exact (List.map_id _).symm
  | cons task tasks ih =>
    obtain ⟨m, hs, hrest⟩ := foldlM_cons_ok.1 h
    cases task with
    | review n =>
      obtain ⟨-, rfl⟩ := review_of_step hs
      have hr := ih hd ho ha hrest
      exact ⟨hr.1, by simpa using hr.2⟩
    | keep n =>
      cases hs
      have hr := ih (o := { o with remarks := o.remarks ++ remarksOf n }) hd ho ha hrest
      exact ⟨⟨hr.1.states, hr.1.transitions, hr.1.free, hr.1.motive⟩, by simpa using hr.2⟩
    | attach n name =>
      obtain ⟨c, hc, hatt, hmd, more, hm, hmore⟩ := attach_added hd ho ha (attach_of_step hs)
      obtain ⟨hrun, hnamed⟩ := ih hmd hm hmore hrest
      rw [List.filterMap_cons_some (callOf?_attach hc)]
      refine ⟨Run.cons ho hatt hrun ?_, ?_⟩
      · refine List.forall_mem_cons.2 ⟨⟨name, hc⟩, fun l hl => ?_⟩
        obtain ⟨task, -, hcall⟩ := List.mem_filterMap.1 hl
        exact composite_of_callOf? hcall
      · intro i x hix
        rcases List.mem_cons.1 hix with hix | hix
        · cases hix
          exact ⟨c, hc⟩
        · exact hnamed i x hix

def calls (ss : List State) (ns : List Note) : List (Note × NodeId) :=
  ns.flatMap fun n => (called ss n).map (n, ·)

theorem mem_calls {k : Note × NodeId} : k ∈ calls ss ns ↔ k.1 ∈ ns ∧ k.2 ∈ called ss k.1 := by
  obtain ⟨n, c⟩ := k
  simp only [calls, List.mem_flatMap, List.mem_map, Prod.mk.injEq]
  constructor
  · rintro ⟨m, hm, d, hd, rfl, rfl⟩
    exact ⟨hm, hd⟩
  · rintro ⟨hn, hc⟩
    exact ⟨n, hn, c, hc, rfl, rfl⟩

theorem filterMap_callOf? (ss : List State) (ns : List Note) :
    (ns.flatMap tasksOf).filterMap (callOf? ss) = calls ss ns := by
  rw [List.filterMap_flatMap, calls]
  refine List.flatMap_congr fun n _ => ?_
  rw [tasksOf, List.cons_append, List.filterMap_cons_none rfl, List.filterMap_append,
    List.filterMap_cons_none rfl, List.filterMap_nil, List.append_nil, List.filterMap_map, called,
    List.map_filterMap]
  rfl

theorem mem_newcomers_iff {known : List NodeId} {ks : List (Note × NodeId)} {s : State} :
    s ∈ newcomers known ks ↔ ∃ k, ks.find? (fun l => l.2 = k.2) = some k ∧
      idOf k.2 ∉ known ∧ s = stateOf k.2 k.1.line := by
  induction ks generalizing known with
  | nil => simp [newcomers]
  | cons k ks ih =>
    rw [newcomers_cons, List.mem_append, ih]
    by_cases hk : idOf k.2 ∈ known
    · have hnil : newcomers known [k] = [] := by simp [newcomers, hk]
      simp only [hnil, List.map_nil, List.append_nil, List.not_mem_nil, false_or]
      refine exists_congr fun l => ?_
      by_cases hl : k.2 = l.2
      · simp [← hl, hk]
      · rw [List.find?_cons_of_neg (by simpa using hl)]
    · have hone : newcomers known [k] = [stateOf k.2 k.1.line] := by simp [newcomers, hk]
      simp only [hone, List.map_cons, List.map_nil, List.mem_singleton, List.mem_append, not_or]
      constructor
      · rintro (rfl | ⟨l, hl, ⟨hln, hne⟩, rfl⟩)
        · exact ⟨k, by simp, hk, rfl⟩
        · have hkl : k.2 ≠ l.2 := fun he => hne (congrArg idOf he.symm)
          exact ⟨l, by rwa [List.find?_cons_of_neg (by simpa using hkl)], hln, rfl⟩
      · rintro ⟨l, hl, hln, rfl⟩
        by_cases hkl : k.2 = l.2
        · rw [List.find?_cons_of_pos (by simpa using hkl)] at hl
          exact .inl (Option.some.inj hl ▸ rfl)
        · rw [List.find?_cons_of_neg (by simpa using hkl)] at hl
          exact .inr ⟨l, hl, ⟨hln, fun he => hkl (idOf_injective he).symm⟩, rfl⟩

theorem exists_provided (ss : List State) {k : Note × NodeId} {ks : List (Note × NodeId)}
    (hk : k ∈ ks) : ∃ s ∈ ss ++ newcomers (ss.map State.id) ks, s.id = idOf k.2 := by
  by_cases hold : idOf k.2 ∈ ss.map State.id
  · obtain ⟨s, hs, hid⟩ := List.mem_map.1 hold
    exact ⟨s, List.mem_append_left _ hs, hid⟩
  · cases hf : ks.find? (fun l => l.2 = k.2) with
    | none => simpa using List.find?_eq_none.1 hf k hk
    | some l =>
      have hl : l.2 = k.2 := by simpa using List.find?_some hf
      rw [← hl] at hf hold
      refine ⟨stateOf l.2 l.1.line, List.mem_append_right _ ?_, congrArg idOf hl⟩
      exact mem_newcomers_iff.2 ⟨l, hf, hold, rfl⟩

theorem find?_map_call (n : Note) (c : NodeId) (cs : List NodeId) :
    (cs.map (n, ·)).find? (fun l => l.2 = c) = if c ∈ cs then some (n, c) else none := by
  cases hf : (cs.map (n, ·)).find? (fun l => l.2 = c) with
  | none =>
    rw [if_neg]
    intro hc
    have := List.find?_eq_none.1 hf (n, c) (List.mem_map.2 ⟨c, hc, rfl⟩)
    simp at this
  | some k =>
    obtain ⟨d, hd, rfl⟩ := List.mem_map.1 (List.mem_of_find?_eq_some hf)
    have hdc : d = c := by simpa using List.find?_some hf
    rw [if_pos (hdc ▸ hd), hdc]

theorem find?_calls : (calls ss ns).find? (fun l => l.2 = c) = some (n, c) ↔
    ns.find? (fun n => c ∈ called ss n) = some n := by
  induction ns with
  | nil => simp [calls]
  | cons m ns ih =>
    have hcons : calls ss (m :: ns) = (called ss m).map (m, ·) ++ calls ss ns := rfl
    rw [hcons, List.find?_append, find?_map_call]
    by_cases hc : c ∈ called ss m
    · rw [if_pos hc, List.find?_cons_of_pos (by simpa using hc)]
      simp
    · rw [if_neg hc, List.find?_cons_of_neg (by simpa using hc)]
      exact ih

theorem attach_mem_tasksOf {p : String × Text.Span} (hp : p ∈ phrases n.text) :
    Task.attach n p.1 ∈ tasksOf n := by
  refine List.mem_append_left _ (List.mem_cons_of_mem _ ?_)
  exact List.mem_map.2 ⟨p, hp, rfl⟩

theorem phrase_of_attach_mem (h : Task.attach n name ∈ ns.flatMap tasksOf) :
    n ∈ ns ∧ ∃ p ∈ phrases n.text, p.1 = name := by
  obtain ⟨i, hi, hmem⟩ := List.mem_flatMap.1 h
  obtain ⟨p, hp, rfl, hname⟩ : ∃ p ∈ phrases i.text, i = n ∧ p.1 = name := by
    simpa [tasksOf] using hmem
  exact ⟨hi, p, hp, hname⟩

theorem turnAll_calls (ha : Apart (calls ss ns)) (t : Transition) :
    turnAll (calls ss ns) t = recalled ss ns t := by
  have hiff : (∃ k ∈ calls ss ns, t.target = k.2 ∧ speaksOf k.1 k.2 t.source) ↔
      ∃ n ∈ ns, t.target ∈ called ss n ∧ speaksOf n t.target t.source := by
    constructor
    · rintro ⟨k, hk, ht, hs⟩
      obtain ⟨hn, hc⟩ := mem_calls.1 hk
      exact ⟨k.1, hn, ht ▸ hc, ht ▸ hs⟩
    · rintro ⟨n, hn, hc, hs⟩
      exact ⟨(n, t.target), mem_calls.2 ⟨hn, hc⟩, rfl, hs⟩
  rw [turnAll_eq ha, recalled]
  simp only [hiff]

theorem recalled_cases (ss : List State) (ns : List Note) (t : Transition) :
    recalled ss ns t = t ∨ ∃ k ∈ calls ss ns, t.target = k.2 ∧ speaksOf k.1 k.2 t.source ∧
      recalled ss ns t = { t with target := idOf k.2 } := by
  by_cases h : ∃ n ∈ ns, t.target ∈ called ss n ∧ speaksOf n t.target t.source
  · obtain ⟨n, hn, hc, hs⟩ := h
    exact .inr ⟨(n, t.target), mem_calls.2 ⟨hn, hc⟩, rfl, hs, if_pos ⟨n, hn, hc, hs⟩⟩
  · exact .inl (if_neg h)

theorem recalled_source (ss : List State) (ns : List Note) (t : Transition) :
    (recalled ss ns t).source = t.source := by
  rcases recalled_cases ss ns t with heq | ⟨k, -, -, -, heq⟩
  · rw [heq]
  · rw [heq]

structure CarriedOut (ss : List State) (ts : List Transition) (ns : List Note) (o : Outcome) :
    Prop where
  states : ∃ added, o.states = ss ++ added ∧
    ∀ s, s ∈ added ↔ ∃ n c, ns.find? (fun n => c ∈ called ss n) = some n ∧
      idOf c ∉ ss.map State.id ∧ s = stateOf c n.line
  distinct : (o.states.map State.id).Nodup
  transitions : o.transitions = ts.map (recalled ss ns)
  phrases : ∀ n ∈ ns, ∀ p ∈ phrases n.text, ∃ c, composite ss n p.1 = .ok c ∧
    (∃ s ∈ ss, s.id = c ∧ s.kind = .composite ∧ names p.1 s) ∧ n.state.inside c = false ∧
    ∃ t ∈ o.transitions, t.target = idOf c ∧ speaksOf n c t.source

theorem composite_of_mem_calls {k : Note × NodeId} (hk : k ∈ calls ss ns) :
    ∃ name, composite ss k.1 name = .ok k.2 := by
  rw [← filterMap_callOf?] at hk
  obtain ⟨task, -, hcall⟩ := List.mem_filterMap.1 hk
  exact composite_of_callOf? hcall

theorem mem_calls_ok {k : Note × NodeId} (hk : k ∈ calls ss ns) :
    (∃ t ∈ ss, t.id = k.2 ∧ t.kind = .composite) ∧ k.1.state.inside k.2 = false := by
  obtain ⟨name, hname⟩ := composite_of_mem_calls hk
  obtain ⟨t, ht, hid, hkind, -, hout⟩ := composite_ok hname
  exact ⟨⟨t, ht, hid, hkind⟩, hout⟩

theorem exists_of_mem_newcomers {known : List NodeId} {s : State}
    (hs : s ∈ newcomers known (calls ss ns)) :
    ∃ c line, s = stateOf c line ∧ ∃ t ∈ ss, t.id = c ∧ t.kind = .composite := by
  obtain ⟨k, hk, -, rfl⟩ := mem_newcomers_iff.1 hs
  exact ⟨k.2, k.1.line, rfl, (mem_calls_ok (List.mem_of_find?_eq_some hk)).1⟩

theorem carryOut_ok (hd : (ss.map State.id).Nodup) (h : carryOut ss ts ns = .ok o) :
    Run ss (start ss ts) (calls ss ns) o ∧
      ∀ n ∈ ns, ∀ p ∈ phrases n.text, ∃ c, composite ss n p.1 = .ok c ∧ (n, c) ∈ calls ss ns := by
  obtain ⟨hrun, hnamed⟩ := run_ok hd (List.append_nil ss).symm (by simp) h
  rw [filterMap_callOf?] at hrun
  refine ⟨hrun, fun n hn p hp => ?_⟩
  have htask : Task.attach n p.1 ∈ ns.flatMap tasksOf :=
    List.mem_flatMap.2 ⟨n, hn, attach_mem_tasksOf hp⟩
  obtain ⟨c, hc⟩ := hnamed n p.1 htask
  have hcalled : c ∈ called ss n := List.mem_filterMap.2 ⟨p, hp, by simp [hc, Except.toOption]⟩
  exact ⟨c, hc, mem_calls.2 ⟨hn, hcalled⟩⟩

theorem transitions_of_carryOut (hd : (ss.map State.id).Nodup) (h : carryOut ss ts ns = .ok o) :
    o.transitions = ts.map (recalled ss ns) := by
  obtain ⟨hrun, -⟩ := carryOut_ok hd h
  have hapart := apart_of_free hrun.free fun k hk => composite_of_mem_calls hk
  rw [hrun.transitions]
  exact List.map_congr_left fun t _ => turnAll_calls hapart t

theorem carriedOut_of_carryOut (hd : (ss.map State.id).Nodup) (h : carryOut ss ts ns = .ok o) :
    CarriedOut ss ts ns o := by
  obtain ⟨hrun, hnamed⟩ := carryOut_ok hd h
  refine ⟨⟨newcomers (ss.map State.id) (calls ss ns), hrun.states, ?_⟩, ?_,
    transitions_of_carryOut hd h, ?_⟩
  · intro s
    rw [mem_newcomers_iff, Prod.exists]
    exact exists₂_congr fun n c => and_congr_left' find?_calls
  · rw [hrun.states]
    exact nodup_append_newcomers hd
  · intro n hn p hp
    obtain ⟨c, hc, hcall⟩ := hnamed n hn p hp
    obtain ⟨s, hs, hid, hk, hname, hout⟩ := composite_ok hc
    exact ⟨c, hc, ⟨s, hs, hid, hk, hname⟩, hout, hrun.motive _ hcall⟩

namespace Sample

def states : List State :=
  [⟨"On", ⟨"On"⟩, none, none, .composite, none, 1⟩,
    ⟨"Idle", ⟨"On/Idle"⟩, some ⟨"On"⟩, none, .simple, none, 2⟩,
    ⟨"Off", ⟨"Off"⟩, none, none, .simple, none, 4⟩]

def transitions : List Transition :=
  [⟨⟨"On/Idle"⟩, ⟨"On"⟩, .empty, 3⟩, ⟨⟨"On"⟩, ⟨"Off"⟩, .empty, 4⟩, ⟨⟨"Off"⟩, ⟨"On"⟩, .empty, 5⟩]

def notes : List Note :=
  [⟨⟨"On"⟩, .left, "goes back to On history state", 6, ""⟩,
    ⟨⟨"Off"⟩, .right, "returns to the On history", 7, ""⟩]

def outcome : Outcome where
  states := states ++ [stateOf ⟨"On"⟩ 6]
  transitions := [⟨⟨"On/Idle"⟩, ⟨"On"⟩, .empty, 3⟩, ⟨⟨"On"⟩, ⟨"Off"⟩, .empty, 4⟩,
    ⟨⟨"Off"⟩, ⟨"On/H"⟩, .empty, 5⟩]
  remarks := []
  attachments := [⟨⟨"On"⟩, 1⟩, ⟨⟨"On"⟩, 0⟩]

end Sample

theorem carriedOut_sample : (Sample.states.map State.id).Nodup ∧
    carryOut Sample.states Sample.transitions Sample.notes = .ok Sample.outcome ∧
    CarriedOut Sample.states Sample.transitions Sample.notes Sample.outcome := by
  have hd : (Sample.states.map State.id).Nodup := by decide +kernel
  have h : carryOut Sample.states Sample.transitions Sample.notes = .ok Sample.outcome := by
    rfl
  exact ⟨hd, h, carriedOut_of_carryOut hd h⟩

end Statechart.History
