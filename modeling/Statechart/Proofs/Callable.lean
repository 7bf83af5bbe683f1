import Mathlib
import Statechart.Proofs.Insertion
import Statechart.Proofs.Phrasing
import Statechart.Proofs.Visibility

namespace Statechart

namespace History

variable {ss ss' : List State} {ts ts' : List Transition} {n n' : Note} {name : String} {s : State}
  {c : NodeId} {task task' : Task}

section Order

inductive Alike : Task → Task → Prop
  | review {n n' : Note} (h : n'.text = n.text) : Alike (.review n) (.review n')
  | attach {n n' : Note} (h : n'.state = n.state) (name : String) :
      Alike (.attach n name) (.attach n' name)
  | keep (n n' : Note) : Alike (.keep n) (.keep n')

theorem Alike.refl : (task : Task) → Alike task task
  | .review _ => .review rfl
  | .attach _ name => .attach rfl name
  | .keep _ => .keep ..

theorem Alike.symm (h : Alike task task') : Alike task' task := by
  cases h with
  | review h => exact .review h.symm
  | attach h name => exact .attach h.symm name
  | keep => exact .keep ..

theorem id_kind_of_unplaced {t : State} (h : unplaced s = unplaced t) :
    s.id = t.id ∧ s.kind = t.kind := by
  have hid : (unplaced s).id = (unplaced t).id := by rw [h]
  have hkind : (unplaced s).kind = (unplaced t).kind := by rw [h]
  exact ⟨hid, hkind⟩

theorem filter_unplaced {q : State → Bool} (hq : ∀ s, q (unplaced s) = q s)
    (hp : (ss'.map unplaced).Perm (ss.map unplaced)) :
    ((ss'.filter q).map unplaced).Perm ((ss.filter q).map unplaced) := by
  have hmap : ∀ l : List State, (l.map unplaced).filter q = (l.filter q).map unplaced := by
    intro l
    rw [List.filter_map]
    exact congrArg _ (List.filter_congr fun s _ => hq s)
  rw [← hmap, ← hmap]
  exact hp.filter q

theorem choose_unplaced (hp : (ss'.map unplaced).Perm (ss.map unplaced)) (hn : n'.state = n.state)
    (h : choose ss n name = .ok s) : ∃ s', choose ss' n' name = .ok s' ∧ unplaced s' = unplaced s := by
  have hnests : ((((named ss' name).filter fun t => t.kind.nests)).map unplaced).Perm
      (((named ss name).filter fun t => t.kind.nests).map unplaced) :=
    filter_unplaced (fun _ => rfl) (filter_unplaced (fun _ => rfl) hp)
  have hvisible := filter_unplaced (q := isVisibleFrom n) (fun _ => rfl) hnests
  have hsame : isVisibleFrom n' = isVisibleFrom n := by
    funext t
    simp only [isVisibleFrom, hn]
  rcases choose_eq_ok.1 h with hone | ⟨hlen, hone⟩
  · rw [hone] at hnests
    obtain ⟨s', hs', heq⟩ := List.map_eq_singleton_iff.1 (List.perm_singleton.1 hnests)
    exact ⟨s', choose_eq_ok.2 (.inl hs'), heq⟩
  · rw [hone] at hvisible
    obtain ⟨s', hs', heq⟩ := List.map_eq_singleton_iff.1 (List.perm_singleton.1 hvisible)
    have hlength := hnests.length_eq
    rw [List.length_map, List.length_map] at hlength
    exact ⟨s', choose_eq_ok.2 (.inr ⟨hlength ▸ hlen, hsame ▸ hs'⟩), heq⟩

theorem composite_unplaced (hp : (ss'.map unplaced).Perm (ss.map unplaced))
    (hn : n'.state = n.state) (h : composite ss n name = .ok c) :
    composite ss' n' name = .ok c := by
  cases hs : choose ss n name with
  | error e => simp [composite, hs] at h
  | ok s =>
    obtain ⟨s', hs', heq⟩ := choose_unplaced hp hn hs
    obtain ⟨hid, hkind⟩ := id_kind_of_unplaced heq
    rw [composite_of_choose hs] at h
    rw [composite_of_choose hs', ← h]
    simp only [grant, hid, hkind, hn]

theorem Possible.alike (hp : (ss'.map unplaced).Perm (ss.map unplaced))
    (ht : ∀ t ∈ ts, ∃ t' ∈ ts', t'.source = t.source ∧ t'.target = t.target)
    (ha : Alike task task') (h : Possible ss ts task) : Possible ss' ts' task' := by
  cases ha with
  | review htext => exact (congrArg isVague htext).trans h
  | keep => trivial
  | @attach n n' hn name =>
    obtain ⟨c, hc, hfree, t, htm, htc⟩ := h
    refine ⟨c, composite_unplaced hp hn hc, fun s' hs' hid => ?_, ?_⟩
    · obtain ⟨s, hs, heq⟩ := List.mem_map.1 (hp.mem_iff.1 (List.mem_map_of_mem hs'))
      obtain ⟨hids, hkinds⟩ := id_kind_of_unplaced heq
      exact hkinds ▸ hfree s hs (hids.trans hid)
    · obtain ⟨t', htm', hsource, htarget⟩ := ht t htm
      refine ⟨t', htm', ?_⟩
      rw [← htc]
      simp only [concerns, hsource, htarget, hn]

end Order

section Call

def callLine (a name : String) : String :=
  "note right of " ++ a ++ " : " ++ callText name

theorem tasksOf_callText (h : IsName name) (hn : n.text = callText name) :
    tasksOf n = .review n :: (if isCallable name then [.attach n name] else []) ++ [.keep n] := by
  rw [tasksOf, hn, phrases_callText h]
  split <;> rfl

theorem trim_callText (name : String) : Text.trim (callText name).toList = (callText name).toList := by
  have htext : (callText name).toList =
      'r' :: ("eturns to ".toList ++ name.toList ++ " history stat".toList) ++ ['e'] := by
    rw [callText, String.toList_append, String.toList_append]
    have hfirst : "returns to ".toList = 'r' :: "eturns to ".toList := rfl
    have hlast : " history state".toList = " history stat".toList ++ ['e'] := rfl
    rw [hfirst, hlast]
    simp only [List.cons_append, List.append_assoc]
  rw [htext]
  exact Text.trim_eq_self (by decide) (by decide) _

theorem takes_callLine {a : String} (ha : IsName a) (name : String) (line : Nat) :
    Event.Takes line (callLine a name) none none
      [⟨.clause (.note a .right (callText name)), line, callLine a name⟩] := by
  have hblank : ∀ b ∈ [' '], Text.isBlank b := by simp; decide
  have hgap : Statement.IsGap [' '] := ⟨by simp, by simp; decide⟩
  have htail : Statement.Tail (some (callText name)) (':' :: ' ' :: (callText name).toList) := by
    have htrim : Text.trim (' ' :: (callText name).toList) = (callText name).toList :=
      (Text.trim_append_of_blank hblank _).trans (trim_callText name)
    have htext := Statement.Tail.text (' ' :: (callText name).toList)
    rwa [htrim, String.ofList_toList] at htext
  have hline : (callLine a name).toList = "note".toList ++ ([' '] ++ (NoteSide.right.word.toList ++
      ([' '] ++ ("of".toList ++ ([' '] ++ (a.toList ++ ([' '] ++
        ':' :: ' ' :: (callText name).toList))))))) := by
    have happend : ∀ x y z w : String,
        (x ++ y ++ z ++ w).toList = x.toList ++ y.toList ++ z.toList ++ w.toList := by simp
    have hnote : "note right of ".toList = "note".toList ++ ([' '] ++ (NoteSide.right.word.toList ++
      ([' '] ++ ("of".toList ++ [' '])))) := rfl
    have hcolon : " : ".toList = [' ', ':', ' '] := rfl
    refine (happend ..).trans ?_
    rw [hnote, hcolon]
    simp only [List.append_assoc, List.cons_append, List.nil_append]
  have hread : Statement.read (callLine a name).toList =
      .ok (.note .right a (some (callText name))) :=
    Statement.read_ok_iff.2 ⟨.note, hline ▸ .note hgap hgap hgap ha (by simp; decide) htail⟩
  have hparse : Statement.parse (callLine a name) line = .ok _ := Statement.parse_ok_iff.2 hread
  have hsilent := Event.isSilent_of_parse hparse
  exact .event _ hsilent ((Event.read_eq _ line).2 ⟨_, hread, rfl⟩)

end Call

theorem composite_of_sole (hd : (ss.map State.id).Nodup) (hname : '/' ∉ s.name.toList) (hs : s ∈ ss)
    (hone : ∀ t ∈ ss, t.name = s.name → t = s) (hk : s.kind = .composite)
    (hout : n.state.inside s.id = false) : composite ss n s.name = .ok s.id := by
  have hmem : s ∈ bearers ss s.name := mem_bearers.2 ⟨hs, rfl, by rw [hk]; rfl⟩
  have honly : bearers ss s.name = [s] :=
    eq_singleton_of_sole (nodup_bearers hd s.name) hmem fun t ht =>
      hone t (mem_bearers.1 ht).1 (mem_bearers.1 ht).2.1
  have hchoose : choose ss n s.name = .ok s :=
    choose_eq_ok.2 (.inl ((filter_named hname).trans honly))
  rw [composite_of_choose hchoose, grant, if_neg (by rw [hk]; decide), if_neg (by simp [hout])]

section Outcome

variable {ns : List Note} {o : Outcome} {t : Transition}

theorem recalled_of_call (hcall : (n, c) ∈ calls ss ns) (htarget : t.target = c)
    (hsource : t.source = n.state) : recalled ss ns t = { t with target := idOf c } := by
  obtain ⟨hn, hc⟩ := mem_calls.1 hcall
  have hspeaks : speaksOf n c t.source := by simp [speaksOf, hsource]
  rw [recalled, htarget, if_pos ⟨n, hn, hc, hspeaks⟩]

theorem exists_stateOf (hd : (ss.map State.id).Nodup) (ho : carryOut ss ts ns = .ok o)
    (hcall : (n, c) ∈ calls ss ns) (hfresh : idOf c ∉ ss.map State.id) :
    ∃ line, stateOf c line ∈ o.states := by
  obtain ⟨u, hu, hid⟩ := exists_provided ss hcall
  have hid : u.id = idOf c := hid
  rcases List.mem_append.1 hu with hold | hnew
  · rw [← hid] at hfresh
    exact absurd (List.mem_map_of_mem hold) hfresh
  · obtain ⟨m, -, -, rfl⟩ := mem_newcomers_iff.1 hnew
    rw [← idOf_injective hid, (carryOut_ok hd ho).1.states]
    exact ⟨m.1.line, List.mem_append_right _ hnew⟩

end Outcome

end History

open History

namespace WellNested

variable {ss : List State} {slots : List RegionSlot} {s u : State}

theorem idOf_ne (h : WellNested ss slots) (hs : s ∈ ss) (hu : u ∈ ss)
    (hfree : ∀ u ∈ ss, u.parent = some s.id → u.name ≠ stateName) : u.id ≠ idOf s.id := by
  intro hid
  rw [h.qualified u hu] at hid
  obtain ⟨hscope, hname⟩ :=
    (NodeId.child_inj (h.segment u hu) isName_stateName.isSegment).1 hid
  cases hsc : u.scope with
  | top =>
    rw [hsc] at hscope
    cases hscope
  | composite p =>
    rw [hsc] at hscope
    exact hfree u hu (hscope ▸ (scope_eq_composite.1 hsc).1) hname
  | region p k =>
    rw [hsc] at hscope
    obtain ⟨r, hr, rfl, rfl⟩ := h.region u hu p k hsc
    exact h.region_ne hr hs ((h.owner r hr).1.trans (Option.some.inj hscope))

end WellNested

namespace FlatChart

variable {f f' g : FlatChart} {n : Note} {k : Nat} {a s : State}

theorem exists_withHistory_iff (hd : (f.states.map State.id).Nodup) :
    (∃ g, f.withHistory = .ok g) ↔
      ∀ task ∈ f.notes.flatMap tasksOf, Possible f.states f.transitions task := by
  rw [← exists_carryOut_iff hd]
  constructor
  · rintro ⟨g, hg⟩
    obtain ⟨o, ho, -⟩ := withHistory_ok hg
    exact ⟨o, ho⟩
  · rintro ⟨o, ho⟩
    exact ⟨f.withOutcome o, by simp only [withHistory, ho]⟩

namespace Noted

variable (h : f.Noted f' n) (hd : (f.states.map State.id).Nodup)
include h

theorem ids_perm : (f'.states.map State.id).Perm (f.states.map State.id) := by
  have hids : ∀ ss : List State, (ss.map unplaced).map State.id = ss.map State.id := by
    intro ss
    rw [List.map_map]
    rfl
  exact hids f.states ▸ hids f'.states ▸ h.states.map State.id

theorem possible_iff {task : Task} :
    Possible f'.states f'.transitions task ↔ Possible f.states f.transitions task := by
  have harrows : ∀ {ts : List Transition}, ∀ t ∈ ts, ∃ t' ∈ ts, t'.source = t.source ∧
      t'.target = t.target := fun t ht => ⟨t, ht, rfl, rfl⟩
  rw [h.transitions]
  exact ⟨.alike h.states.symm harrows (.refl task), .alike h.states harrows (.refl task)⟩

include hd

theorem exists_withHistory_iff : (∃ g, f'.withHistory = .ok g) ↔
    (∃ g, f.withHistory = .ok g) ∧ ∀ task ∈ tasksOf n, Possible f.states f.transitions task := by
  obtain ⟨before, after, hold, hnew⟩ := h.notes
  have hd' := h.ids_perm.nodup_iff.2 hd
  rw [FlatChart.exists_withHistory_iff hd, FlatChart.exists_withHistory_iff hd', hold, hnew]
  simp only [h.possible_iff, List.flatMap_append, List.flatMap_cons, List.forall_mem_append]
  constructor
  · rintro ⟨hbefore, hn, hafter⟩
    exact ⟨⟨hbefore, hafter⟩, hn⟩
  · rintro ⟨⟨hbefore, hafter⟩, hn⟩
    exact ⟨hbefore, hn, hafter⟩

theorem withHistory_of_vague (hg : f.withHistory = .ok g) (hv : isVague n.text) :
    f'.withHistory = .error (fault n .noPhrase) := by
  obtain ⟨before, after, hold, hnew⟩ := h.notes
  have hpossible := (FlatChart.exists_withHistory_iff hd).1 ⟨g, hg⟩
  rw [hold, List.flatMap_append, List.forall_mem_append] at hpossible
  obtain ⟨o, ho⟩ := foldlM_of_possible (o := start f'.states f'.transitions)
    fun task htask => h.possible_iff.2 (hpossible.1 task htask)
  have hreview : step o (.review n) = .error (fault n .noPhrase) := if_pos hv
  have htasks : f'.notes.flatMap tasksOf = before.flatMap tasksOf ++
      .review n :: (((phrases n.text).map fun p => .attach n p.1) ++ [.keep n] ++
        after.flatMap tasksOf) := by
    rw [hnew, List.flatMap_append, List.flatMap_cons]
    rfl
  have hcarried : carryOut f'.states f'.transitions f'.notes = .error (fault n .noPhrase) := by
    rw [carryOut, htasks, List.foldlM_append, ho]
    exact bind_error.2 (.inr ⟨o, rfl, by rw [List.foldlM_cons, hreview]; rfl⟩)
  simp only [withHistory, hcarried]

end Noted

/-- A composite that can be called for from a state: the only one of its name, without a child that
    has the name of history states, and the end of an arrow from that state, which is not inside. -/
structure Callable (f : FlatChart) (a s : State) : Prop where
  source : a ∈ f.states
  mem : s ∈ f.states
  sole : ∀ u ∈ f.states, u.name = s.name → u = s
  composite : s.kind = .composite
  free : ∀ u ∈ f.states, u.parent = some s.id → u.name ≠ stateName
  outside : a.id.inside s.id = false
  arrow : ∃ t ∈ f.transitions, t.source = a.id ∧ t.target = s.id

/-- The history state of `s` is there, and the arrows to `s` from `a` go to it instead; those after
    line `k` have moved on by one. -/
structure Recalls (f g : FlatChart) (k : Nat) (a s : State) : Prop where
  history : ∃ line, stateOf s.id line ∈ g.states
  turned : ∀ t ∈ f.transitions, t.source = a.id → t.target = s.id →
    { t with target := idOf s.id, line := Insertion.shift k t.line } ∈ g.transitions
  rest : ∀ t ∈ g.transitions, t.source = a.id → t.target ≠ s.id

namespace Callable

variable (h : f.Callable a s) (hf : f.Sound) (hstate : n.state = a.id)
include h hf

theorem idOf_notMem : idOf s.id ∉ f.states.map State.id := by
  rintro hmem
  obtain ⟨u, hu, hid⟩ := List.mem_map.1 hmem
  exact hf.nested.idOf_ne h.mem hu h.free hid

include hstate

theorem composite_eq : History.composite f.states n s.name = .ok s.id :=
  composite_of_sole hf.nested.distinct (fun hslash => (hf.names s h.mem).isSegment hslash) h.mem
    h.sole h.composite (hstate ▸ h.outside)

theorem possible_iff (htext : n.text = callText s.name) :
    (∀ task ∈ tasksOf n, Possible f.states f.transitions task) ↔ isCallable s.name := by
  have hvague : isVague n.text = !isCallable s.name := htext ▸ isVague_callText (hf.names s h.mem)
  rw [tasksOf_callText (hf.names s h.mem) htext]
  constructor
  · intro hall
    have hreview : isVague n.text = false := hall (.review n) (by simp)
    simpa [hvague] using hreview
  · intro hcallable
    obtain ⟨t, ht, hsource, htarget⟩ := h.arrow
    have hattach : Possible f.states f.transitions (.attach n s.name) := by
      refine ⟨s.id, h.composite_eq hf hstate, fun u hu hid => ?_, t, ht, ?_⟩
      · exact absurd hid (hf.nested.idOf_ne h.mem hu h.free)
      · exact concerns_iff.2 ⟨.inl htarget, by simp [speaksOf, hsource, hstate]⟩
    have hreview : isVague n.text = false := by simpa [hcallable] using hvague
    simpa [hcallable, Possible] using ⟨hreview, hattach⟩

end Callable

end FlatChart

namespace Insertion

variable {f f' g' : FlatChart} {n : Note} {k : Nat} {a s : State} {task task' : Task}

theorem unplaced_moved (k : Nat) (f : FlatChart) :
    ((moved k).flat f).states.map unplaced = f.states.map unplaced := by
  have hstate : ∀ s : State, unplaced ((moved k).state s) = unplaced s := by
    intro s
    simp only [Relocation.state, moved, Relocation.under_moving, Relocation.around_moving, unplaced]
  show (f.states.map (moved k).state).map unplaced = _
  rw [List.map_map]
  exact List.map_congr_left fun s _ => hstate s

theorem transition_moved (k : Nat) (t : Transition) :
    (moved k).transition t = { t with line := shift k t.line } := by
  simp only [Relocation.transition, moved, Relocation.under_moving]
  rfl

theorem possible_moved (ha : Alike task task') :
    Possible ((moved k).flat f).states ((moved k).flat f).transitions task' ↔
      Possible f.states f.transitions task := by
  have hstates : (((moved k).flat f).states.map unplaced).Perm (f.states.map unplaced) :=
    .of_eq (unplaced_moved k f)
  constructor
  · refine .alike hstates.symm (fun t ht => ?_) ha.symm
    obtain ⟨t, htm, rfl⟩ := List.mem_map.1 ht
    exact ⟨t, htm, by rw [transition_moved], by rw [transition_moved]⟩
  · refine .alike hstates (fun t ht => ⟨_, List.mem_map_of_mem ht, ?_, ?_⟩) ha
    all_goals rw [transition_moved]

theorem ids_moved (k : Nat) (f : FlatChart) :
    ((moved k).flat f).states.map State.id = f.states.map State.id := by
  have hids := congrArg (List.map State.id) (unplaced_moved k f)
  rwa [List.map_map, List.map_map] at hids

theorem exists_withHistory_moved (hd : (f.states.map State.id).Nodup) :
    (∃ g, ((moved k).flat f).withHistory = .ok g) ↔ ∃ g, f.withHistory = .ok g := by
  have hd' := (ids_moved k f).symm ▸ hd
  have htasks : ((moved k).flat f).notes.flatMap tasksOf =
      (f.notes.flatMap tasksOf).map (moved k).task := (moved k).flatMap_tasksOf_note f.notes
  have halike : ∀ task, Alike task ((moved k).task task)
    | .review _ => .review rfl
    | .attach n name =>
      have hstate : ((moved k).note n).state = n.state := (moved k).under_of_none rfl n.state
      .attach hstate name
    | .keep _ => .keep ..
  rw [FlatChart.exists_withHistory_iff hd, FlatChart.exists_withHistory_iff hd', htasks,
    List.forall_mem_map]
  exact forall₂_congr fun task _ => possible_moved (halike task)

section Main

variable {input other : String} {before after : List String}

theorem recalls_of_noted (h : f.Callable a s) (hf : f.Sound)
    (hn : ((moved k).flat f).Noted f' n) (htext : n.text = callText s.name)
    (hstate : n.state = a.id) (hcallable : isCallable s.name) (hg : f'.withHistory = .ok g') :
    f.Recalls g' k a s := by
  obtain ⟨o, ho, rfl⟩ := withHistory_ok hg
  have hp : (f'.states.map unplaced).Perm (f.states.map unplaced) := unplaced_moved k f ▸ hn.states
  have hids : (f'.states.map State.id).Perm (f.states.map State.id) :=
    ids_moved k f ▸ hn.ids_perm
  have hd : (f'.states.map State.id).Nodup := hids.nodup_iff.2 hf.nested.distinct
  have hfresh : idOf s.id ∉ f'.states.map State.id := hids.mem_iff.not.2 (h.idOf_notMem hf)
  have hcomposite : composite f'.states n s.name = .ok s.id :=
    composite_unplaced hp rfl (h.composite_eq hf hstate)
  have hcall : (n, s.id) ∈ calls f'.states f'.notes := by
    obtain ⟨before, after, -, hnotes⟩ := hn.notes
    refine mem_calls.2 ⟨hnotes ▸ List.mem_append_right _ List.mem_cons_self, ?_⟩
    rw [called, htext, phrases_callText (hf.names s h.mem), if_pos hcallable]
    simp [hcomposite, Except.toOption]
  have hmap : o.transitions = f'.transitions.map (recalled f'.states f'.notes) :=
    transitions_of_carryOut hd ho
  constructor
  case history => exact exists_stateOf hd ho hcall hfresh
  case turned =>
    intro t ht hsource htarget
    have hmem : (moved k).transition t ∈ f'.transitions :=
      hn.transitions ▸ List.mem_map_of_mem ht
    rw [transition_moved] at hmem
    rw [FlatChart.withOutcome, hmap]
    exact List.mem_map.2 ⟨_, hmem, recalled_of_call hcall htarget (hsource.trans hstate.symm)⟩
  case rest =>
    have hapart := apart_of_free (carryOut_ok hd ho).1.free fun _ hk => composite_of_mem_calls hk
    rw [FlatChart.withOutcome, hmap, List.forall_mem_map]
    intro t _ hsource
    rw [recalled_source] at hsource
    exact target_recalled_ne hapart hcall (by simp [speaksOf, hsource, hstate])

theorem recalls_of_text (hinput : (Text.linesOf input).map Text.trimmed = before ++ after)
    (hother : (Text.linesOf other).map Text.trimmed =
      before ++ callLine a.name s.name :: after)
    (hout : Event.within before = false) (hf : FlatChart.ofText input = .ok f)
    (hf' : FlatChart.ofText other = .ok f') (h : f.Callable a s) (hn : n ∈ f'.notes)
    (hline : n.line = before.length + 1) (hstate : n.state = a.id) :
    ((∃ g', f'.withHistory = .ok g') ↔ isCallable s.name ∧ ∃ g, f.withHistory = .ok g) ∧
    (∀ g', f'.withHistory = .ok g' → f.Recalls g' (before.length + 1) a s) ∧
    ∀ g, f.withHistory = .ok g → isCallable s.name = false →
      f'.withHistory = .error (fault n .noPhrase) := by
  have hsound := FlatChart.sound_of_ofText hf
  have hd := hsound.nested.distinct
  have htakes := takes_callLine (hsound.names a h.source) s.name (before.length + 1)
  obtain ⟨htext, hnoted⟩ := noted_of_text hinput hother hout htakes hf hf' hn hline
  have hd' := (ids_moved (before.length + 1) f).symm ▸ hd
  have hiff : (∃ g', f'.withHistory = .ok g') ↔
      isCallable s.name ∧ ∃ g, f.withHistory = .ok g := by
    rw [hnoted.exists_withHistory_iff hd', exists_withHistory_moved hd, and_comm,
      ← h.possible_iff hsound hstate htext]
    exact and_congr_left fun _ => forall₂_congr fun task _ => possible_moved (.refl task)
  refine ⟨hiff, fun g' hg' => ?_, fun g hg hnot => ?_⟩
  · exact recalls_of_noted h hsound hnoted htext hstate (hiff.1 ⟨g', hg'⟩).1 hg'
  · obtain ⟨g₁, hg₁⟩ := (exists_withHistory_moved hd).2 ⟨g, hg⟩
    refine hnoted.withHistory_of_vague hd' hg₁ ?_
    rw [htext, isVague_callText (hsound.names s h.mem), hnot]
    rfl

end Main

end Insertion

namespace Sample.Called

/-- A text with two composites that an arrow goes to, one with the name of a word in phrases and one
    with a name that begins with a digit. -/
def text : String :=
  "[*] --> A\nA --> the\nA --> 2nd\nstate the \x7b\n[*] --> X\n\x7d\n" ++
    "state 2nd \x7b\n[*] --> Y\n\x7d"

def noted (name : String) : String :=
  text ++ "\n" ++ callLine "A" name

def events : List (Located Event) :=
  [⟨.clause (.initial "A"), 1, "[*] --> A"⟩,
    ⟨.clause (.transition "A" "the" none), 2, "A --> the"⟩,
    ⟨.clause (.transition "A" "2nd" none), 3, "A --> 2nd"⟩,
    ⟨.opening ⟨"the", none⟩, 4, "state the \x7b"⟩,
    ⟨.clause (.initial "X"), 5, "[*] --> X"⟩,
    ⟨.close, 6, "\x7d"⟩,
    ⟨.opening ⟨"2nd", none⟩, 7, "state 2nd \x7b"⟩,
    ⟨.clause (.initial "Y"), 8, "[*] --> Y"⟩,
    ⟨.close, 9, "\x7d"⟩]

def lines : List String :=
  events.map Located.text

def tree : BlockTree where
  body :=
    [.clause ⟨.initial "A", 1, "[*] --> A"⟩,
      .clause ⟨.transition "A" "the" none, 2, "A --> the"⟩,
      .clause ⟨.transition "A" "2nd" none, 3, "A --> 2nd"⟩,
      .composite ⟨⟨"the", none⟩, 4, "state the \x7b"⟩ [.clause ⟨.initial "X", 5, "[*] --> X"⟩] [],
      .composite ⟨⟨"2nd", none⟩, 7, "state 2nd \x7b"⟩ [.clause ⟨.initial "Y", 8, "[*] --> Y"⟩] []]
  direction := none

def stateA : State := ⟨"A", ⟨"A"⟩, none, none, .simple, none, 1⟩

def word : State := ⟨"the", ⟨"the"⟩, none, none, .composite, none, 2⟩

def digit : State := ⟨"2nd", ⟨"2nd"⟩, none, none, .composite, none, 3⟩

def noteOn (name : String) : Note where
  state := stateA.id
  side := .right
  text := callText name
  line := 10
  source := callLine "A" name

def flat (ns : List Note) : FlatChart where
  states := [stateA, word, digit, ⟨"X", ⟨"the/X"⟩, some ⟨"the"⟩, none, .simple, none, 5⟩,
    ⟨"Y", ⟨"2nd/Y"⟩, some ⟨"2nd"⟩, none, .simple, none, 8⟩]
  regions := []
  transitions := [⟨⟨"A"⟩, ⟨"the"⟩, .empty, 2⟩, ⟨⟨"A"⟩, ⟨"2nd"⟩, .empty, 3⟩]
  initials := [⟨.top, ⟨"A"⟩, 1⟩, ⟨.composite ⟨"the"⟩, ⟨"the/X"⟩, 5⟩,
    ⟨.composite ⟨"2nd"⟩, ⟨"2nd/Y"⟩, 8⟩]
  finals := []
  notes := ns
  remarks := []
  direction := none

theorem lines_text : (Text.linesOf text).map Text.trimmed = lines :=
  Text.map_trimmed_linesOf (by decide +kernel) (by decide +kernel) (by decide +kernel)

theorem within_lines : Event.within lines = false := by
  decide +kernel

theorem ofLines_lines : Event.ofLines 1 none lines = .ok events :=
  Event.ofLines_of_reads rfl (by decide +kernel)

theorem scan_text : Event.scan text = .ok events := by
  rw [Event.scan, lines_text, ofLines_lines]

theorem ofText_text : FlatChart.ofText text = .ok (flat []) :=
  bind_ok.2 ⟨_, scan_text, bind_ok.2 ⟨tree, rfl, by decide +kernel⟩⟩

theorem isName_A : IsName "A" := by
  refine ⟨by decide, fun c hc => ?_⟩
  obtain rfl : c = 'A' := by simpa using hc
  decide

theorem ofText_noted {name : String}
    (hlines : (Text.linesOf (noted name)).map Text.trimmed = lines ++ [callLine "A" name])
    (hblocks : FlatChart.ofBlocks ⟨tree.body ++ [.clause ⟨.note "A" .right (callText name), 10,
      callLine "A" name⟩], none⟩ = .ok (flat [noteOn name])) :
    FlatChart.ofText (noted name) = .ok (flat [noteOn name]) := by
  have hscan : Event.scan (noted name) = .ok (events ++
      [⟨.clause (.note "A" .right (callText name)), 10, callLine "A" name⟩]) := by
    rw [Event.scan, hlines]
    exact Event.ofLines_append ofLines_lines
      (Event.ofLines_of_takes (takes_callLine isName_A name 10) rfl)
  have htree : BlockTree.ofEvents events = .ok tree := rfl
  exact bind_ok.2 ⟨_, hscan, bind_ok.2 ⟨_, BlockTree.ofEvents_concat htree _ _ _, hblocks⟩⟩

theorem lines_word : (Text.linesOf (noted "the")).map Text.trimmed =
    lines ++ [callLine "A" "the"] :=
  Text.map_trimmed_linesOf (by decide +kernel) (by decide +kernel) (by decide +kernel)

theorem lines_digit : (Text.linesOf (noted "2nd")).map Text.trimmed =
    lines ++ [callLine "A" "2nd"] :=
  Text.map_trimmed_linesOf (by decide +kernel) (by decide +kernel) (by decide +kernel)

theorem ofText_word : FlatChart.ofText (noted "the") = .ok (flat [noteOn "the"]) :=
  ofText_noted lines_word (by decide +kernel)

theorem ofText_digit : FlatChart.ofText (noted "2nd") = .ok (flat [noteOn "2nd"]) :=
  ofText_noted lines_digit (by decide +kernel)

theorem callable_word : (flat []).Callable stateA word where
  source := by decide
  mem := by decide
  sole := by decide
  composite := rfl
  free := by decide
  outside := by decide
  arrow := ⟨_, List.mem_cons_self, rfl, rfl⟩

theorem callable_digit : (flat []).Callable stateA digit where
  source := by decide
  mem := by decide
  sole := by decide
  composite := rfl
  free := by decide
  outside := by decide
  arrow := ⟨_, List.mem_cons_of_mem _ List.mem_cons_self, rfl, rfl⟩

end Sample.Called

open Sample.Called

theorem Insertion.recalls_the : FlatChart.ofText Sample.Called.text = .ok (flat []) ∧
    (Text.linesOf Sample.Called.text).map Text.trimmed = Sample.Called.lines ++ [] ∧
    (Text.linesOf (noted "the")).map Text.trimmed =
      Sample.Called.lines ++ callLine stateA.name Sample.Called.word.name :: [] ∧
    Event.within Sample.Called.lines = false ∧
    FlatChart.ofText (noted "the") = .ok (flat [noteOn "the"]) ∧
    (flat []).Callable stateA Sample.Called.word ∧
    ∃ g, (flat [noteOn "the"]).withHistory = .ok g ∧
      (flat []).Recalls g 10 stateA Sample.Called.word := by
  have hlines : (Text.linesOf Sample.Called.text).map Text.trimmed = Sample.Called.lines ++ [] :=
    lines_text.trans (List.append_nil _).symm
  have hline : (noteOn "the").line = Sample.Called.lines.length + 1 := rfl
  have hnoted : noteOn "the" ∈ (flat [noteOn "the"]).notes := List.mem_cons_self
  obtain ⟨hiff, hrecalls, -⟩ := recalls_of_text (a := stateA) (s := Sample.Called.word) hlines
    lines_word within_lines ofText_text ofText_word callable_word hnoted hline rfl
  obtain ⟨g, hg⟩ := hiff.2 ⟨by decide +kernel, flat [], rfl⟩
  exact ⟨ofText_text, hlines, lines_word, within_lines, ofText_word, callable_word, g, hg,
    hrecalls g hg⟩

/-- No note can call for the composite `2nd`, as no phrase has a name that begins with a digit. -/
theorem Insertion.unheard_digit : FlatChart.ofText Sample.Called.text = .ok (flat []) ∧
    (flat []).withHistory = .ok (flat []) ∧
    (flat []).Callable stateA digit ∧ stateA ≠ digit ∧
    (Text.linesOf Sample.Called.text).map Text.trimmed = Sample.Called.lines ∧
    (Text.linesOf (noted "2nd")).map Text.trimmed =
      Sample.Called.lines ++ [callLine stateA.name digit.name] ∧
    Event.within Sample.Called.lines = false ∧
    FlatChart.ofText (noted "2nd") = .ok (flat [noteOn "2nd"]) ∧
    (noteOn "2nd").state = stateA.id ∧
    (flat [noteOn "2nd"]).withHistory = .error (fault (noteOn "2nd") .noPhrase) := by
  refine ⟨ofText_text, rfl, callable_digit, by decide, lines_text, lines_digit, within_lines,
    ofText_digit, rfl, ?_⟩
  decide +kernel

end Statechart
