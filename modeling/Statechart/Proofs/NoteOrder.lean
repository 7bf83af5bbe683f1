import Mathlib
import Statechart.Proofs.Repetition

namespace Statechart.History

variable {ss : List State} {ts : List Transition} {ns ns' : List Note} {n : Note} {name : String}
  {c d : NodeId} {o o' : Outcome} {task : Task} {tasks : List Task} {added : List State}

def Possible (ss : List State) (ts : List Transition) : Task → Prop
  | .review n => isVague n.text = false
  | .attach n name => ∃ c, composite ss n name = .ok c ∧
      (∀ s ∈ ss, s.id = idOf c → s.kind = .history) ∧ ∃ t ∈ ts, concerns n c t
  | .keep _ => True

theorem provide_of_free (hk : ∀ s ∈ ss, s.id = idOf c → s.kind = .history) (line : Nat) :
    ∃ added, provide ss c line = .ok (ss ++ added) ∧ ∀ s ∈ added, s.kind = .history := by
  cases hf : ss.find? fun s => s.id = idOf c with
  | none => exact ⟨[stateOf c line], provide_eq_ok.2 (.inl ⟨hf, rfl⟩), by simp [stateOf]⟩
  | some s =>
    have hid : s.id = idOf c := by simpa using List.find?_some hf
    have hkind := hk s (List.mem_of_find?_eq_some hf) hid
    exact ⟨[], provide_eq_ok.2 (.inr ⟨s, hf, hkind, List.append_nil ss⟩), by simp⟩

theorem concerns_turn {m : Note} {t : Transition} (hd : idOf d ≠ c) (h : concerns m d t) :
    concerns m d (turn n c t) := by
  obtain ⟨htarget, hspeaks⟩ := concerns_iff.1 h
  refine concerns_iff.2 ⟨?_, by rwa [turn_source]⟩
  by_cases htc : t.target = c
  · obtain rfl : c = d := htarget.elim htc.symm.trans fun htd => absurd (htd.symm.trans htc) hd
    by_cases hn : concerns n c t
    · exact .inr (target_turn hn)
    · exact .inl (by simp [turn, hn, htc])
  · rwa [turn_of_ne htc]

theorem Possible.attached (h : Possible ss ts task) (hc : composite ss n name = .ok c)
    (ha : ∀ s ∈ added, s.kind = .history) : Possible (ss ++ added) (ts.map (turn n c)) task := by
  cases task with
  | review m => exact h
  | keep m => trivial
  | attach m name =>
    obtain ⟨d, hd, hfree, t, ht, htd⟩ := h
    have hne : idOf d ≠ c := by
      rintro rfl
      obtain ⟨s, hs, hid, hkind, -⟩ := composite_ok hc
      cases hkind.symm.trans (hfree s hs hid)
    refine ⟨d, (composite_append ha).trans hd, ?_, ?_⟩
    · intro s hs hid
      exact (List.mem_append.1 hs).elim (fun hs => hfree s hs hid) (ha s)
    · exact ⟨turn n c t, List.mem_map_of_mem ht, concerns_turn hne htd⟩

theorem step_of_possible (h : Possible o.states o.transitions task) : ∃ m, step o task = .ok m ∧
    ∀ other, Possible o.states o.transitions other → Possible m.states m.transitions other := by
  cases task with
  | review n => exact ⟨o, if_neg (Bool.eq_false_iff.1 h), fun _ => id⟩
  | keep n => exact ⟨_, rfl, fun _ => id⟩
  | attach n name =>
    obtain ⟨c, hc, hfree, hmotive⟩ := h
    obtain ⟨added, hprovide, hadded⟩ := provide_of_free hfree n.line
    have hredirect := redirect_eq_ok.2 ⟨hmotive, rfl⟩
    have hattach := attach_eq_ok.2 ⟨c, _, _, hc, hprovide, hredirect, rfl⟩
    refine ⟨attached o n c _ _, ?_, fun other hother => hother.attached hc hadded⟩
    simp only [step, hattach]

theorem foldlM_of_possible (h : ∀ task ∈ tasks, Possible o.states o.transitions task) :
    ∃ o', tasks.foldlM step o = .ok o' := by
  induction tasks generalizing o with
  | nil => exact ⟨o, rfl⟩
  | cons task tasks ih =>
    obtain ⟨hfirst, hrest⟩ := List.forall_mem_cons.1 h
    obtain ⟨m, hm, hkeep⟩ := step_of_possible hfirst
    obtain ⟨r, hr⟩ := ih fun other hother => hkeep other (hrest other hother)
    exact ⟨r, foldlM_cons_ok.2 ⟨m, hm, hr⟩⟩

theorem target_of_recalled {t : Transition} (h : (recalled ss ns t).target = idOf c) :
    t.target = c ∨ t.target = idOf c := by
  rcases recalled_cases ss ns t with heq | ⟨k, -, hk, -, heq⟩
  · exact .inr (heq ▸ h)
  · rw [heq] at h
    exact .inl (hk.trans (idOf_injective h))

theorem possible_of_carryOut (hd : (ss.map State.id).Nodup) (h : carryOut ss ts ns = .ok o) :
    ∀ task ∈ ns.flatMap tasksOf, Possible ss ts task := by
  obtain ⟨hrun, hnamed⟩ := carryOut_ok hd h
  intro task htask
  cases task with
  | keep n => trivial
  | review n =>
    obtain ⟨m, m', hm⟩ := step_ok_of_foldlM h _ htask
    exact (review_of_step hm).1
  | attach n name =>
    obtain ⟨hn, p, hp, rfl⟩ := phrase_of_attach_mem htask
    obtain ⟨c, hc, hcall⟩ := hnamed n hn p hp
    refine ⟨c, hc, hrun.free _ hcall, ?_⟩
    obtain ⟨t, ht, htarget, hspeaks⟩ := hrun.motive _ hcall
    rw [transitions_of_carryOut hd h] at ht
    obtain ⟨u, hu, rfl⟩ := List.mem_map.1 ht
    rw [recalled_source] at hspeaks
    exact ⟨u, hu, concerns_iff.2 ⟨target_of_recalled htarget, hspeaks⟩⟩

theorem exists_carryOut_iff (hd : (ss.map State.id).Nodup) :
    (∃ o, carryOut ss ts ns = .ok o) ↔ ∀ task ∈ ns.flatMap tasksOf, Possible ss ts task :=
  ⟨fun ⟨_, h⟩ => possible_of_carryOut hd h, fun h => foldlM_of_possible (o := start ss ts) h⟩

theorem recalled_perm (hp : ns.Perm ns') : recalled ss ns = recalled ss ns' := by
  funext t
  simp only [recalled, hp.mem_iff]

def unplaced (s : State) : State :=
  { s with line := 0 }

theorem mem_unplaced_newcomers {known : List NodeId} {ks : List (Note × NodeId)} {s : State} :
    s ∈ (newcomers known ks).map unplaced ↔
      ∃ k ∈ ks, idOf k.2 ∉ known ∧ s = stateOf k.2 0 := by
  rw [List.mem_map]
  constructor
  · rintro ⟨u, hu, rfl⟩
    obtain ⟨k, hk, hnew, rfl⟩ := mem_newcomers_iff.1 hu
    exact ⟨k, List.mem_of_find?_eq_some hk, hnew, rfl⟩
  · rintro ⟨k, hk, hnew, rfl⟩
    obtain ⟨l, hl⟩ : ∃ l, ks.find? (fun l => l.2 = k.2) = some l := by
      rw [← Option.isSome_iff_exists, List.find?_isSome]
      exact ⟨k, hk, by simp⟩
    have hlk : l.2 = k.2 := by simpa using List.find?_some hl
    rw [← hlk] at hl hnew ⊢
    exact ⟨_, mem_newcomers_iff.2 ⟨l, hl, hnew, rfl⟩, rfl⟩

theorem newcomers_perm {known : List NodeId} {ks ks' : List (Note × NodeId)} (hp : ks.Perm ks') :
    ((newcomers known ks).map unplaced).Perm ((newcomers known ks').map unplaced) := by
  have hnodup : ∀ ks, ((newcomers known ks).map unplaced).Nodup := by
    intro ks
    refine .of_map State.id ?_
    rw [List.map_map]
    exact nodup_newcomers ks
  refine (List.perm_ext_iff_of_nodup (hnodup ks) (hnodup ks')).2 fun s => ?_
  simp only [mem_unplaced_newcomers, hp.mem_iff]

theorem calls_perm (hp : ns.Perm ns') : (calls ss ns).Perm (calls ss ns') :=
  hp.flatMap_right _

/-- Outcomes that differ at most in the order and the lines of the history states that were added,
    in the order of the remarks, and in the record of what was turned when. -/
structure Reordered (ss : List State) (o o' : Outcome) : Prop where
  transitions : o'.transitions = o.transitions
  states : ∃ added added', o.states = ss ++ added ∧ o'.states = ss ++ added' ∧
    (∀ s ∈ added ++ added', s.kind = .history) ∧
    (added.map unplaced).Perm (added'.map unplaced)
  remarks : o'.remarks.Perm o.remarks

theorem reordered_of_perm (hd : (ss.map State.id).Nodup) (hp : ns.Perm ns')
    (h : carryOut ss ts ns = .ok o) (h' : carryOut ss ts ns' = .ok o') : Reordered ss o o' := by
  constructor
  case transitions =>
    rw [transitions_of_carryOut hd h, transitions_of_carryOut hd h', recalled_perm hp]
  case states =>
    refine ⟨_, _, (carryOut_ok hd h).1.states, (carryOut_ok hd h').1.states, ?_,
      newcomers_perm (calls_perm hp)⟩
    exact List.forall_mem_append.2 ⟨fun s hs => (mem_newcomers hs).1, fun s hs => (mem_newcomers hs).1⟩
  case remarks =>
    rw [remarks_foldlM h, remarks_foldlM h']
    exact ((hp.symm.flatMap_right tasksOf).flatMap_right Task.remarks).append_left _

theorem carryOut_perm (hd : (ss.map State.id).Nodup) (hp : ns.Perm ns') :
    ((∃ o, carryOut ss ts ns = .ok o) ↔ ∃ o, carryOut ss ts ns' = .ok o) ∧
    ∀ o o', carryOut ss ts ns = .ok o → carryOut ss ts ns' = .ok o' → Reordered ss o o' := by
  refine ⟨?_, fun o o' => reordered_of_perm hd hp⟩
  rw [exists_carryOut_iff hd, exists_carryOut_iff hd]
  simp only [(hp.flatMap_right tasksOf).mem_iff]

namespace Sample.Pair

def states : List State :=
  [⟨"On", ⟨"On"⟩, none, none, .composite, none, 1⟩, ⟨"Off", ⟨"Off"⟩, none, none, .composite, none, 2⟩,
    ⟨"Idle", ⟨"Idle"⟩, none, none, .simple, none, 3⟩]

def transitions : List Transition :=
  [⟨⟨"Idle"⟩, ⟨"On"⟩, .empty, 3⟩, ⟨⟨"Idle"⟩, ⟨"Off"⟩, .empty, 4⟩, ⟨⟨"On"⟩, ⟨"Off"⟩, .empty, 5⟩]

def plain : Note :=
  ⟨⟨"Idle"⟩, .left, "returns to On history", 6, ""⟩

def double : Note :=
  ⟨⟨"Idle"⟩, .right, "goes to Off history and\nreturns to On history\nentry / rest", 7, ""⟩

def outcome (added : List State) (attachments : List Attachment) : Outcome where
  states := states ++ added
  transitions := [⟨⟨"Idle"⟩, ⟨"On/H"⟩, .empty, 3⟩, ⟨⟨"Idle"⟩, ⟨"Off/H"⟩, .empty, 4⟩,
    ⟨⟨"On"⟩, ⟨"Off"⟩, .empty, 5⟩]
  remarks := [⟨⟨"Idle"⟩, .entry, "rest", 7⟩]
  attachments := attachments

def forward : Outcome :=
  outcome [stateOf ⟨"On"⟩ 6, stateOf ⟨"Off"⟩ 7] [⟨⟨"On"⟩, 1⟩, ⟨⟨"Off"⟩, 1⟩, ⟨⟨"On"⟩, 0⟩]

def backward : Outcome :=
  outcome [stateOf ⟨"Off"⟩ 7, stateOf ⟨"On"⟩ 7] [⟨⟨"Off"⟩, 1⟩, ⟨⟨"On"⟩, 1⟩, ⟨⟨"On"⟩, 0⟩]

end Sample.Pair

open Sample.Pair in
theorem carryOut_perm_sample : (Sample.Pair.states.map State.id).Nodup ∧
    [plain, double].Perm [double, plain] ∧
    carryOut Sample.Pair.states Sample.Pair.transitions [plain, double] = .ok forward ∧
    carryOut Sample.Pair.states Sample.Pair.transitions [double, plain] = .ok backward ∧
    Reordered Sample.Pair.states forward backward := by
  have hd : (Sample.Pair.states.map State.id).Nodup := by decide +kernel
  have hp : [plain, double].Perm [double, plain] := .swap ..
  have h : carryOut Sample.Pair.states Sample.Pair.transitions [plain, double] = .ok forward := by
    rfl
  have h' : carryOut Sample.Pair.states Sample.Pair.transitions [double, plain] =
      .ok backward := by
    rfl
  exact ⟨hd, hp, h, h', (carryOut_perm hd hp).2 _ _ h h'⟩

end Statechart.History
