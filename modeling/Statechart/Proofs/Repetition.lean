import Mathlib
import Statechart.Proofs.History

namespace Statechart.History

variable {ss : List State} {ts : List Transition} {ns : List Note} {n : Note} {name : String}
  {c : NodeId} {o o' : Outcome} {task : Task} {tasks : List Task}

def Task.remarks : Task → List Remark
  | .review _ | .attach _ _ => []
  | .keep n => remarksOf n

theorem state_of_mem_remarksOf {n : Note} {r : Remark} (h : r ∈ remarksOf n) :
    r.state = n.state := by
  have htyped : ∀ ls : List (RemarkKind × String),
      ∀ r ∈ ls.map fun x => Remark.mk n.state x.1 x.2 n.line, r.state = n.state :=
    fun _ => List.forall_mem_map.2 fun _ _ => rfl
  simp only [remarksOf] at h
  split at h
  · exact htyped _ r h
  · rcases List.mem_append.1 h with h | h
    · exact htyped _ r h
    · rw [List.mem_singleton.1 h]

theorem remarks_attach (h : attach o n name = .ok o') : o'.remarks = o.remarks := by
  obtain ⟨c, ss, ts, -, -, -, rfl⟩ := attach_eq_ok.1 h
  rfl

theorem remarks_step (h : step o task = .ok o') : o'.remarks = o.remarks ++ task.remarks := by
  cases task with
  | review n => simp [(review_of_step h).2, Task.remarks]
  | attach n name => simp [remarks_attach (attach_of_step h), Task.remarks]
  | keep n =>
    cases h
    rfl

theorem remarks_foldlM (h : tasks.foldlM step o = .ok o') :
    o'.remarks = o.remarks ++ tasks.flatMap Task.remarks := by
  induction tasks generalizing o with
  | nil =>
    cases h
    simp
  | cons task tasks ih =>
    obtain ⟨m, hm, hr⟩ := foldlM_cons_ok.1 h
    rw [ih hr, remarks_step hm, List.append_assoc, List.flatMap_cons]

def Done (ss : List State) (ts : List Transition) : Task → Prop
  | .review n => isVague n.text = false
  | .attach n name => ∃ c, composite ss n name = .ok c ∧
      (∃ s ∈ ss, s.id = idOf c) ∧ (∀ s ∈ ss, s.id = idOf c → s.kind = .history) ∧
      (∃ t ∈ ts, concerns n c t) ∧ ∀ t ∈ ts, concerns n c t → t.target ≠ c
  | .keep _ => True

theorem provide_of_exists (hs : ∃ s ∈ ss, s.id = idOf c)
    (hk : ∀ s ∈ ss, s.id = idOf c → s.kind = .history) (line : Nat) :
    provide ss c line = .ok ss := by
  obtain ⟨s, hf⟩ : ∃ s, ss.find? (fun s => s.id = idOf c) = some s := by
    rw [← Option.isSome_iff_exists, List.find?_isSome]
    simpa using hs
  have hid : s.id = idOf c := by simpa using List.find?_some hf
  exact provide_eq_ok.2 (.inr ⟨s, hf, hk s (List.mem_of_find?_eq_some hf) hid, rfl⟩)

theorem redirect_of_forall_ne (ht : ∃ t ∈ ts, concerns n c t)
    (hc : ∀ t ∈ ts, concerns n c t → t.target ≠ c) : redirect ts n c = .ok ts := by
  have hturn : ∀ t ∈ ts, turn n c t = t := by
    intro t hm
    by_cases htc : concerns n c t
    · exact turn_of_ne (hc t hm htc)
    · simp [turn, htc]
  exact redirect_eq_ok.2 ⟨ht, by rw [List.map_congr_left hturn, List.map_id']⟩

theorem step_of_done (h : Done o.states o.transitions task) : ∃ o', step o task = .ok o' ∧
    o'.states = o.states ∧ o'.transitions = o.transitions ∧
    ∃ more, o'.attachments = o.attachments ++ more ∧ ∀ a ∈ more, a.turned = 0 := by
  cases task with
  | review n =>
    have hv : ¬ isVague n.text := Bool.eq_false_iff.1 h
    exact ⟨o, if_neg hv, rfl, rfl, [], by simp⟩
  | keep n => exact ⟨_, rfl, rfl, rfl, [], by simp⟩
  | attach n name =>
    obtain ⟨c, hc, hs, hk, ht, hne⟩ := h
    have hzero : o.transitions.countP (fun t => concerns n c t && t.target = c) = 0 := by
      rw [List.countP_eq_zero]
      intro t hm htc
      rw [Bool.and_eq_true, decide_eq_true_eq] at htc
      exact hne t hm htc.1 htc.2
    have hattach := attach_eq_ok.2 ⟨c, _, _, hc, provide_of_exists hs hk n.line,
      redirect_of_forall_ne ht hne, rfl⟩
    simp only [step, hattach]
    exact ⟨_, rfl, rfl, rfl, _, rfl, by simpa using hzero⟩

theorem foldlM_of_done (h : ∀ task ∈ tasks, Done o.states o.transitions task) :
    ∃ o', tasks.foldlM step o = .ok o' ∧ o'.states = o.states ∧ o'.transitions = o.transitions ∧
      ∃ more, o'.attachments = o.attachments ++ more ∧ ∀ a ∈ more, a.turned = 0 := by
  induction tasks generalizing o with
  | nil => exact ⟨o, rfl, rfl, rfl, [], by simp⟩
  | cons task tasks ih =>
    obtain ⟨hd, hrest⟩ := List.forall_mem_cons.1 h
    obtain ⟨m, hm, hs, ht, first, ha, hfirst⟩ := step_of_done hd
    obtain ⟨r, hr, hrs, hrt, more, hra, hmore⟩ := ih (o := m) (by rwa [hs, ht])
    refine ⟨r, foldlM_cons_ok.2 ⟨m, hm, hr⟩, hrs.trans hs, hrt.trans ht, first ++ more, ?_, ?_⟩
    · rw [hra, ha, List.append_assoc]
    · exact List.forall_mem_append.2 ⟨hfirst, hmore⟩

theorem target_recalled_ne (ha : Apart (calls ss ns)) {k : Note × NodeId} (hk : k ∈ calls ss ns)
    {t : Transition} (hs : speaksOf k.1 k.2 t.source) : (recalled ss ns t).target ≠ k.2 := by
  rcases recalled_cases ss ns t with heq | ⟨l, hl, -, -, heq⟩
  · rw [heq]
    rintro htk
    obtain ⟨hn, hc⟩ := mem_calls.1 hk
    have hto : recalled ss ns t = { t with target := idOf t.target } :=
      if_pos ⟨k.1, hn, htk ▸ hc, htk ▸ hs⟩
    -- the history state would be called for as a composite
    have hid : idOf t.target = t.target := congrArg Transition.target (hto.symm.trans heq)
    exact ha k hk k hk (htk ▸ hid)
  · rw [heq]
    exact ha l hl k hk

theorem done_of_carryOut (hd : (ss.map State.id).Nodup) (h : carryOut ss ts ns = .ok o) :
    ∀ task ∈ ns.flatMap tasksOf, Done o.states o.transitions task := by
  obtain ⟨hrun, hnamed⟩ := carryOut_ok hd h
  have hapart := apart_of_free hrun.free fun k hk => composite_of_mem_calls hk
  intro task htask
  cases task with
  | keep n => trivial
  | review n =>
    obtain ⟨m, m', hm⟩ := step_ok_of_foldlM h _ htask
    exact (review_of_step hm).1
  | attach n name =>
    obtain ⟨hn, p, hp, rfl⟩ := phrase_of_attach_mem htask
    obtain ⟨c, hc, hcall⟩ := hnamed n hn p hp
    have hadded : ∀ s ∈ newcomers (ss.map State.id) (calls ss ns), s.kind = .history :=
      fun s hs => (mem_newcomers hs).1
    refine ⟨c, ?_, ?_, ?_, ?_, ?_⟩
    · rw [hrun.states]
      exact (composite_append hadded).trans hc
    · rw [hrun.states]
      exact exists_provided ss hcall
    · rw [hrun.states]
      rintro s hs hid
      rcases List.mem_append.1 hs with hs | hs
      · exact hrun.free _ hcall s hs hid
      · exact hadded s hs
    · obtain ⟨t, ht, htarget, hspeaks⟩ := hrun.motive _ hcall
      exact ⟨t, ht, concerns_iff.2 ⟨.inr htarget, hspeaks⟩⟩
    · intro t ht htc
      rw [transitions_of_carryOut hd h] at ht
      obtain ⟨u, -, rfl⟩ := List.mem_map.1 ht
      refine target_recalled_ne hapart hcall ?_
      rw [← recalled_source ss ns u]
      exact (concerns_iff.1 htc).2

def repeated (ns : List Note) : Nat → Outcome → Except Fault Outcome
  | 0, o => .ok o
  | k + 1, o =>
    match carryOut o.states o.transitions ns with
    | .error e => .error e
    | .ok o => repeated ns k o

structure Same (o o' : Outcome) : Prop where
  states : o'.states = o.states
  transitions : o'.transitions = o.transitions
  remarks : o'.remarks = o.remarks

theorem carryOut_again (hd : (ss.map State.id).Nodup) (h : carryOut ss ts ns = .ok o) :
    ∃ o', carryOut o.states o.transitions ns = .ok o' ∧ Same o o' ∧
      ∀ a ∈ o'.attachments, a.turned = 0 := by
  have hdone := done_of_carryOut hd h
  obtain ⟨r, hr, hs, ht, more, ha, hmore⟩ := foldlM_of_done (o := start o.states o.transitions) hdone
  refine ⟨r, hr, ⟨hs, ht, ?_⟩, ?_⟩
  · rw [remarks_foldlM hr, remarks_foldlM h]
    rfl
  · rw [ha]
    exact hmore

theorem carryOut_idempotent (hd : (ss.map State.id).Nodup) (h : carryOut ss ts ns = .ok o)
    (k : Nat) : ∃ o', repeated ns k o = .ok o' ∧ Same o o' ∧
      (0 < k → ∀ a ∈ o'.attachments, a.turned = 0) := by
  induction k generalizing ss ts o with
  | zero => exact ⟨o, rfl, ⟨rfl, rfl, rfl⟩, by simp⟩
  | succ k ih =>
    obtain ⟨m, hm, hsame, hturned⟩ := carryOut_again hd h
    have hnodup : (o.states.map State.id).Nodup := (carriedOut_of_carryOut hd h).distinct
    obtain ⟨r, hr, hrest, hzero⟩ := ih hnodup hm
    refine ⟨r, ?_, ?_, ?_⟩
    · simp only [repeated, hm]
      exact hr
    · exact ⟨hrest.states.trans hsame.states, hrest.transitions.trans hsame.transitions,
        hrest.remarks.trans hsame.remarks⟩
    · intro _
      cases k with
      | zero =>
        cases hr
        exact hturned
      | succ k => exact hzero k.succ_pos

theorem carryOut_idempotent_sample : (Sample.states.map State.id).Nodup ∧
    carryOut Sample.states Sample.transitions Sample.notes = .ok Sample.outcome ∧
    ∃ o', repeated Sample.notes 3 Sample.outcome = .ok o' ∧ Same Sample.outcome o' ∧
      (0 < 3 → ∀ a ∈ o'.attachments, a.turned = 0) := by
  have hd : (Sample.states.map State.id).Nodup := by decide +kernel
  have h : carryOut Sample.states Sample.transitions Sample.notes = .ok Sample.outcome := by
    rfl
  exact ⟨hd, h, carryOut_idempotent hd h 3⟩

end Statechart.History
