import Mathlib
import Statechart.Block
import Statechart.Proofs.Run

namespace Statechart

def Located.map {α β : Type} (g : α → β) (a : Located α) : Located β :=
  ⟨g a.item, a.line, a.text⟩

namespace BlockTree

variable {p q : Progress} {e : Located Event} {es : List (Located Event)} {f : Fault} {t : BlockTree}

inductive Progress.Takes (p : Progress) : Located Event → Progress → Prop
  | clause (c : Clause) (n : Nat) (text : String) :
      Takes p ⟨.clause c, n, text⟩ (p.add (.clause ⟨c, n, text⟩))
  | opening (o : Opening) (n : Nat) (text : String) :
      Takes p ⟨.opening o, n, text⟩ { p with stack := ⟨⟨o, n, text⟩, [], []⟩ :: p.stack }
  | separator {g : OpenBody} {gs : List OpenBody} (hs : p.stack = g :: gs) (n : Nat)
      (text : String) : Takes p ⟨.separator, n, text⟩
        { p with stack := { g with regions := g.regions ++ [g.current], current := [] } :: gs }
  | close {g : OpenBody} {gs : List OpenBody} (hs : p.stack = g :: gs) (n : Nat) (text : String) :
      Takes p ⟨.close, n, text⟩ ({ p with stack := gs }.add g.close)
  | direction (d : Direction) (n : Nat) (text : String) : Takes p ⟨.direction d, n, text⟩
      (if p.stack.isEmpty then { p with direction := some d } else p)

theorem Progress.step_ok : p.step e = .ok q ↔ p.Takes e q := by
  constructor
  · intro h
    obtain ⟨item, n, text⟩ := e
    cases item with
    | clause c =>
      cases h
      exact .clause c n text
    | opening o =>
      cases h
      exact .opening o n text
    | direction d =>
      cases h
      exact .direction d n text
    | separator =>
      simp only [step] at h
      split at h
      · cases h
      · rename_i hs
        cases h
        exact .separator hs n text
    | close =>
      simp only [step] at h
      split at h
      · cases h
      · rename_i hs
        cases h
        exact .close hs n text
  · intro h
    cases h with
    | clause | opening | direction => rfl
    | separator hs | close hs => simp only [step, hs]

theorem Progress.step_error (h : p.step e = .error f) : p.stack = [] ∧
    (e.item = .separator ∧ f = e.fault .straySeparator ∨
      e.item = .close ∧ f = e.fault .strayClose) := by
  obtain ⟨item, n, text⟩ := e
  cases item with
  | clause | opening | direction => cases h
  | separator =>
    simp only [step] at h
    split at h
    · rename_i hs
      cases h
      exact ⟨hs, .inl ⟨rfl, rfl⟩⟩
    · cases h
  | close =>
    simp only [step] at h
    split at h
    · rename_i hs
      cases h
      exact ⟨hs, .inr ⟨rfl, rfl⟩⟩
    · cases h

theorem Progress.direction_add (p : Progress) (i : Item) : (p.add i).direction = p.direction := by
  unfold add
  split <;> rfl

theorem ofEvents_ok :
    ofEvents es = .ok t ↔ es.foldlM Progress.step .empty = .ok ⟨t.body, t.direction, []⟩ := by
  unfold ofEvents
  constructor
  · intro h
    split at h
    · cases h
    · rename_i p hp
      obtain ⟨body, direction, stack⟩ := p
      cases stack with
      | nil =>
        cases h
        exact hp
      | cons o os => cases h
  · intro h
    rw [h]
    rfl

theorem ofEvents_error (h : ofEvents es = .error f) :
    (∃ before e after p, es = before ++ e :: after ∧
      before.foldlM Progress.step .empty = .ok p ∧ p.step e = .error f) ∨
    ∃ p g gs, es.foldlM Progress.step .empty = .ok p ∧ p.stack = g :: gs ∧
      f = g.head.fault (.openState g.head.item.name) := by
  unfold ofEvents at h
  split at h
  · rename_i hf
    cases h
    exact .inl (foldlM_error_split hf)
  · rename_i p hp
    unfold Progress.finish at h
    split at h
    · cases h
    · rename_i g gs hs
      cases h
      exact .inr ⟨p, g, gs, hp, hs, rfl⟩

structure Grows (es : List (Located Event)) (M : Block → Prop) : Prop where
  nil : M []
  append : ∀ b c, M b → M c → M (b ++ c)
  clause : ∀ c : Located Clause, c.map .clause ∈ es → M [.clause c]
  composite : ∀ (h : Located Opening) (first : Block) (more : List Block), h.map .opening ∈ es →
    (∀ b ∈ first :: more, M b) → M [.composite h first more]

structure Progress.Made (es : List (Located Event)) (M : Block → Prop) (p : Progress) : Prop where
  body : M p.body
  stack : ∀ f ∈ p.stack, f.head.map .opening ∈ es ∧ (∀ b ∈ f.regions, M b) ∧ M f.current

section Grows

variable {M : Block → Prop}

theorem Grows.add (hM : Grows es M) (h : p.Made es M) {i : Item} (hi : M [i]) :
    (p.add i).Made es M := by
  unfold Progress.add
  split
  · exact ⟨hM.append _ _ h.body hi, h.stack⟩
  · rename_i f fs hs
    obtain ⟨⟨hhead, hregions, hcurrent⟩, hfs⟩ := List.forall_mem_cons.1 (hs ▸ h.stack)
    exact ⟨h.body, List.forall_mem_cons.2 ⟨⟨hhead, hregions, hM.append _ _ hcurrent hi⟩, hfs⟩⟩

theorem Grows.step (hM : Grows es M) (h : p.Made es M) {e : Located Event} (he : e ∈ es)
    (hs : p.step e = .ok q) : q.Made es M := by
  cases Progress.step_ok.1 hs with
  | clause c n text => exact hM.add h (hM.clause ⟨c, n, text⟩ he)
  | opening => exact ⟨h.body, List.forall_mem_cons.2 ⟨⟨he, by simp, hM.nil⟩, h.stack⟩⟩
  | @separator f fs hst =>
    obtain ⟨⟨hhead, hregions, hcurrent⟩, hfs⟩ := List.forall_mem_cons.1 (hst ▸ h.stack)
    have hall : ∀ b ∈ f.regions ++ [f.current], M b :=
      fun b hb => (List.mem_append.1 hb).elim (hregions b) fun hb => List.mem_singleton.1 hb ▸ hcurrent
    exact ⟨h.body, List.forall_mem_cons.2 ⟨⟨hhead, hall, hM.nil⟩, hfs⟩⟩
  | @close f fs hst =>
    obtain ⟨⟨hhead, hregions, hcurrent⟩, hfs⟩ := List.forall_mem_cons.1 (hst ▸ h.stack)
    have hout : Progress.Made es M { p with stack := fs } := ⟨h.body, hfs⟩
    refine hM.add hout ?_
    unfold OpenBody.close
    split
    · exact hM.composite _ _ _ hhead (by simpa using hcurrent)
    · rename_i r rs hr
      refine hM.composite _ _ _ hhead fun b hb => ?_
      rw [← List.cons_append, ← hr] at hb
      exact (List.mem_append.1 hb).elim (hregions b) fun hb => List.mem_singleton.1 hb ▸ hcurrent
  | direction =>
    split
    · exact ⟨h.body, h.stack⟩
    · exact h

theorem Grows.made (hM : Grows es M) (h : es.foldlM Progress.step .empty = .ok p) :
    p.Made es M :=
  foldlM_invariant (fun _ q => q.Made es M) (fun _ _ _ _ he hq hs => hM.step hq he hs)
    ⟨hM.nil, by simp [Progress.empty]⟩ h

theorem Grows.of_ofEvents (hM : Grows es M) (h : ofEvents es = .ok t) : M t.body :=
  (hM.made (ofEvents_ok.1 h)).body

end Grows

end BlockTree

end Statechart
