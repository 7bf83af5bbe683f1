import Mathlib
import Statechart.Proofs.Progress

namespace Statechart

namespace Event

def rise : Event → Int
  | opening _ => 1
  | close => -1
  | direction _ | separator | clause _ => 0

def depth (es : List (Located Event)) : Int :=
  (es.map fun e => e.item.rise).sum

def IsInner (e : Event) : Prop :=
  e = close ∨ e = separator

def Guarded (es : List (Located Event)) : Prop :=
  ∀ before e, before ++ [e] <+: es → IsInner e.item → 0 < depth before

structure Balanced (es : List (Located Event)) : Prop where
  guarded : Guarded es
  closed : depth es = 0

structure Matched (es : List (Located Event)) : Prop where
  closed : depth es = 0
  opened : ∀ before, before <+: es → 0 ≤ depth before

inductive Blames (es : List (Located Event)) : Fault → Prop
  | close {before : List (Located Event)} {e : Located Event} : before ++ [e] <+: es →
      Guarded before → depth before = 0 → e.item = .close → Blames es (e.fault .strayClose)
  | separator {before : List (Located Event)} {e : Located Event} : before ++ [e] <+: es →
      Guarded before → depth before = 0 → e.item = .separator →
      Blames es (e.fault .straySeparator)
  | opening {before after : List (Located Event)} {e : Located Event} {o : Opening} :
      Guarded es → es = before ++ e :: after → e.item = .opening o → Matched after →
      Blames es (e.fault (.openState o.name))

/-- The directions that are asked for outside all bodies, where `n` are open before the events. -/
def directionsAt (n : Int) : List (Located Event) → List Direction
  | [] => []
  | e :: es =>
    match e.item with
    | direction d => if n = 0 then d :: directionsAt n es else directionsAt n es
    | i => directionsAt (n + i.rise) es

section Depth

variable {es ds before : List (Located Event)} {e : Located Event}

theorem depth_append (es ds : List (Located Event)) : depth (es ++ ds) = depth es + depth ds := by
  simp [depth]

theorem depth_singleton (e : Located Event) : depth [e] = e.item.rise := by
  simp [depth]

theorem guarded_nil : Guarded [] := by
  intro before e h
  simp at h

theorem guarded_concat : Guarded (es ++ [e]) ↔ Guarded es ∧ (IsInner e.item → 0 < depth es) := by
  constructor
  · intro h
    exact ⟨fun before d hd => h before d (hd.trans (List.prefix_append es [e])),
      h es e (List.prefix_refl _)⟩
  · rintro ⟨hes, he⟩ before d hd hinner
    rcases List.prefix_concat_iff.1 hd with heq | hd
    · obtain ⟨rfl, hde⟩ := List.append_inj' heq rfl
      obtain rfl := List.singleton_inj.1 hde
      exact he hinner
    · exact hes before d hd hinner

theorem Guarded.depth_nonneg (h : Guarded es) : 0 ≤ depth es := by
  induction es using List.reverseRecOn with
  | nil => exact le_rfl
  | append_singleton es e ih =>
    obtain ⟨hes, he⟩ := guarded_concat.1 h
    have hbefore := ih hes
    rw [depth_append, depth_singleton]
    cases hi : e.item with
    | close =>
      have hopen := he (.inl hi)
      have hrise : rise close = -1 := rfl
      omega
    | opening | separator | clause | direction =>
      simp only [rise]
      omega

theorem matched_nil : Matched [] :=
  ⟨rfl, fun before h => by rw [List.prefix_nil.1 h]; exact le_rfl⟩

theorem Matched.concat (h : Matched es) (he : e.item.rise = 0) : Matched (es ++ [e]) := by
  have hclosed : depth (es ++ [e]) = 0 := by rw [depth_append, depth_singleton, h.closed, he, add_zero]
  refine ⟨hclosed, fun before hb => ?_⟩
  rcases List.prefix_concat_iff.1 hb with rfl | hb
  · exact hclosed.ge
  · exact h.opened before hb

theorem Matched.append (h : Matched es) (hd : Matched ds) : Matched (es ++ ds) := by
  refine ⟨by rw [depth_append, h.closed, hd.closed, add_zero], fun before hb => ?_⟩
  rcases List.prefix_or_prefix_of_prefix hb (List.prefix_append es ds) with hb | ⟨rest, rfl⟩
  · exact h.opened before hb
  · rw [depth_append, h.closed, zero_add]
    exact hd.opened rest ((List.prefix_append_right_inj es).1 hb)

theorem Matched.enclosed {o c : Located Event} (h : Matched es) (ho : o.item.rise = 1)
    (hc : c.item.rise = -1) : Matched (o :: (es ++ [c])) := by
  have hcons : ∀ ds, depth (o :: ds) = 1 + depth ds := by
    intro ds
    rw [← ho, ← depth_singleton, ← depth_append, List.singleton_append]
  have hclosed : depth (o :: (es ++ [c])) = 0 := by
    rw [hcons, depth_append, depth_singleton, h.closed, hc]
    rfl
  refine ⟨hclosed, fun before hb => ?_⟩
  rcases List.prefix_cons_iff.1 hb with rfl | ⟨inner, rfl, hinner⟩
  · exact le_rfl
  · rcases List.prefix_concat_iff.1 hinner with rfl | hinner
    · exact hclosed.ge
    · have hopened := h.opened inner hinner
      rw [hcons]
      omega

theorem directionsAt_concat (n : Int) (es : List (Located Event)) (e : Located Event) :
    directionsAt n (es ++ [e]) = directionsAt n es ++ directionsAt (n + depth es) [e] := by
  induction es generalizing n with
  | nil => simp [directionsAt, depth]
  | cons d es ih =>
    have hdepth : n + depth (d :: es) = n + d.item.rise + depth es := by
      rw [← List.singleton_append, depth_append, depth_singleton, add_assoc]
    rw [List.cons_append, hdepth]
    cases hd : d.item with
    | direction c =>
      rw [show n + (direction c).rise = n from add_zero n]
      by_cases hn : n = 0 <;> simp [directionsAt, hd, hn, ih]
    | opening | close | separator | clause => simp only [directionsAt, hd, ih]

end Depth

end Event

inductive Token where
  | clause (c : Located Clause)
  | opening (o : Located Opening)
  | separator
  | close
  deriving DecidableEq, Repr

def Event.token? (e : Located Event) : Option Token :=
  match e.item with
  | .clause c => some (.clause ⟨c, e.line, e.text⟩)
  | .opening o => some (.opening ⟨o, e.line, e.text⟩)
  | .separator => some .separator
  | .close => some .close
  | .direction _ => none

namespace BlockTree

mutual

def tokens : Item → List Token
  | .clause c => [.clause c]
  | .composite head first more =>
    .opening head :: (tokensOf first ++ (tokensAfter more ++ [.close]))

def tokensOf : List Item → List Token
  | [] => []
  | i :: is => tokens i ++ tokensOf is

def tokensAfter : List (List Item) → List Token
  | [] => []
  | b :: bs => .separator :: (tokensOf b ++ tokensAfter bs)

end

theorem tokensOf_append (b c : Block) : tokensOf (b ++ c) = tokensOf b ++ tokensOf c := by
  induction b with
  | nil => simp [tokensOf]
  | cons i b ih => simp [tokensOf, ih]

theorem tokensOf_singleton (i : Item) : tokensOf [i] = tokens i := by
  rw [tokensOf, tokensOf, List.append_nil]

theorem tokensAfter_append (bs cs : List Block) :
    tokensAfter (bs ++ cs) = tokensAfter bs ++ tokensAfter cs := by
  induction bs with
  | nil => simp [tokensAfter]
  | cons b bs ih => simp [tokensAfter, ih]

def OpenBody.tokens (f : OpenBody) : List Token :=
  match f.regions with
  | [] => .opening f.head :: tokensOf f.current
  | r :: rs => .opening f.head :: (tokensOf r ++ tokensAfter (rs ++ [f.current]))

theorem OpenBody.tokens_close (f : OpenBody) : BlockTree.tokens f.close = f.tokens ++ [.close] := by
  cases hr : f.regions with
  | nil => simp [OpenBody.close, OpenBody.tokens, hr, BlockTree.tokens, tokensAfter]
  | cons r rs => simp [OpenBody.close, OpenBody.tokens, hr, BlockTree.tokens]

theorem OpenBody.tokens_add (f : OpenBody) (i : Item) :
    { f with current := f.current ++ [i] }.tokens = f.tokens ++ BlockTree.tokens i := by
  cases hr : f.regions with
  | nil => simp [OpenBody.tokens, hr, tokensOf_append, tokensOf_singleton]
  | cons r rs =>
    simp [OpenBody.tokens, hr, tokensOf_append, tokensOf_singleton, tokensAfter_append, tokensAfter]

theorem OpenBody.tokens_separate (f : OpenBody) :
    { f with regions := f.regions ++ [f.current], current := [] }.tokens =
      f.tokens ++ [.separator] := by
  cases hr : f.regions with
  | nil => simp [OpenBody.tokens, hr, tokensAfter, tokensOf]
  | cons r rs => simp [OpenBody.tokens, hr, tokensAfter_append, tokensAfter, tokensOf]

def Progress.tokens (p : Progress) : List Token :=
  tokensOf p.body ++ p.stack.reverse.flatMap OpenBody.tokens

theorem Progress.tokens_add (p : Progress) (i : Item) :
    (p.add i).tokens = p.tokens ++ BlockTree.tokens i := by
  unfold Progress.add Progress.tokens
  split <;> rename_i hs <;>
    simp [hs, OpenBody.tokens_add, tokensOf_append, tokensOf_singleton]

theorem Progress.tokens_step {p q : Progress} {e : Located Event} (h : p.step e = .ok q) :
    q.tokens = p.tokens ++ (Event.token? e).toList := by
  cases Progress.step_ok.1 h with
  | clause => simp [Progress.tokens_add, Event.token?, BlockTree.tokens]
  | opening => simp [Progress.tokens, OpenBody.tokens, Event.token?, tokensOf]
  | separator hs => simp [Progress.tokens, hs, OpenBody.tokens_separate, Event.token?]
  | close hs =>
    rw [Progress.tokens_add, OpenBody.tokens_close]
    simp [Progress.tokens, hs, Event.token?]
  | direction => split <;> simp [Progress.tokens, Event.token?]

/-- The bodies that the events leave open, innermost first: whatever follows the head of one, up to
    the head of the next, is matched. -/
inductive Rests : List (Located Event) → List OpenBody → Prop
  | top {es : List (Located Event)} : Event.depth es = 0 → Rests es []
  | body {es inner : List (Located Event)} {fs : List OpenBody} {f : OpenBody} : Rests es fs →
      Event.Matched inner →
      Rests (es ++ ⟨.opening f.head.item, f.head.line, f.head.text⟩ :: inner) (f :: fs)

section Rests

variable {es ds : List (Located Event)} {e : Located Event} {f : OpenBody} {fs : List OpenBody}

theorem Rests.depth_eq (h : Rests es fs) : Event.depth es = fs.length := by
  induction h with
  | top h => exact h
  | body _ hinner ih =>
    rw [← List.singleton_append, Event.depth_append, Event.depth_append, Event.depth_singleton, ih,
      hinner.closed, add_zero, List.length_cons, Nat.cast_succ]
    rfl

theorem Rests.append (h : Rests es fs) (hd : Event.Matched ds) : Rests (es ++ ds) fs := by
  cases h with
  | top h => exact .top (by rw [Event.depth_append, h, hd.closed, add_zero])
  | body h hinner =>
    rw [List.append_assoc, List.cons_append]
    exact .body h (hinner.append hd)

theorem Rests.head {g : OpenBody} (h : Rests es (f :: fs)) (hg : g.head = f.head) :
    Rests es (g :: fs) := by
  cases h with
  | body h hinner =>
    rw [← hg]
    exact .body h hinner

theorem Rests.close (h : Rests es (f :: fs)) (he : e.item = .close) : Rests (es ++ [e]) fs := by
  cases h with
  | body h hinner =>
    rw [List.append_assoc, List.cons_append]
    exact h.append (hinner.enclosed rfl (by rw [he]; rfl))

theorem Rests.add {p : Progress} (h : Rests es p.stack) (i : Item) : Rests es (p.add i).stack := by
  unfold Progress.add
  split
  · exact h
  · rename_i hs
    rw [hs] at h
    exact h.head rfl

end Rests

structure Reached (es : List (Located Event)) (p : Progress) : Prop where
  guarded : Event.Guarded es
  tokens : p.tokens = es.filterMap Event.token?
  rests : Rests es p.stack
  direction : p.direction = (Event.directionsAt 0 es).getLast?

namespace Reached

variable {es : List (Located Event)} {e : Located Event} {p q : Progress} {f : Fault}

theorem nil : Reached [] .empty :=
  ⟨Event.guarded_nil, rfl, .top rfl, rfl⟩

theorem depth_eq (h : Reached es p) : Event.depth es = p.stack.length :=
  h.rests.depth_eq

theorem step_guarded (h : Reached es p) (hq : p.step e = .ok q) : Event.Guarded (es ++ [e]) := by
  refine Event.guarded_concat.2 ⟨h.guarded, fun he => ?_⟩
  have hstack : p.stack ≠ [] := by
    cases Progress.step_ok.1 hq with
    | clause | opening | direction => rcases he with hi | hi <;> cases hi
    | separator hs | close hs => simp [hs]
  have hpos := List.length_pos_iff.2 hstack
  rw [h.depth_eq]
  omega

theorem step_rests (h : Reached es p) (hq : p.step e = .ok q) : Rests (es ++ [e]) q.stack := by
  have hrests := h.rests
  have hplain : e.item.rise = 0 → Rests (es ++ [e]) p.stack :=
    fun he => hrests.append (Event.matched_nil.concat he)
  cases Progress.step_ok.1 hq with
  | clause => exact (hplain rfl).add _
  | opening o n text => exact .body (f := ⟨⟨o, n, text⟩, [], []⟩) hrests Event.matched_nil
  | separator hs =>
    have hnext := hplain rfl
    rw [hs] at hnext
    exact hnext.head rfl
  | close hs =>
    rw [hs] at hrests
    exact Rests.add (hrests.close rfl) _
  | direction => split <;> exact hplain rfl

theorem step_direction (h : Reached es p) (hq : p.step e = .ok q) :
    q.direction = (Event.directionsAt 0 (es ++ [e])).getLast? := by
  have hdirection := h.direction
  rw [Event.directionsAt_concat, zero_add, h.depth_eq]
  cases Progress.step_ok.1 hq with
  | clause | opening | separator | close =>
    simp [Event.directionsAt, Progress.direction_add, hdirection]
  | direction =>
    cases hs : p.stack with
    | nil => simp [Event.directionsAt]
    | cons g gs =>
      have hne : (gs.length : Int) + 1 ≠ 0 := by omega
      simp [Event.directionsAt, hne, hdirection]

theorem step (h : Reached es p) (hq : p.step e = .ok q) : Reached (es ++ [e]) q where
  guarded := h.step_guarded hq
  tokens := by
    rw [Progress.tokens_step hq, h.tokens, List.filterMap_append]
    cases he : Event.token? e <;> simp [he]
  rests := h.step_rests hq
  direction := h.step_direction hq

theorem of_foldlM (h : es.foldlM Progress.step .empty = .ok p) : Reached es p :=
  foldlM_invariant Reached (fun _ _ _ _ _ hp hq => hp.step hq) .nil h

theorem blames_step (h : Reached es p) (he : p.step e = .error f) {after : List (Located Event)} :
    Event.Blames (es ++ e :: after) f := by
  have hfront : es ++ [e] <+: es ++ e :: after := ⟨after, by simp⟩
  obtain ⟨hs, hcase⟩ := Progress.step_error he
  have hdepth : Event.depth es = 0 := by
    rw [h.depth_eq, hs]
    rfl
  rcases hcase with ⟨hi, rfl⟩ | ⟨hi, rfl⟩
  · exact .separator hfront h.guarded hdepth hi
  · exact .close hfront h.guarded hdepth hi

theorem blames_open (h : Reached es p) {g : OpenBody} {gs : List OpenBody} (hs : p.stack = g :: gs) :
    Event.Blames es (g.head.fault (.openState g.head.item.name)) := by
  have hguarded := h.guarded
  have hrests := h.rests
  rw [hs] at hrests
  cases hrests with
  | body _ hinner => exact .opening hguarded rfl rfl hinner

end Reached

theorem blames_of_ofEvents {es : List (Located Event)} {f : Fault} (h : ofEvents es = .error f) :
    Event.Blames es f := by
  rcases ofEvents_error h with ⟨before, e, after, p, rfl, hp, he⟩ | ⟨p, g, gs, hp, hs, rfl⟩
  · exact (Reached.of_foldlM hp).blames_step he
  · exact (Reached.of_foldlM hp).blames_open hs

end BlockTree

theorem Event.Blames.not_balanced {es : List (Located Event)} {f : Fault} (h : Blames es f) :
    ¬Balanced es := by
  intro hb
  cases h with
  | close hfront _ hdepth hi =>
    have hpos := hb.guarded _ _ hfront (.inl hi)
    omega
  | separator hfront _ hdepth hi =>
    have hpos := hb.guarded _ _ hfront (.inr hi)
    omega
  | @opening before after e o _ hes hi hafter =>
    have hbefore : Guarded before := fun b d hd => hb.guarded b d (hd.trans ⟨e :: after, hes.symm⟩)
    have hnonneg := hbefore.depth_nonneg
    have hclosed := hb.closed
    rw [hes, ← List.singleton_append, depth_append, depth_append, depth_singleton, hafter.closed,
      hi] at hclosed
    have hrise : (Event.opening o).rise = 1 := rfl
    omega

namespace BlockTree

theorem ofEvents_outcome (es : List (Located Event)) :
    ((∃ t, ofEvents es = .ok t) ↔ Event.Balanced es) ∧
    (∀ t, ofEvents es = .ok t → tokensOf t.body = es.filterMap Event.token? ∧
      t.direction = (Event.directionsAt 0 es).getLast?) ∧
    ∀ f, ofEvents es = .error f → Event.Blames es f := by
  refine ⟨⟨fun ⟨t, ht⟩ => ?_, fun hb => ?_⟩, fun t ht => ?_, fun f hf => blames_of_ofEvents hf⟩
  · have hp := Reached.of_foldlM (ofEvents_ok.1 ht)
    exact ⟨hp.guarded, hp.depth_eq⟩
  · cases h : ofEvents es with
    | ok t => exact ⟨t, rfl⟩
    | error f => exact absurd hb (blames_of_ofEvents h).not_balanced
  · have hp := Reached.of_foldlM (ofEvents_ok.1 ht)
    exact ⟨(List.append_nil _).symm.trans hp.tokens, hp.direction⟩

end BlockTree

namespace Sample.Bodies

def events : List (Located Event) :=
  [⟨.opening ⟨"A", none⟩, 1, "state A \x7b"⟩,
    ⟨.direction .leftRight, 2, "direction LR"⟩,
    ⟨.clause (.initial "B"), 3, "[*] --> B"⟩,
    ⟨.separator, 4, "--"⟩,
    ⟨.opening ⟨"C", none⟩, 5, "state C \x7b"⟩,
    ⟨.close, 6, "\x7d"⟩,
    ⟨.close, 7, "\x7d"⟩,
    ⟨.direction .rightLeft, 8, "direction RL"⟩]

def tree : BlockTree where
  body :=
    [.composite ⟨⟨"A", none⟩, 1, "state A \x7b"⟩ [.clause ⟨.initial "B", 3, "[*] --> B"⟩]
      [[.composite ⟨⟨"C", none⟩, 5, "state C \x7b"⟩ [] []]]]
  direction := some .rightLeft

def fault : Fault :=
  .structural (.openState "C") 5 1 "state C \x7b"

end Sample.Bodies

open Sample.Bodies in
theorem BlockTree.ofEvents_bodies : Event.Balanced events ∧ ofEvents events = .ok tree ∧
    tokensOf tree.body = events.filterMap Event.token? ∧
    tree.direction = (Event.directionsAt 0 events).getLast? ∧
    ofEvents (events.take 5) = .error fault ∧ Event.Blames (events.take 5) fault := by
  obtain ⟨hbalanced, htree, -⟩ := ofEvents_outcome events
  have hok : ofEvents events = .ok tree := rfl
  have herror : ofEvents (events.take 5) = .error fault := rfl
  obtain ⟨htokens, hdirection⟩ := htree tree hok
  exact ⟨hbalanced.1 ⟨tree, hok⟩, hok, htokens, hdirection, herror,
    (ofEvents_outcome (events.take 5)).2.2 fault herror⟩

end Statechart
