import Mathlib
import Statechart.Proofs.Brackets
import Statechart.Proofs.Lines

namespace Statechart.Label

variable {d : Nat} {c : Char} {cs ds before after : List Char} {l : Label} {s : String}

def isOpening (c : Char) : Bool :=
  c = '[' || c = '(' || c = '\x7b'

def isClosing (c : Char) : Bool :=
  c = ']' || c = ')' || c = '\x7d'

theorem depthFrom_cons (d : Nat) (c : Char) (cs : List Char) :
    depthFrom d (c :: cs) = depthFrom (depthAfter d c) cs :=
  rfl

theorem depthFrom_append (d : Nat) (cs ds : List Char) :
    depthFrom d (cs ++ ds) = depthFrom (depthFrom d cs) ds :=
  List.foldl_append

theorem depthAfter_opening (d : Nat) (h : isOpening c) : depthAfter d c = d + 1 := by
  refine if_pos ?_
  simpa [isOpening, or_assoc] using h

theorem depthAfter_closing (d : Nat) (h : isClosing c) : depthAfter d c = d - 1 := by
  have hc : (c = ']' ∨ c = ')') ∨ c = '\x7d' := by simpa [isClosing] using h
  rcases hc with (rfl | rfl) | rfl <;> rfl

theorem depthAfter_other (d : Nat) (hopening : ¬isOpening c) (hclosing : ¬isClosing c) :
    depthAfter d c = d := by
  unfold depthAfter
  rw [if_neg, if_neg]
  · simpa [isClosing, or_assoc] using hclosing
  · simpa [isOpening, or_assoc] using hopening

theorem not_isClosing (h : isOpening c) : isClosing c = false := by
  have hc : (c = '[' ∨ c = '(') ∨ c = '\x7b' := by simpa [isOpening] using h
  rcases hc with (rfl | rfl) | rfl <;> rfl

theorem depthFrom_of_prefixes
    (h : ∀ p, p <+: cs → p.countP isClosing ≤ p.countP isOpening + d) :
    depthFrom d cs + cs.countP isClosing = cs.countP isOpening + d := by
  induction cs generalizing d with
  | nil => simp [depthFrom]
  | cons c cs ih =>
    rw [forall_prefix_cons] at h
    simp only [List.countP_cons] at h ⊢
    rw [depthFrom_cons]
    by_cases hopening : isOpening c
    · simp only [hopening, not_isClosing hopening, if_true, Bool.false_eq_true, if_false] at h ⊢
      rw [depthAfter_opening d hopening]
      have hrest := ih (d := d + 1) fun q hq => by have := h.2 q hq; omega
      omega
    · by_cases hclosing : isClosing c
      · simp only [hopening, hclosing, if_true, Bool.false_eq_true, if_false] at h ⊢
        rw [depthAfter_closing d hclosing]
        have hpositive := h.2 [] List.nil_prefix
        have hrest := ih (d := d - 1) fun q hq => by have := h.2 q hq; omega
        simp only [List.countP_nil] at hpositive
        omega
      · simp only [hopening, hclosing, Bool.false_eq_true, if_false] at h ⊢
        rw [depthAfter_other d hopening hclosing]
        exact ih fun q hq => h.2 q hq

theorem slashless_cons : Slashless d (c :: cs) ↔
    ¬(c = '/' ∧ d = 0) ∧ Slashless (depthAfter d c) cs := by
  simp only [Slashless, slashAt_cons]
  constructor
  · intro h
    exact ⟨fun hc => h [] cs (.inl ⟨hc.1, hc.2, rfl, rfl⟩),
      fun b a hb => h (c :: b) a (.inr ⟨b, rfl, hb⟩)⟩
  · rintro ⟨hfirst, hrest⟩ b a (⟨hc, hd, -, -⟩ | ⟨b', -, hb⟩)
    · exact hfirst ⟨hc, hd⟩
    · exact hrest b' a hb

theorem slashless_nil : Slashless d [] := by
  rintro b a ⟨hcs, -⟩
  simp at hcs

theorem slashless_singleton (h : c ≠ '/') : Slashless d [c] :=
  slashless_cons.2 ⟨fun hc => h hc.1, slashless_nil⟩

theorem slashless_append :
    Slashless d (cs ++ ds) ↔ Slashless d cs ∧ Slashless (depthFrom d cs) ds := by
  induction cs generalizing d with
  | nil => simp [Slashless, SlashAt, depthFrom]
  | cons c cs ih =>
    rw [List.cons_append, slashless_cons, slashless_cons, ih, depthFrom_cons, and_assoc]

def Trimmed (s : String) : Prop :=
  Text.trim s.toList = s.toList ∧ s ≠ ""

/-- A guard that closes no bracket it has not opened, and leaves none open. -/
structure Closed (cs : List Char) : Prop where
  prefixes : ∀ p, p <+: cs → p.countP isClosing ≤ p.countP isOpening ∧ p.count ']' ≤ p.count '['
  all : cs.countP isClosing = cs.countP isOpening
  square : cs.count ']' = cs.count '['

structure Recomposable (l : Label) : Prop where
  trigger : ∀ t ∈ l.trigger, Trimmed t ∧ '[' ∉ t.toList ∧ depthFrom 0 t.toList = 0
  guard : ∀ g ∈ l.guard, Trimmed g ∧ Closed g.toList
  action : ∀ a ∈ l.action, Trimmed a ∧ Slashless 0 a.toList ∧
    ∀ inner, a.toList ≠ '\x7b' :: inner ++ ['\x7d']
  unslashed : l.action = none → ∀ t ∈ l.trigger, Slashless 0 t.toList

section Parts

theorem part_of_blank (h : ∀ b ∈ cs, Text.isBlank b) : part cs = none := by
  have htrim := Text.trim_append_of_blank h []
  rw [List.append_nil] at htrim
  rw [part, htrim]
  rfl

theorem part_eq_some (h : Trimmed s) (hcs : Text.trim cs = s.toList) : part cs = some s := by
  rw [part, hcs]
  cases hs : s.toList with
  | nil => exact absurd (String.toList_eq_nil_iff.1 hs) h.2
  | cons c r =>
    show some (String.ofList (c :: r)) = some s
    rw [← hs, String.ofList_toList]

def front (o : Option String) : List Char :=
  (o.getD "").toList

theorem trim_append_blank (h : ∀ b ∈ ds, Text.isBlank b) : Text.trim (cs ++ ds) = Text.trim cs := by
  induction ds using List.reverseRecOn with
  | nil => rw [List.append_nil]
  | append_singleton ds d ih =>
    rw [← List.append_assoc, Text.trim_concat_of_blank _ (h d (by simp))]
    exact ih fun b hb => h b (by simp [hb])

theorem part_front {o : Option String} (ho : ∀ s ∈ o, Trimmed s)
    (h : ∀ b ∈ ds, Text.isBlank b) : part (front o ++ ds) = o := by
  cases o with
  | none => exact part_of_blank h
  | some s => exact part_eq_some (ho s rfl) ((trim_append_blank h).trans (ho s rfl).1)

theorem part_action {a : String} (h : Trimmed a)
    (hbrace : ∀ inner, a.toList ≠ '\x7b' :: inner ++ ['\x7d']) :
    part (unbrace (' ' :: a.toList)) = some a := by
  have htrim : Text.trim (' ' :: a.toList) = a.toList := by
    have hblank : ∀ b ∈ [' '], Text.isBlank b := List.forall_mem_singleton.2 (by decide)
    exact (Text.trim_append_of_blank hblank a.toList).trans h.1
  have hkeep : unbrace (' ' :: a.toList) = a.toList := by
    rw [unbrace, htrim]
    cases hs : a.toList with
    | nil => rfl
    | cons c inner =>
      refine if_neg ?_
      rintro ⟨rfl, hlast⟩
      refine hbrace inner.dropLast ?_
      rw [hs, List.cons_append, List.dropLast_append_getLast? _ hlast]
  rw [hkeep]
  exact part_eq_some h h.1

end Parts

section Guards

theorem Closed.nested (h : Closed cs) : Nested 0 cs :=
  ⟨h.square.symm, fun p hp => (h.prefixes p hp).2⟩

theorem Closed.depthFrom (h : Closed cs) (d : Nat) : depthFrom d cs = d := by
  have hprefixes : ∀ p, p <+: cs → p.countP isClosing ≤ p.countP isOpening + d :=
    fun p hp => le_add_right (h.prefixes p hp).1
  have hdepth := depthFrom_of_prefixes hprefixes
  have hall := h.all
  omega

theorem Closed.slashless (h : Closed cs) : Slashless 1 cs := by
  rintro b a ⟨hcs, hdepth⟩
  have hb : b <+: cs := hcs ▸ List.prefix_append b _
  have hprefixes : ∀ p, p <+: b → p.countP isClosing ≤ p.countP isOpening + 1 :=
    fun p hp => le_add_right (h.prefixes p (hp.trans hb)).1
  have hcount := depthFrom_of_prefixes hprefixes
  have hclosed := (h.prefixes b hb).1
  omega

end Guards

section Lead

def gap (present : Bool) : List Char :=
  if present then [' '] else []

theorem isBlank_gap (present : Bool) : ∀ b ∈ gap present, Text.isBlank b := by
  cases present
  · exact List.forall_mem_nil _
  · exact List.forall_mem_singleton.2 (by decide)

def bracketed (g : String) : List Char :=
  '[' :: (g.toList ++ [']'])

def lead (l : Label) : List Char :=
  front l.trigger ++ (l.guard.map fun g => gap l.trigger.isSome ++ bracketed g).getD []

theorem toList_text (l : Label) : l.text.toList = l.lead ++
    (l.action.map fun a => gap (l.trigger.isSome || l.guard.isSome) ++ '/' :: ' ' :: a.toList).getD
      [] := by
  obtain ⟨t, g, a⟩ := l
  cases t <;> cases g <;> cases a <;> simp [text, lead, front, gap, bracketed, Text.joined]

theorem depthFrom_gap (d : Nat) (present : Bool) : depthFrom d (gap present) = d := by
  cases present <;> rfl

theorem slashless_gap (d : Nat) (present : Bool) : Slashless d (gap present) := by
  cases present
  · exact slashless_nil
  · exact slashless_singleton (by decide)

theorem depthFrom_bracketed {g : String} (h : Closed g.toList) : depthFrom 0 (bracketed g) = 0 := by
  rw [bracketed, depthFrom_cons, depthFrom_append, h.depthFrom]
  rfl

theorem slashless_bracketed {g : String} (h : Closed g.toList) : Slashless 0 (bracketed g) := by
  rw [bracketed, slashless_cons, slashless_append]
  exact ⟨by decide, h.slashless, slashless_singleton (by decide)⟩

variable (h : Recomposable l)

include h in
theorem depthFrom_front : depthFrom 0 (front l.trigger) = 0 := by
  cases ht : l.trigger with
  | none => rfl
  | some t => exact (h.trigger t ht).2.2

include h in
theorem depthFrom_lead : depthFrom 0 l.lead = 0 := by
  rw [lead, depthFrom_append, depthFrom_front h]
  cases hg : l.guard with
  | none => rfl
  | some g =>
    rw [Option.map_some, Option.getD_some, depthFrom_append, depthFrom_gap]
    exact depthFrom_bracketed (h.guard g hg).2

include h in
theorem slashless_lead (ha : l.action = none) : Slashless 0 l.lead := by
  have hfront : Slashless 0 (front l.trigger) := by
    cases ht : l.trigger with
    | none => exact slashless_nil
    | some t => exact h.unslashed ha t ht
  rw [lead, slashless_append, depthFrom_front h]
  refine ⟨hfront, ?_⟩
  cases hg : l.guard with
  | none => exact slashless_nil
  | some g =>
    rw [Option.map_some, Option.getD_some, slashless_append, depthFrom_gap]
    exact ⟨slashless_gap 0 _, slashless_bracketed (h.guard g hg).2⟩

include h in
theorem notMem_front : '[' ∉ front l.trigger := by
  cases ht : l.trigger with
  | none => exact List.not_mem_nil
  | some t => exact (h.trigger t ht).2.1

include h in
theorem ofUnslashed_lead (present : Bool) (action : Option String) :
    ofUnslashed (l.lead ++ gap present) action = ⟨l.trigger, l.guard, action⟩ := by
  have htrigger : ∀ t ∈ l.trigger, Trimmed t := fun t ht => (h.trigger t ht).1
  have hgap : ∀ present, '[' ∉ gap present := by decide
  cases hg : l.guard with
  | none =>
    have hlead : l.lead = front l.trigger := by
      rw [lead, hg, Option.map_none, Option.getD_none, List.append_nil]
    have hnone : cutAtBrackets (l.lead ++ gap present) = none := by
      refine Option.eq_none_iff_forall_ne_some.2 fun ⟨b, i, a⟩ hcut => ?_
      obtain ⟨⟨htext, -, -⟩, -⟩ := cutAtBrackets_eq_some.1 hcut
      have hmem : '[' ∈ l.lead ++ gap present := by simp [htext]
      rw [hlead, List.mem_append] at hmem
      exact hmem.elim (notMem_front h) (hgap present)
    rw [ofUnslashed, hnone, hlead]
    dsimp only
    rw [part_front htrigger (isBlank_gap present)]
  | some g =>
    obtain ⟨hg1, hg2⟩ := h.guard g hg
    have hlead : l.lead ++ gap present =
        (front l.trigger ++ gap l.trigger.isSome) ++ '[' :: (g.toList ++ ']' :: gap present) := by
      simp [lead, hg, bracketed]
    have hbefore : '[' ∉ front l.trigger ++ gap l.trigger.isSome := by
      rw [List.mem_append]
      exact fun hmem => hmem.elim (notMem_front h) (hgap _)
    have hcut := cutAtBrackets_eq_some.2 ⟨group_iff.2 ⟨hlead, hg2.nested⟩, hbefore⟩
    rw [ofUnslashed, hcut]
    dsimp only
    have hblank : ∀ b ∈ gap l.trigger.isSome ++ ' ' :: gap present, Text.isBlank b := by
      refine List.forall_mem_append.2 ⟨isBlank_gap _, List.forall_mem_cons.2 ⟨?_, isBlank_gap _⟩⟩
      decide
    rw [List.append_assoc, part_front htrigger hblank, part_eq_some hg1 hg1.1]

end Lead

theorem ofText?_text (h : Recomposable l) : ofText? (some l.text) = l := by
  have htext := l.toList_text
  rw [ofText?, ofText]
  cases ha : l.action with
  | none =>
    rw [ha, Option.map_none, Option.getD_none, List.append_nil] at htext
    have hread := ofUnslashed_lead h false none
    rw [show gap false = [] from rfl, List.append_nil] at hread
    rw [htext, cutAtSlash_eq_none.2 (slashless_lead h ha)]
    dsimp only
    rw [hread, ← ha]
  | some a =>
    obtain ⟨htrim, hslash, hbrace⟩ := h.action a ha
    rw [ha, Option.map_some, Option.getD_some, ← List.append_assoc] at htext
    have hcut : cutAtSlash 0 l.text.toList =
        some (l.lead ++ gap (l.trigger.isSome || l.guard.isSome), ' ' :: a.toList) := by
      refine cutAtSlash_eq_some.2 ⟨⟨htext, ?_⟩, slashless_cons.2 ⟨by decide, hslash⟩⟩
      rw [depthFrom_append, depthFrom_lead h, depthFrom_gap]
    rw [hcut]
    dsimp only
    rw [part_action htrim hbrace, ofUnslashed_lead h, ← ha]

namespace Sample

def paced : Label where
  trigger := some "tick / tock"
  guard := some "at[0] / (n)"
  action := some "set(n/2)"

theorem recomposable_paced : Recomposable paced := by
  constructor
  case trigger =>
    rintro _ ⟨⟩
    exact ⟨⟨by decide +kernel, by decide⟩, by decide +kernel, by decide +kernel⟩
  case guard =>
    rintro _ ⟨⟩
    refine ⟨⟨by decide +kernel, by decide⟩, fun p hp => ?_, by decide +kernel, by decide +kernel⟩
    have hall : ∀ p ∈ "at[0] / (n)".toList.inits,
        p.countP isClosing ≤ p.countP isOpening ∧ p.count ']' ≤ p.count '[' := by decide +kernel
    exact hall p ((List.mem_inits p _).2 hp)
  case action =>
    rintro _ ⟨⟩
    exact ⟨⟨by decide +kernel, by decide⟩, cutAtSlash_eq_none.1 (by decide +kernel), by simp⟩
  case unslashed => exact fun h => nomatch h

end Sample

open Sample in
theorem ofText?_text_paced : Recomposable paced ∧ ofText? (some paced.text) = paced :=
  ⟨recomposable_paced, ofText?_text recomposable_paced⟩

end Statechart.Label
