import Mathlib
import Statechart.Label

namespace Statechart.Label

variable {d : Nat} {c : Char} {cs before inside after b i a : List Char}

def depthFrom (d : Nat) (cs : List Char) : Nat :=
  cs.foldl depthAfter d

/-- A slash outside brackets and what stands before and after it, in a text that begins at depth
    `d`. -/
def SlashAt (d : Nat) (cs before after : List Char) : Prop :=
  cs = before ++ '/' :: after ∧ depthFrom d before = 0

def Slashless (d : Nat) (cs : List Char) : Prop :=
  ∀ before after, ¬SlashAt d cs before after

theorem slashAt_cons : SlashAt d (c :: cs) before after ↔
    (c = '/' ∧ d = 0 ∧ before = [] ∧ after = cs) ∨
      ∃ b, before = c :: b ∧ SlashAt (depthAfter d c) cs b after := by
  cases before with
  | nil =>
    simp only [SlashAt, List.nil_append, List.cons.injEq, depthFrom, List.foldl_nil]
    constructor
    · rintro ⟨⟨rfl, rfl⟩, rfl⟩
      exact .inl ⟨rfl, rfl, trivial, rfl⟩
    · rintro (⟨hc, hd, -, hcs⟩ | ⟨b, hb, -⟩)
      · exact ⟨⟨hc, hcs.symm⟩, hd⟩
      · cases hb
  | cons x b =>
    simp only [SlashAt, List.cons_append, List.cons.injEq, depthFrom, List.foldl_cons]
    constructor
    · rintro ⟨⟨rfl, hcs⟩, hdepth⟩
      exact .inr ⟨b, ⟨rfl, rfl⟩, hcs, hdepth⟩
    · rintro (⟨-, -, hx, -⟩ | ⟨_, ⟨rfl, rfl⟩, hcs, hdepth⟩)
      · cases hx
      · exact ⟨⟨rfl, hcs⟩, hdepth⟩

theorem cutAtSlash_eq_none : cutAtSlash d cs = none ↔ Slashless d cs := by
  induction cs generalizing d with
  | nil =>
    refine iff_of_true rfl fun b a h => ?_
    simpa using h.1
  | cons c cs ih =>
    simp only [Slashless, slashAt_cons, not_or, not_exists, not_and]
    rw [cutAtSlash]
    cases hrest : cutAtSlash (depthAfter d c) cs with
    | some r =>
      refine iff_of_false (by simp) fun h => ?_
      have hnone : cutAtSlash (depthAfter d c) cs = none :=
        ih.2 fun b a => (h (c :: b) a).2 b rfl
      rw [hnone] at hrest
      cases hrest
    | none =>
      have hnone := ih.1 hrest
      simp only [ite_eq_right_iff, reduceCtorEq, imp_false]
      constructor
      · rintro h b a
        refine ⟨fun hc hd => absurd ⟨hc, hd⟩ h, fun b' _ => hnone b' a⟩
      · rintro h ⟨hc, hd⟩
        exact (h [] cs).1 hc hd rfl rfl

theorem cutAtSlash_eq_some : cutAtSlash d cs = some (before, after) ↔
    SlashAt d cs before after ∧ Slashless 0 after := by
  induction cs generalizing d before after with
  | nil => simp [cutAtSlash, SlashAt]
  | cons c cs ih =>
    rw [slashAt_cons, cutAtSlash]
    cases hrest : cutAtSlash (depthAfter d c) cs with
    | some r =>
      obtain ⟨b, a⟩ := r
      obtain ⟨hslash, hlast⟩ := ih.1 hrest
      simp only [Option.some.injEq, Prod.mk.injEq]
      constructor
      · rintro ⟨rfl, rfl⟩
        exact ⟨.inr ⟨b, rfl, hslash⟩, hlast⟩
      · rintro ⟨⟨rfl, rfl, rfl, rfl⟩ | ⟨b', rfl, hb'⟩, hnone⟩
        · -- a slash here would not be the last
          exact absurd hslash (hnone b a)
        · have hsame := hrest.symm.trans (ih.2 ⟨hb', hnone⟩)
          obtain ⟨rfl, rfl⟩ := Prod.mk.inj (Option.some.inj hsame)
          exact ⟨rfl, rfl⟩
    | none =>
      have hnone := cutAtSlash_eq_none.1 hrest
      simp only [Option.ite_none_right_eq_some, Option.some.injEq, Prod.mk.injEq]
      constructor
      · rintro ⟨⟨rfl, rfl⟩, rfl, rfl⟩
        exact ⟨.inl ⟨rfl, rfl, rfl, rfl⟩, hnone⟩
      · rintro ⟨⟨rfl, rfl, rfl, rfl⟩ | ⟨b', -, hb'⟩, -⟩
        · exact ⟨⟨rfl, rfl⟩, rfl, rfl⟩
        · exact absurd hb' (hnone b' after)

def Unslashed (cs r : List Char) : Prop :=
  (∃ after, SlashAt 0 cs r after ∧ ∀ b a, SlashAt 0 cs b a → b.length ≤ r.length) ∨
    (r = cs ∧ Slashless 0 cs)

theorem length_le_of_slashAt (h : SlashAt d cs before after) (hlast : Slashless 0 after)
    (hb : SlashAt d cs b a) : b.length ≤ before.length := by
  by_contra hlt
  obtain ⟨rfl, hdepth⟩ := h
  obtain ⟨hcs, hb0⟩ := hb
  rcases List.append_eq_append_iff.1 hcs with ⟨l, rfl, hl⟩ | ⟨l, hl, -⟩
  · cases l with
    | nil => simp at hlt
    | cons x l =>
      obtain ⟨rfl, rfl⟩ := List.cons.inj hl
      have hrest : depthFrom (depthFrom d before) ('/' :: l) = 0 := by
        rwa [depthFrom, List.foldl_append] at hb0
      rw [hdepth] at hrest
      exact hlast l a ⟨rfl, hrest⟩
  · simp [hl] at hlt

theorem unslashed_of_cutAtSlash (h : cutAtSlash 0 cs = some (before, after)) :
    Unslashed cs before := by
  obtain ⟨hslash, hlast⟩ := cutAtSlash_eq_some.1 h
  exact .inl ⟨after, hslash, fun b a => length_le_of_slashAt hslash hlast⟩

/-- A bracket group and what stands around it: as many `]` in it as `[`, and fewer in any part of it
    from its start that is not all of it. -/
structure Group (cs before inside after : List Char) : Prop where
  text : cs = before ++ ('[' :: inside ++ [']']) ++ after
  even : ('[' :: inside ++ [']']).count '[' = ('[' :: inside ++ [']']).count ']'
  opened : ∀ p, p <+: '[' :: inside ++ [']'] → p ≠ [] → p ≠ '[' :: inside ++ [']'] →
    p.count ']' < p.count '['

def Nested (d : Nat) (inside : List Char) : Prop :=
  inside.count '[' + d = inside.count ']' ∧ ∀ p, p <+: inside → p.count ']' ≤ p.count '[' + d

theorem forall_prefix_cons {P : List Char → Prop} :
    (∀ p, p <+: c :: cs → P p) ↔ P [] ∧ ∀ q, q <+: cs → P (c :: q) := by
  constructor
  · intro h
    exact ⟨h [] List.nil_prefix, fun q hq => h (c :: q) (List.cons_prefix_cons.2 ⟨rfl, hq⟩)⟩
  · rintro ⟨hnil, hcons⟩ p hp
    cases p with
    | nil => exact hnil
    | cons x q =>
      obtain ⟨rfl, hq⟩ := List.cons_prefix_cons.1 hp
      exact hcons q hq

theorem nested_open : Nested d ('[' :: inside) ↔ Nested (d + 1) inside := by
  simp only [Nested, forall_prefix_cons, List.count_nil, List.count_cons_self,
    List.count_cons_of_ne (show '[' ≠ ']' by decide), Nat.zero_le, true_and]
  refine and_congr (by omega) (forall₂_congr fun q _ => by omega)

theorem nested_close : Nested d (']' :: inside) ↔ ∃ e, d = e + 1 ∧ Nested e inside := by
  simp only [Nested, forall_prefix_cons, List.count_nil, List.count_cons_self,
    List.count_cons_of_ne (show ']' ≠ '[' by decide), Nat.zero_le, true_and]
  cases d with
  | zero =>
    refine iff_of_false (fun h => ?_) (by simp)
    simpa using h.2 [] List.nil_prefix
  | succ e =>
    simp only [Nat.add_right_cancel_iff, exists_eq_left']
    refine and_congr (by omega) (forall₂_congr fun q _ => by omega)

theorem nested_other (hopen : c ≠ '[') (hclose : c ≠ ']') :
    Nested d (c :: inside) ↔ Nested d inside := by
  simp only [Nested, forall_prefix_cons, List.count_nil, List.count_cons_of_ne hopen,
    List.count_cons_of_ne hclose, Nat.zero_le, true_and]

theorem nested_nil : Nested d [] ↔ d = 0 := by
  simp [Nested]

theorem cut_cons : (c :: cs = inside ++ ']' :: after ∧ Nested d inside) ↔
    (c = ']' ∧ d = 0 ∧ inside = [] ∧ cs = after) ∨
      ∃ i, (cs = i ++ ']' :: after ∧ Nested d (c :: i)) ∧ c :: i = inside := by
  cases inside with
  | nil =>
    constructor
    · rintro ⟨hcs, hn⟩
      obtain ⟨rfl, rfl⟩ := List.cons.inj hcs
      exact .inl ⟨rfl, nested_nil.1 hn, rfl, rfl⟩
    · rintro (⟨rfl, hd, -, rfl⟩ | ⟨i, -, hi⟩)
      · exact ⟨rfl, nested_nil.2 hd⟩
      · cases hi
  | cons x i =>
    simp only [List.cons_append, List.cons.injEq, reduceCtorEq, false_and, and_false, false_or]
    constructor
    · rintro ⟨⟨rfl, hcs⟩, hn⟩
      exact ⟨i, ⟨hcs, hn⟩, rfl, rfl⟩
    · rintro ⟨_, ⟨hcs, hn⟩, rfl, rfl⟩
      exact ⟨⟨rfl, hcs⟩, hn⟩

theorem cutAtClose_eq_some : cutAtClose d cs = some (inside, after) ↔
    cs = inside ++ ']' :: after ∧ Nested d inside := by
  induction cs generalizing d inside with
  | nil => simp [cutAtClose]
  | cons c cs ih =>
    rw [cut_cons, cutAtClose.eq_def]
    dsimp only
    by_cases hopen : c = '['
    · simp [hopen, ih, nested_open]
    · rw [if_neg hopen]
      by_cases hclose : c = ']'
      · subst hclose
        cases d with
        | zero => simp [nested_close, eq_comm]
        | succ e => simp [ih, nested_close]
      · simp [hclose, ih, nested_other hopen hclose]

theorem group_iff : Group cs before inside after ↔
    cs = before ++ '[' :: (inside ++ ']' :: after) ∧ Nested 0 inside := by
  have htext : before ++ ('[' :: inside ++ [']']) ++ after =
      before ++ '[' :: (inside ++ ']' :: after) := by simp
  have heven : ('[' :: inside ++ [']']).count '[' = ('[' :: inside ++ [']']).count ']' ↔
      inside.count '[' + 0 = inside.count ']' := by
    simp [List.count_append]
  have hopened : (∀ p, p <+: '[' :: inside ++ [']'] → p ≠ [] → p ≠ '[' :: inside ++ [']'] →
      p.count ']' < p.count '[') ↔ ∀ p, p <+: inside → p.count ']' ≤ p.count '[' + 0 := by
    rw [List.cons_append, forall_prefix_cons]
    simp only [List.prefix_concat_iff, List.count_cons]
    constructor
    · intro h p hp
      have hne : p ≠ inside ++ [']'] := by
        rintro rfl
        simpa using hp.length_le
      simpa [Nat.lt_succ_iff] using h.2 p (.inr hp) (by simp) (by simpa using hne)
    · intro h
      refine ⟨by simp, fun p hp _ hne => ?_⟩
      have hinside := h p (hp.resolve_left (by simpa using hne))
      simpa [Nat.lt_succ_iff] using hinside
  constructor
  · rintro ⟨rfl, he, ho⟩
    exact ⟨htext, heven.1 he, hopened.1 ho⟩
  · rintro ⟨rfl, he, ho⟩
    exact ⟨htext.symm, heven.2 he, hopened.2 ho⟩

theorem span_open (h : '[' ∉ before) :
    (before ++ '[' :: after).span (· ≠ '[') = (before, '[' :: after) := by
  have hall : ∀ x ∈ before, decide (x ≠ '[') = true := by
    intro x hx
    simpa using fun he : x = '[' => h (he ▸ hx)
  rw [List.span_eq_takeWhile_dropWhile, List.takeWhile_append_of_pos hall,
    List.dropWhile_append_of_pos hall]
  simp

theorem cutAtBrackets_eq_some : cutAtBrackets cs = some (before, inside, after) ↔
    Group cs before inside after ∧ '[' ∉ before := by
  rw [group_iff, cutAtBrackets]
  by_cases hmem : '[' ∈ cs
  · obtain ⟨b, r, rfl, hb⟩ := List.eq_append_cons_of_mem hmem
    rw [span_open hb]
    simp only [Option.map_eq_some_iff, Prod.mk.injEq, Prod.exists, cutAtClose_eq_some]
    constructor
    · rintro ⟨i, a, ⟨rfl, hn⟩, rfl, rfl, rfl⟩
      exact ⟨⟨rfl, hn⟩, hb⟩
    · rintro ⟨⟨htext, hn⟩, hbefore⟩
      have hsame := (span_open hb).symm.trans ((congrArg _ htext).trans (span_open hbefore))
      obtain ⟨rfl, hr⟩ := Prod.mk.inj hsame
      exact ⟨inside, after, ⟨(List.cons.inj hr).2, hn⟩, rfl, rfl, rfl⟩
  · have hnone : cs.dropWhile (fun x => decide (x ≠ '[')) = [] := by
      rw [List.dropWhile_eq_nil_iff]
      intro x hx
      simpa using fun he : x = '[' => hmem (he ▸ hx)
    rw [List.span_eq_takeWhile_dropWhile, hnone]
    refine iff_of_false (by simp) ?_
    rintro ⟨⟨rfl, -⟩, -⟩
    exact hmem (by simp)

def Leftmost (cs before inside after : List Char) : Prop :=
  Group cs before inside after ∧
    ∀ b i a, Group cs b i a → before.length ≤ b.length

theorem exists_leftmost (h : Group cs before inside after) : ∃ b i a, Leftmost cs b i a := by
  let starts : Nat → Prop := fun n => ∃ b i a, Group cs b i a ∧ b.length = n
  have hsome : ∃ n, starts n := ⟨_, before, inside, after, h, rfl⟩
  classical
  obtain ⟨b, i, a, hg, hn⟩ := Nat.find_spec hsome
  exact ⟨b, i, a, hg, fun b' i' a' hg' => hn ▸ Nat.find_min' hsome ⟨b', i', a', hg', rfl⟩⟩

theorem Group.leftmost (h : Group cs before inside after) (hfirst : '[' ∉ before) :
    Leftmost cs before inside after := by
  refine ⟨h, fun b i a hb => ?_⟩
  by_contra hlt
  obtain ⟨rfl, -⟩ := group_iff.1 h
  obtain ⟨hcs, -⟩ := group_iff.1 hb
  rcases List.append_eq_append_iff.1 hcs with ⟨l, rfl, -⟩ | ⟨l, rfl, hl⟩
  · simp at hlt
  · cases l with
    | nil => simp at hlt
    | cons x l =>
      obtain ⟨rfl, -⟩ := List.cons.inj hl
      exact hfirst (by simp)

/-- How the guard and the trigger are found in what is left of a label without its action. In the last
    case there is a group, but a `[` that is never closed stands before it. -/
inductive GuardRead (r : List Char) (l : Label) : Prop
  | group (before inside after : List Char) (h : Leftmost r before inside after)
    (hfirst : '[' ∉ before) (hguard : l.guard = part inside)
    (htrigger : l.trigger = part (before ++ ' ' :: after))
  | plain (h : ∀ before inside after, ¬Group r before inside after) (hguard : l.guard = none)
    (htrigger : l.trigger = part r)
  | unclosed (before inside after : List Char) (h : Leftmost r before inside after)
    (hfirst : '[' ∈ before) (hguard : l.guard = none) (htrigger : l.trigger = part r)

theorem guardRead_ofUnslashed (r : List Char) (action : Option String) :
    GuardRead r (ofUnslashed r action) := by
  unfold ofUnslashed
  split
  · rename_i hnone
    by_cases hsome : ∃ b i a, Group r b i a
    · obtain ⟨b, i, a, hg⟩ := hsome
      obtain ⟨b, i, a, hleft⟩ := exists_leftmost hg
      refine .unclosed b i a hleft ?_ rfl rfl
      by_contra hfirst
      rw [cutAtBrackets_eq_some.2 ⟨hleft.1, hfirst⟩] at hnone
      cases hnone
    · exact .plain (fun b i a hg => hsome ⟨b, i, a, hg⟩) rfl rfl
  · rename_i before inside after hsome
    obtain ⟨hg, hfirst⟩ := cutAtBrackets_eq_some.1 hsome
    exact .group before inside after (hg.leftmost hfirst) hfirst rfl rfl

theorem exists_guardRead (s : String) : ∃ r, Unslashed s.toList r ∧ GuardRead r (ofText s) := by
  unfold ofText
  split
  · rename_i hnone
    exact ⟨_, .inr ⟨rfl, cutAtSlash_eq_none.1 hnone⟩, guardRead_ofUnslashed _ _⟩
  · rename_i before after hsome
    exact ⟨before, unslashed_of_cutAtSlash hsome, guardRead_ofUnslashed _ _⟩

namespace Sample

def unclosed : List Char :=
  ['[', '[', 'o', 'k', ']']

theorem group_unclosed : Group unclosed ['['] ['o', 'k'] [] :=
  group_iff.2 ⟨rfl, rfl, fun _ hp => (hp.sublist.count_le ']').trans (Nat.zero_le _)⟩

end Sample

open Sample in
theorem hidden_group : Unslashed unclosed unclosed ∧ Leftmost unclosed ['['] ['o', 'k'] [] ∧
    (ofText (String.ofList unclosed)).guard = none ∧ part ['o', 'k'] = some "ok" ∧
    (ofText (String.ofList unclosed)).trigger = some "[[ok]" ∧
    part (['['] ++ ' ' :: []) = some "[" := by
  refine ⟨.inr ⟨rfl, cutAtSlash_eq_none.1 rfl⟩, ⟨group_unclosed, fun b i a h => ?_⟩, ?_⟩
  · cases b with
    | nil =>
      have hcut : cutAtBrackets unclosed = some ([], i, a) :=
        cutAtBrackets_eq_some.2 ⟨h, List.not_mem_nil⟩
      cases hcut
    | cons x b => simp
  · decide +kernel

end Statechart.Label
