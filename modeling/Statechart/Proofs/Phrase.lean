import Mathlib
import Statechart.History
import Statechart.Proofs.Chars
import Statechart.Proofs.Lines

namespace Statechart

namespace Text

namespace Pattern

variable {p q : Pattern} {ps : List Pattern} {c e : Cursor}

def Next (c e : Cursor) : Prop :=
  ∃ d, c.rest = d :: e.rest ∧ e.previous = some d

abbrev Later : Cursor → Cursor → Prop :=
  Relation.ReflTransGen Next

def Onward (p : Pattern) : Prop :=
  ∀ c, ∀ e ∈ p c, Later c e

theorem mem_one {f : Char → Bool} :
    e ∈ one f c ↔ ∃ d, c.rest = d :: e.rest ∧ e.previous = some d ∧ f d := by
  obtain ⟨before, rest⟩ := c
  obtain ⟨previous, rest'⟩ := e
  cases rest with
  | nil => simp [one]
  | cons d ds =>
    by_cases h : f d
    · simp only [one, h, if_true, List.mem_singleton, Cursor.mk.injEq, List.cons.injEq]
      constructor
      · rintro ⟨rfl, rfl⟩
        exact ⟨d, ⟨rfl, rfl⟩, rfl, h⟩
      · rintro ⟨_, ⟨rfl, rfl⟩, rfl, -⟩
        exact ⟨rfl, rfl⟩
    · simp only [one, h, Bool.false_eq_true, if_false, List.not_mem_nil, List.cons.injEq, false_iff]
      rintro ⟨_, ⟨rfl, -⟩, -, hf⟩
      exact h hf

theorem mem_sequence_cons : e ∈ sequence (p :: ps) c ↔ ∃ m ∈ p c, e ∈ sequence ps m := by
  rw [sequence, List.mem_flatMap]

theorem mem_sequence_nil : e ∈ sequence [] c ↔ e = c := by
  rw [sequence, List.mem_singleton]

theorem mem_sequence_concat : e ∈ sequence (ps ++ [p]) c ↔ ∃ m ∈ sequence ps c, e ∈ p m := by
  induction ps generalizing c with
  | nil =>
    simp only [List.nil_append, mem_sequence_cons, mem_sequence_nil, exists_eq_left]
    exact ⟨fun ⟨m, hm, he⟩ => he ▸ hm, fun he => ⟨e, he, rfl⟩⟩
  | cons q ps ih =>
    simp only [List.cons_append, mem_sequence_cons, ih]
    exact ⟨fun ⟨m, hm, n, hn, he⟩ => ⟨n, ⟨m, hm, hn⟩, he⟩,
      fun ⟨n, ⟨m, hm, hn⟩, he⟩ => ⟨m, hm, n, hn, he⟩⟩

theorem onward_one (f : Char → Bool) : Onward (one f) := by
  intro c e he
  obtain ⟨d, hrest, hprevious, -⟩ := mem_one.1 he
  exact .single ⟨d, hrest, hprevious⟩

theorem onward_sequence (h : ∀ p ∈ ps, Onward p) : Onward (sequence ps) := by
  induction ps with
  | nil =>
    intro c e he
    rw [mem_sequence_nil.1 he]
  | cons p ps ih =>
    obtain ⟨hp, hps⟩ := List.forall_mem_cons.1 h
    intro c e he
    obtain ⟨m, hm, he⟩ := mem_sequence_cons.1 he
    exact (hp c m hm).trans (ih hps m e he)

theorem Onward.either (hp : Onward p) (hq : Onward q) : Onward (either p q) :=
  fun c e he => (List.mem_append.1 he).elim (hp c e) (hq c e)

theorem Onward.optional (hp : Onward p) : Onward (optional p) := by
  intro c e he
  rcases List.mem_append.1 he with he | he
  · exact hp c e he
  · rw [List.mem_singleton.1 he]

theorem many_induction {f : Char → Bool} {P : Cursor → Prop}
    (step : ∀ previous d ds, f d = true → P ⟨previous, d :: ds⟩ → P ⟨some d, ds⟩) (hc : P c)
    (he : e ∈ many f c) : P e := by
  obtain ⟨previous, rest⟩ := c
  unfold many at he
  induction rest generalizing previous with
  | nil => rwa [List.mem_singleton.1 he]
  | cons d ds ih =>
    rw [runFrom] at he
    rcases List.mem_append.1 he with he | he
    · split at he
      · rename_i hd
        exact ih (some d) (step previous d ds hd hc) he
      · cases he
    · rwa [List.mem_singleton.1 he]

theorem onward_many (f : Char → Bool) : Onward (many f) :=
  fun c _ he => many_induction (P := Later c) (fun _ d _ _ h => h.tail ⟨d, rfl, rfl⟩) .refl he

theorem onward_blanks : Onward blanks :=
  onward_sequence (by simp [onward_one, onward_many])

theorem onward_word (w : String) : Onward (word w) := by
  refine onward_sequence fun p hp => ?_
  obtain ⟨c, -, rfl⟩ := List.mem_map.1 hp
  exact onward_one _

theorem mem_boundary : e ∈ boundary c ↔
    e = c ∧ c.previous.any isWordChar ≠ c.rest.head?.any isWordChar := by
  unfold boundary
  split <;> simp_all

theorem onward_boundary : Onward boundary := by
  intro c e he
  rw [(mem_boundary.1 he).1]

theorem any_of_mem_many {f : Char → Bool} (hp : c.previous.any f) (he : e ∈ many f c) :
    e.previous.any f :=
  many_induction (P := fun k => k.previous.any f) (fun _ _ _ hd _ => hd) hp he

theorem blank_of_mem_blanks (he : e ∈ blanks c) :
    e.previous.any isBlank ∧ c.rest.head?.any isBlank := by
  obtain ⟨m, hm, he⟩ := mem_sequence_cons.1 he
  obtain ⟨n, hn, he⟩ := mem_sequence_cons.1 he
  obtain ⟨d, hrest, hprevious, hd⟩ := mem_one.1 hm
  have hfirst : m.previous.any isBlank := by simp [hprevious, hd]
  rw [mem_sequence_nil.1 he]
  exact ⟨any_of_mem_many hfirst hn, by simp [hrest, hd]⟩

end Pattern

open Pattern

theorem later_cons_iff {previous : Option Char} {c : Char} {cs : List Char} {e : Cursor} :
    Later ⟨previous, c :: cs⟩ e ↔ ⟨previous, c :: cs⟩ = e ∨ Later ⟨some c, cs⟩ e := by
  refine Relation.ReflTransGen.cases_head_iff.trans ?_
  refine or_congr_right ⟨?_, fun h => ⟨_, ⟨c, rfl, rfl⟩, h⟩⟩
  rintro ⟨⟨previous', cs'⟩, ⟨d, hrest, hprevious⟩, h⟩
  obtain ⟨rfl, rfl⟩ := List.cons.inj hrest
  obtain rfl : previous' = some c := hprevious
  exact h

theorem matchesFrom_eq_nil {α : Type} {m : Cursor → Option (α × Cursor)} {previous : Option Char}
    {position : Nat} {cs : List Char} : matchesFrom m previous position 0 cs = [] ↔
      ∀ e, Later ⟨previous, cs⟩ e → e.rest ≠ [] → m e = none := by
  induction cs generalizing previous position with
  | nil =>
    refine iff_of_true rfl fun e he hne => ?_
    rcases Relation.ReflTransGen.cases_head_iff.1 he with rfl | ⟨_, ⟨d, hd, -⟩, -⟩
    · exact absurd rfl hne
    · cases hd
  | cons c cs ih =>
    rw [matchesFrom]
    cases hm : m ⟨previous, c :: cs⟩ with
    | some r =>
      refine iff_of_false (by simp) fun h => ?_
      rw [h _ .refl (by simp)] at hm
      cases hm
    | none =>
      simp only [ih]
      constructor
      · intro h e he hne
        rcases later_cons_iff.1 he with rfl | he
        · exact hm
        · exact h e he hne
      · exact fun h e he hne => h e (later_cons_iff.2 (.inr he)) hne

namespace Pattern

variable {p : Pattern} {ps : List Pattern} {c c' e : Cursor} {after : List Char}

structure Amid (after : List Char) (c c' : Cursor) : Prop where
  rest : c'.rest = c.rest ++ after
  previous : c'.previous.any isWordChar = c.previous.any isWordChar

def Persists (after : List Char) (p : Pattern) : Prop :=
  ∀ c c', Amid after c c' → ∀ e ∈ p c, ∃ e' ∈ p c', Amid after e e'

theorem persists_one (f : Char → Bool) : Persists after (one f) := by
  intro c c' h e he
  obtain ⟨d, hrest, hprevious, hd⟩ := mem_one.1 he
  have hrest' : c'.rest = d :: (e.rest ++ after) := by
    rw [h.rest, hrest, List.cons_append]
  exact ⟨⟨some d, e.rest ++ after⟩, mem_one.2 ⟨d, hrest', rfl, hd⟩, rfl, by rw [hprevious]⟩

theorem persists_boundary (ha : ∀ b ∈ after, isBlank b) : Persists after boundary := by
  intro c c' h e he
  obtain ⟨rfl, hne⟩ := mem_boundary.1 he
  refine ⟨c', mem_boundary.2 ⟨rfl, ?_⟩, h⟩
  have hhead : (e.rest ++ after).head?.any isWordChar = e.rest.head?.any isWordChar := by
    cases e.rest with
    | cons d ds => rfl
    | nil =>
      cases after with
      | nil => rfl
      | cons b bs => simp [isWordChar_of_isBlank (ha b List.mem_cons_self)]
  rw [h.previous, h.rest, hhead]
  exact hne

theorem persists_sequence (h : ∀ p ∈ ps, Persists after p) : Persists after (sequence ps) := by
  induction ps with
  | nil =>
    intro c c' hc e he
    rw [mem_sequence_nil.1 he]
    exact ⟨c', mem_sequence_nil.2 rfl, hc⟩
  | cons p ps ih =>
    obtain ⟨hp, hps⟩ := List.forall_mem_cons.1 h
    intro c c' hc e he
    obtain ⟨m, hm, he⟩ := mem_sequence_cons.1 he
    obtain ⟨m', hm', hmm⟩ := hp c c' hc m hm
    obtain ⟨e', he', hee⟩ := ih hps m m' hmm e he
    exact ⟨e', mem_sequence_cons.2 ⟨m', hm', he'⟩, hee⟩

theorem persists_word (w : String) : Persists after (word w) := by
  refine persists_sequence fun p hp => ?_
  obtain ⟨c, -, rfl⟩ := List.mem_map.1 hp
  exact persists_one _

theorem Amid.later (h : Amid after c c') (he : Later c e) : ∃ e', Later c' e' ∧ Amid after e e' := by
  induction he with
  | refl => exact ⟨c', .refl, h⟩
  | @tail m e _ hnext ih =>
    obtain ⟨m', hm', hmm⟩ := ih
    obtain ⟨d, hrest, hprevious⟩ := hnext
    have hrest' : m'.rest = d :: (e.rest ++ after) := by
      rw [hmm.rest, hrest, List.cons_append]
    exact ⟨⟨some d, e.rest ++ after⟩, hm'.tail ⟨d, hrest', rfl⟩, rfl, by rw [hprevious]⟩

theorem later_of_blank {before : List Char} (hb : ∀ b ∈ before, isBlank b) (cs : List Char)
    {previous : Option Char} (hp : previous.any isWordChar = false) :
    ∃ previous', Later ⟨previous, before ++ cs⟩ ⟨previous', cs⟩ ∧
      previous'.any isWordChar = false := by
  induction before generalizing previous with
  | nil => exact ⟨previous, .refl, hp⟩
  | cons b before ih =>
    obtain ⟨hblank, hrest⟩ := List.forall_mem_cons.1 hb
    have hnext : (some b).any isWordChar = false := isWordChar_of_isBlank hblank
    obtain ⟨previous', hlater, hp'⟩ := ih hrest hnext
    exact ⟨previous', later_cons_iff.2 (.inr hlater), hp'⟩

end Pattern

end Text

namespace History

open Text Text.Pattern

theorem onward_plural (w : String) : Onward (sequence [word w, optional (word "s")]) :=
  onward_sequence (by simp [onward_word, (onward_word "s").optional])

theorem onward_verb : Onward (either (sequence [word "return", optional (word "s")])
    (either (sequence [word "transition", optional (word "s")])
      (either (word "goes") (word "go")))) :=
  (onward_plural _).either ((onward_plural _).either ((onward_word _).either (onward_word _)))

theorem onward_filler (w : String) : Onward (optional (sequence [word w, blanks])) :=
  (onward_sequence (by simp [onward_word, onward_blanks])).optional

theorem onward_lead : Onward lead :=
  onward_sequence
    (by simp [onward_boundary, onward_verb, onward_blanks, onward_filler, onward_word])

theorem onward_pathPattern : Onward pathPattern :=
  onward_sequence (by simp [onward_one, onward_many])

theorem ends_of_mem_word {c e : Cursor} (h : e ∈ word "history" c) :
    c.rest.head?.any isWordChar ∧ e.previous.any isWordChar := by
  have hfirst : e ∈
      sequence (one (alike 'h') :: ("istory".toList.map fun d => one (alike d))) c := h
  have hlast : e ∈
      sequence (("histor".toList.map fun d => one (alike d)) ++ [one (alike 'y')]) c := h
  obtain ⟨_, hm, -⟩ := mem_sequence_cons.1 hfirst
  obtain ⟨d, hrest, -, hd⟩ := mem_one.1 hm
  obtain ⟨_, -, hn⟩ := mem_sequence_concat.1 hlast
  obtain ⟨d', -, hprevious, hd'⟩ := mem_one.1 hn
  simp [hrest, hprevious, isWordChar_of_alike (.inl rfl) hd, isWordChar_of_alike (.inr rfl) hd']

theorem any_isWordChar {o : Option Char} (h : o.any isBlank) : o.any isWordChar = false := by
  cases o with
  | none => cases h
  | some c => exact isWordChar_of_isBlank h

theorem mentionAt_eq_none {c : Cursor} :
    mentionAt c = none ↔ sequence [boundary, word "history", boundary] c = [] := by
  rw [mentionAt, Option.map_eq_none_iff, List.head?_eq_none_iff]

theorem mentionAt_of_trail {c e : Cursor} (h : e ∈ trail c) :
    ∃ m, Later c m ∧ m.rest ≠ [] ∧ mentionAt m ≠ none := by
  obtain ⟨m, hm, h⟩ := mem_sequence_cons.1 h
  obtain ⟨n, hn, h⟩ := mem_sequence_cons.1 h
  obtain ⟨k, hk, h⟩ := mem_sequence_cons.1 h
  obtain ⟨k', hk', -⟩ := mem_sequence_cons.1 h
  obtain ⟨hfirst, hlast⟩ := ends_of_mem_word hn
  have hbegin : m ∈ boundary m := by
    refine mem_boundary.2 ⟨rfl, ?_⟩
    simp [any_isWordChar (blank_of_mem_blanks hm).1, hfirst]
  have hend : n ∈ boundary n := by
    rcases List.mem_append.1 hk with hk | hk
    · -- more follows, and it begins with a blank
      obtain ⟨l, hl, -⟩ := mem_sequence_cons.1 hk
      refine mem_boundary.2 ⟨rfl, ?_⟩
      simp [any_isWordChar (blank_of_mem_blanks hl).2, hlast]
    · obtain rfl := List.mem_singleton.1 hk
      exact mem_boundary.2 ⟨rfl, (mem_boundary.1 hk').2⟩
  refine ⟨m, onward_blanks c m hm, fun hnil => by simp [hnil] at hfirst, fun hnone => ?_⟩
  have hmention : n ∈ sequence [boundary, word "history", boundary] m :=
    mem_sequence_cons.2 ⟨m, hbegin, mem_sequence_cons.2 ⟨n, hn, mem_sequence_cons.2
      ⟨n, hend, mem_sequence_nil.2 rfl⟩⟩⟩
  rw [mentionAt_eq_none.1 hnone] at hmention
  cases hmention

theorem phraseAt_eq_none {c : Cursor} (h : ∀ m, Later c m → m.rest ≠ [] → mentionAt m = none) :
    phraseAt c = none := by
  unfold phraseAt
  simp only [List.head?_eq_none_iff, List.flatMap_eq_nil_iff, List.map_eq_nil_iff]
  intro start hstart stop hstop
  refine List.eq_nil_iff_forall_not_mem.2 fun e he => ?_
  obtain ⟨m, hm, hne, hat⟩ := mentionAt_of_trail he
  have hstart := onward_lead c start hstart
  have hstop := onward_pathPattern start stop hstop
  exact hat (h m (hstart.trans (hstop.trans hm)) hne)

theorem phrases_eq_nil {text : String} (h : mentions text = []) : phrases text = [] := by
  have hnone := matchesFrom_eq_nil.1 (List.map_eq_nil_iff.1 h)
  exact matchesFrom_eq_nil.2 fun c hc _ =>
    phraseAt_eq_none fun m hm hne => hnone m (hc.trans hm) hne

theorem isVague_eq_false {text : String} (h : mentions text = []) : isVague text = false := by
  rw [isVague, h]
  rfl

theorem mentions_trimmed {text : String} (h : mentions text = []) :
    mentions (trimmed text) = [] := by
  obtain ⟨before, after, hbefore, hafter, hcs⟩ := exists_trimmed text.toList
  have hnone := matchesFrom_eq_nil.1 (List.map_eq_nil_iff.1 h)
  refine List.map_eq_nil_iff.2 (matchesFrom_eq_nil.2 fun c hc hne => ?_)
  have hfirst : (none : Option Char).any isWordChar = false := rfl
  obtain ⟨previous, hstart, hp⟩ := later_of_blank hbefore (trim text.toList ++ after) hfirst
  rw [← List.append_assoc, ← hcs] at hstart
  have hamid : Amid after ⟨none, (trimmed text).toList⟩ ⟨previous, trim text.toList ++ after⟩ :=
    ⟨by rw [trimmed, String.toList_ofList], hp⟩
  obtain ⟨c', hc', hcc⟩ := hamid.later hc
  have hpersists : Persists after (sequence [boundary, word "history", boundary]) :=
    persists_sequence (by simp [persists_boundary hafter, persists_word])
  have hnil := mentionAt_eq_none.1 (hnone c' (hstart.trans hc') (by simp [hcc.rest, hne]))
  refine mentionAt_eq_none.2 (List.eq_nil_iff_forall_not_mem.2 fun e he => ?_)
  obtain ⟨e', he', -⟩ := hpersists c c' hcc e he
  rw [hnil] at he'
  cases he'

end History

end Statechart
