import Mathlib
import Statechart.Proofs.Name
import Statechart.Proofs.Phrase

/-!
The phrase `returns to Busy history state` for any name in the place of `Busy`. It is read as it is
meant if the name begins with an unaccented letter or an underscore and has no number in it but
digits; with any other name it is no phrase at all, and the text is vague.
-/

namespace Statechart

namespace Text

variable {α : Type} {m : Cursor → Option (α × Cursor)} {previous : Option Char}
  {position k : Nat} {cs ds : List Char}

theorem matchesFrom_of_length_le (h : cs.length ≤ k) :
    matchesFrom m previous position k cs = [] := by
  induction cs generalizing previous position k with
  | nil => rfl
  | cons c cs ih =>
    cases k with
    | zero => simp at h
    | succ k =>
      rw [matchesFrom]
      exact ih (by simpa using h)

theorem allMatches_of_whole {a : α} {last : Option Char} (hne : cs ≠ [])
    (h : m ⟨none, cs⟩ = some (a, ⟨last, []⟩)) : allMatches m cs = [(a, ⟨0, cs.length⟩)] := by
  cases cs with
  | nil => exact absurd rfl hne
  | cons c cs => simp [allMatches, matchesFrom, h, matchesFrom_of_length_le]

theorem span_of_mem_matchesFrom (hm : ∀ c a e, m c = some (a, e) → e.rest.length < c.rest.length) :
    ∀ r ∈ matchesFrom m previous position k cs,
      r.2.start < position + cs.length ∧ r.2.start < r.2.stop := by
  induction cs generalizing previous position k with
  | nil =>
    intro r hr
    cases hr
  | cons c cs ih =>
    have hrest : ∀ k, ∀ r ∈ matchesFrom m (some c) (position + 1) k cs,
        r.2.start < position + (cs.length + 1) ∧ r.2.start < r.2.stop := by
      intro k r hr
      have := ih r hr
      omega
    cases k with
    | succ k => exact hrest k
    | zero =>
      rw [matchesFrom]
      split
      · exact hrest 0
      · rename_i a e he
        have hlt := hm _ _ _ he
        refine List.forall_mem_cons.2 ⟨?_, hrest _⟩
        simp only [List.length_cons] at hlt ⊢
        omega

namespace Pattern

variable {p : Pattern} {ps : List Pattern} {c e : Cursor} {f : Char → Bool}

theorem suffix_of_later (h : Later c e) : e.rest <:+ c.rest := by
  induction h with
  | refl => exact List.suffix_rfl
  | tail _ hnext ih =>
    obtain ⟨d, hd, -⟩ := hnext
    exact (hd ▸ List.suffix_cons d _).trans ih

abbrev blanksIn (c : Cursor) : Nat :=
  c.rest.countP isBlank

theorem blanksIn_le (h : Later c e) : blanksIn e ≤ blanksIn c :=
  (suffix_of_later h).sublist.countP_le

theorem blanksIn_lt (h : e ∈ blanks c) : blanksIn e < blanksIn c := by
  obtain ⟨m, hm, he⟩ := mem_sequence_cons.1 h
  obtain ⟨n, hn, he⟩ := mem_sequence_cons.1 he
  obtain rfl := mem_sequence_nil.1 he
  obtain ⟨d, hrest, -, hd⟩ := mem_one.1 hm
  have hle := blanksIn_le (onward_many isBlank m e hn)
  have hcount : blanksIn c = blanksIn m + 1 := by
    rw [blanksIn, hrest, List.countP_cons_of_pos hd]
  omega

def Spends (k : Nat) (p : Pattern) : Prop :=
  ∀ c, ∀ e ∈ p c, blanksIn e + k ≤ blanksIn c

theorem Onward.spends (h : Onward p) : Spends 0 p :=
  fun c e he => blanksIn_le (h c e he)

theorem spends_nil : Spends 0 (sequence []) := by
  intro c e he
  exact (congrArg blanksIn (mem_sequence_nil.1 he)).le

theorem Spends.cons {j k : Nat} (hp : Spends j p) (hps : Spends k (sequence ps)) :
    Spends (k + j) (sequence (p :: ps)) := by
  intro c e he
  obtain ⟨m, hm, he⟩ := mem_sequence_cons.1 he
  have hfirst := hp c m hm
  have hrest := hps m e he
  omega

theorem exists_of_mem_many (h : e ∈ many f c) :
    ∃ pre, c.rest = pre ++ e.rest ∧ ∀ d ∈ pre, f d := by
  refine many_induction (P := fun k => ∃ pre, c.rest = pre ++ k.rest ∧ ∀ d ∈ pre, f d)
    (fun _ d ds hd ⟨pre, hpre, hall⟩ => ⟨pre ++ [d], ?_, ?_⟩) ⟨[], rfl, by simp⟩ h
  · rw [hpre, List.append_assoc, List.singleton_append]
  · exact List.forall_mem_append.2 ⟨hall, List.forall_mem_singleton.2 hd⟩

theorem exists_runFrom (hds : ∀ d ∈ ds, f d) (hcs : ∀ d ∈ cs.head?, f d = false)
    (previous : Option Char) :
    ∃ last more, runFrom f previous (ds ++ cs) = ⟨last, cs⟩ :: more := by
  induction ds generalizing previous with
  | nil =>
    cases cs with
    | nil => exact ⟨previous, [], rfl⟩
    | cons c cs => exact ⟨previous, [], by simp [runFrom, hcs c rfl]⟩
  | cons d ds ih =>
    obtain ⟨hd, hds⟩ := List.forall_mem_cons.1 hds
    obtain ⟨last, more, hrun⟩ := ih hds (some d)
    exact ⟨last, more ++ [⟨previous, d :: (ds ++ cs)⟩], by simp [runFrom, hd, hrun]⟩

theorem exists_of_mem_word {w : Char} {ws : List Char} {s : String} (hs : s.toList = w :: ws)
    (h : e ∈ word s c) : ∃ d ds, c.rest = d :: ds ∧ alike w d ∧ e.rest <:+ ds := by
  unfold word at h
  rw [hs] at h
  obtain ⟨m, hm, he⟩ := mem_sequence_cons.1 h
  obtain ⟨d, hd, -, halike⟩ := mem_one.1 hm
  have honward : Onward (sequence (ws.map fun c => one (alike c))) := by
    refine onward_sequence fun p hp => ?_
    obtain ⟨c, -, rfl⟩ := List.mem_map.1 hp
    exact onward_one _
  exact ⟨d, m.rest, hd, halike, suffix_of_later (honward m e he)⟩

theorem exists_later_append (previous : Option Char) (front cs : List Char) :
    ∃ last, Later ⟨previous, front ++ cs⟩ ⟨last, cs⟩ := by
  induction front generalizing previous with
  | nil => exact ⟨previous, .refl⟩
  | cons d front ih =>
    obtain ⟨last, hlater⟩ := ih (some d)
    exact ⟨last, later_cons_iff.2 (.inr hlater)⟩

end Pattern

end Text

namespace History

open Text Text.Pattern

variable {name : String} {c : Cursor} {front : List Char}

def callText (name : String) : String :=
  "returns to " ++ name ++ " history state"

def isCallable (name : String) : Bool :=
  match name.toList with
  | [] => false
  | c :: cs => isNameStart c && cs.all isNameRest

def ending : List Char :=
  " history state".toList

def nameAt (name : String) : Cursor :=
  ⟨some ' ', name.toList ++ ending⟩

theorem toList_callText (name : String) :
    (callText name).toList = "returns to ".toList ++ (nameAt name).rest := by
  rw [callText, String.toList_append, String.toList_append, List.append_assoc]
  rfl

theorem spends_lead : Spends 2 lead := by
  have hblanks : Spends 1 blanks := fun c e he => blanksIn_lt he
  have hfiller : ∀ w, Spends 0 (optional (sequence [word w, blanks])) :=
    fun w => (onward_filler w).spends
  exact onward_boundary.spends.cons (onward_verb.spends.cons (hblanks.cons ((hfiller _).cons
    ((onward_word _).spends.cons (hblanks.cons ((hfiller _).cons spends_nil))))))

theorem suffix_of_no_blanks {cs : List Char} (h : cs <:+ front ++ ' ' :: "state".toList)
    (hblanks : cs.countP isBlank = 0) : cs <:+ "state".toList := by
  obtain ⟨before, hcs⟩ := h
  have hspace : ∀ l, cs ≠ l ++ ' ' :: "state".toList := by
    rintro l rfl
    have hzero := List.countP_eq_zero.1 hblanks ' ' (by simp)
    exact hzero (by decide)
  rcases List.append_eq_append_iff.1 hcs with ⟨l, -, hl⟩ | ⟨l, -, hl⟩
  · exact absurd hl (hspace l)
  · cases l with
    | nil => exact absurd hl.symm (hspace [])
    | cons d l => exact ⟨l, (List.cons.inj hl).2.symm⟩

/-- With one blank left to come there is no room for what ends a phrase. -/
theorem trail_eq_nil (h : c.rest <:+ front ++ ' ' :: "state".toList) (hblanks : blanksIn c ≤ 1) :
    trail c = [] := by
  refine List.eq_nil_iff_forall_not_mem.2 fun e he => ?_
  obtain ⟨m, hm, he⟩ := mem_sequence_cons.1 he
  obtain ⟨n, hn, -⟩ := mem_sequence_cons.1 he
  have hlt := blanksIn_lt hm
  have hsuffix := suffix_of_no_blanks ((suffix_of_later (onward_blanks c m hm)).trans h)
    (show blanksIn m = 0 by omega)
  have hword : "history".toList = 'h' :: "istory".toList := rfl
  obtain ⟨d, ds, hd, halike, -⟩ := exists_of_mem_word hword hn
  have hmem : d ∈ ['s', 't', 'a', 't', 'e'] := hsuffix.mem (hd ▸ List.mem_cons_self)
  fin_cases hmem <;> exact absurd halike (by decide)

/-- With three blanks left to come no phrase can begin. -/
theorem phraseAt_of_few_blanks (h : c.rest <:+ front ++ ' ' :: "state".toList)
    (hblanks : blanksIn c ≤ 3) : phraseAt c = none := by
  unfold phraseAt
  simp only [List.head?_eq_none_iff, List.flatMap_eq_nil_iff, List.map_eq_nil_iff]
  intro start hstart stop hstop
  have hspent := spends_lead c start hstart
  have hlater := onward_pathPattern start stop hstop
  have hsuffix := (suffix_of_later hlater).trans (suffix_of_later (onward_lead c start hstart))
  exact trail_eq_nil (hsuffix.trans h) (by have := blanksIn_le hlater; omega)

theorem rest_nameAt (name : String) :
    (nameAt name).rest = (name.toList ++ " history".toList) ++ ' ' :: "state".toList := by
  have hending : ending = " history".toList ++ ' ' :: "state".toList := rfl
  rw [nameAt, hending, List.append_assoc]

theorem blanksIn_nameAt (h : IsName name) : blanksIn (nameAt name) = 2 := by
  have hname : name.toList.countP isBlank = 0 :=
    List.countP_eq_zero.2 fun c hc => by simp [isBlank_of_isNameChar (h.2 c hc)]
  have hending : ending.countP isBlank = 2 := by decide
  rw [blanksIn, nameAt, List.countP_append, hname, hending]

theorem lead_callText (h : IsName name) : lead ⟨none, (callText name).toList⟩ =
    sequence [word "the", blanks] (nameAt name) ++ [nameAt name] := by
  obtain ⟨c, cs, hcs, hc⟩ := h.exists_cons
  have hfirst : isBlank c = false := isBlank_of_isNameChar hc
  have hword : isWordChar 'r' = true := by decide +kernel
  have hfront : "returns to ".toList = ['r', 'e', 't', 'u', 'r', 'n', 's', ' ', 't', 'o', ' '] := rfl
  rw [toList_callText, nameAt, hcs, hfront]
  simp +decide [lead, Pattern.sequence, Pattern.optional, Pattern.either, word, blanks, one, many,
    runFrom, boundary, hword, hfirst]

theorem trail_ending (previous : Option Char) :
    trail ⟨previous, ending⟩ = [⟨some 'e', []⟩, ⟨some 'y', " state".toList⟩] := by
  have hending : ending = [' ', 'h', 'i', 's', 't', 'o', 'r', 'y', ' ', 's', 't', 'a', 't', 'e'] :=
    rfl
  rw [hending]
  simp +decide [trail, Pattern.sequence, Pattern.optional, word, blanks, one, many, runFrom,
    boundary]

theorem phraseAt_callText (h : IsName name) : phraseAt ⟨none, (callText name).toList⟩ =
    ((pathPattern (nameAt name)).flatMap fun stop =>
      (trail stop).map fun e => (String.ofList (textBetween (nameAt name) stop), e)).head? := by
  have hthe : ∀ start ∈ sequence [word "the", blanks] (nameAt name), ∀ stop ∈ pathPattern start,
      trail stop = [] := by
    intro start hstart stop hstop
    obtain ⟨m, hm, hstart⟩ := mem_sequence_cons.1 hstart
    obtain ⟨n, hn, hstart⟩ := mem_sequence_cons.1 hstart
    obtain rfl := mem_sequence_nil.1 hstart
    have hword := onward_word "the" _ m hm
    have hpath := onward_pathPattern _ stop hstop
    have hsuffix := suffix_of_later (hword.trans ((onward_blanks m _ hn).trans hpath))
    rw [rest_nameAt] at hsuffix
    refine trail_eq_nil hsuffix ?_
    have htwo := blanksIn_nameAt h
    have hfirst := blanksIn_le hword
    have hlt := blanksIn_lt hn
    have hlast := blanksIn_le hpath
    omega
  rw [phraseAt, lead_callText h, List.flatMap_append, List.flatMap_singleton]
  have hnil : ((sequence [word "the", blanks] (nameAt name)).flatMap fun start =>
      (pathPattern start).flatMap fun stop =>
        (trail stop).map fun e => (String.ofList (textBetween start stop), e)) = [] := by
    simp only [List.flatMap_eq_nil_iff, List.map_eq_nil_iff]
    exact hthe
  rw [hnil, List.nil_append]

theorem phraseAt_of_isCallable (h : IsName name) (hc : isCallable name) :
    phraseAt ⟨none, (callText name).toList⟩ = some (name, ⟨some 'e', []⟩) := by
  unfold isCallable at hc
  split at hc
  · cases hc
  · rename_i c cs hcs
    obtain ⟨hstart, hrest⟩ := Bool.and_eq_true_iff.1 hc
    have hspace : ∀ d ∈ ending.head?, isNameRest d = false := by
      rintro _ ⟨⟩
      decide +kernel
    obtain ⟨last, more, hrun⟩ := exists_runFrom (List.all_eq_true.1 hrest) hspace (some c)
    have hpath : pathPattern (nameAt name) = ⟨last, ending⟩ :: more := by
      simp [pathPattern, nameAt, hcs, Pattern.sequence, one, hstart, many, hrun]
    rw [phraseAt_callText h, hpath, List.flatMap_cons, trail_ending]
    have hname : textBetween (nameAt name) ⟨last, ending⟩ = name.toList := by
      simp [textBetween, nameAt]
    simp [hname]

theorem phraseAt_of_not_isCallable (h : IsName name) (hc : isCallable name = false) :
    phraseAt ⟨none, (callText name).toList⟩ = none := by
  rw [phraseAt_callText h]
  simp only [List.head?_eq_none_iff, List.flatMap_eq_nil_iff, List.map_eq_nil_iff]
  intro stop hstop
  obtain ⟨m, hm, hstop⟩ := mem_sequence_cons.1 hstop
  obtain ⟨n, hn, hstop⟩ := mem_sequence_cons.1 hstop
  obtain rfl := mem_sequence_nil.1 hstop
  obtain ⟨c, hfirst, -, hstart⟩ := mem_one.1 hm
  obtain ⟨pre, hpre, hall⟩ := exists_of_mem_many hn
  obtain ⟨c', cs, hcs, -⟩ := h.exists_cons
  have hnames : ∀ d ∈ cs, isNameChar d := fun d hd => h.2 d (hcs ▸ List.mem_cons_of_mem _ hd)
  rw [nameAt, hcs, List.cons_append] at hfirst
  obtain ⟨rfl, hrest⟩ := List.cons.inj hfirst
  simp only [isCallable, hcs, hstart, Bool.true_and] at hc
  obtain ⟨d, hd, hbad⟩ := List.all_eq_false.1 hc
  rw [← hrest] at hpre
  refine List.eq_nil_iff_forall_not_mem.2 fun e he => ?_
  obtain ⟨k, hk, -⟩ := mem_sequence_cons.1 he
  have hblank := (blank_of_mem_blanks hk).2
  rcases List.append_eq_append_iff.1 hpre with ⟨l, rfl, -⟩ | ⟨l, hl, hstop⟩
  · exact hbad (hall d (List.mem_append_left _ hd))
  · cases l with
    | nil =>
      rw [List.append_nil] at hl
      exact hbad (hall d (hl ▸ hd))
    | cons x l =>
      have hx := isBlank_of_isNameChar (hnames x (hl ▸ by simp))
      simp [hstop, hx] at hblank

theorem lead_inside {previous d : Char} {cs : List Char} (hp : isWordChar previous)
    (hd : isWordChar d) : lead ⟨some previous, d :: cs⟩ = [] := by
  simp [lead, Pattern.sequence, boundary, hp, hd]

theorem lead_blank (previous : Option Char) (cs : List Char) : lead ⟨previous, ' ' :: cs⟩ = [] := by
  have hword : ∀ {s w ws e}, String.toList s = w :: ws → alike w ' ' = false →
      e ∉ word s ⟨previous, ' ' :: cs⟩ := by
    intro s w ws e hs halike he
    obtain ⟨d, ds, hd, hfirst, -⟩ := exists_of_mem_word hs he
    obtain ⟨rfl, -⟩ := List.cons.inj hd
    rw [halike] at hfirst
    cases hfirst
  refine List.eq_nil_iff_forall_not_mem.2 fun start hstart => ?_
  obtain ⟨m, hm, hstart⟩ := mem_sequence_cons.1 hstart
  obtain ⟨rfl, -⟩ := mem_boundary.1 hm
  obtain ⟨n, hn, -⟩ := mem_sequence_cons.1 hstart
  have hreturn : "return".toList = 'r' :: "eturn".toList := rfl
  have htransition : "transition".toList = 't' :: "ransition".toList := rfl
  have hgoes : "goes".toList = 'g' :: "oes".toList := rfl
  have hgo : "go".toList = 'g' :: "o".toList := rfl
  rcases List.mem_append.1 hn with hn | hn
  · obtain ⟨k, hk, -⟩ := mem_sequence_cons.1 hn
    exact hword hreturn (by decide) hk
  · rcases List.mem_append.1 hn with hn | hn
    · obtain ⟨k, hk, -⟩ := mem_sequence_cons.1 hn
      exact hword htransition (by decide) hk
    · rcases List.mem_append.1 hn with hn | hn
      · exact hword hgoes (by decide) hn
      · exact hword hgo (by decide) hn

theorem phraseAt_of_lead (h : lead c = []) : phraseAt c = none := by
  simp [phraseAt, h]

theorem isWordChar_returns : ∀ d ∈ ['r', 'e', 't', 'u', 'r', 'n', 's'], isWordChar d := by
  intro d hd
  fin_cases hd <;> decide +kernel

theorem phraseAt_later (h : IsName name) {e : Cursor}
    (he : Later ⟨none, (callText name).toList⟩ e) :
    e = ⟨none, (callText name).toList⟩ ∨ phraseAt e = none := by
  have hfront : "returns to ".toList = ['r', 'e', 't', 'u', 'r', 'n', 's', ' '] ++ "to ".toList :=
    rfl
  have hw := isWordChar_returns
  simp only [List.forall_mem_cons] at hw
  obtain ⟨hr, he', ht, hu, hrr, hn, hs, -⟩ := hw
  rw [toList_callText, hfront] at he ⊢
  simp only [List.cons_append, List.nil_append, later_cons_iff] at he
  rcases he with rfl | rfl | rfl | rfl | rfl | rfl | rfl | rfl | he
  · exact .inl rfl
  · exact .inr (phraseAt_of_lead (lead_inside hr he'))
  · exact .inr (phraseAt_of_lead (lead_inside he' ht))
  · exact .inr (phraseAt_of_lead (lead_inside ht hu))
  · exact .inr (phraseAt_of_lead (lead_inside hu hrr))
  · exact .inr (phraseAt_of_lead (lead_inside hrr hn))
  · exact .inr (phraseAt_of_lead (lead_inside hn hs))
  · exact .inr (phraseAt_of_lead (lead_blank _ _))
  · -- what follows has three blanks in it
    have hrest : "to ".toList ++ (nameAt name).rest =
        ("to ".toList ++ (name.toList ++ " history".toList)) ++ ' ' :: "state".toList := by
      rw [rest_nameAt]
      simp only [List.append_assoc]
    have hblanks : ("to ".toList ++ (nameAt name).rest).countP isBlank = 3 := by
      have hto : "to ".toList.countP isBlank = 1 := by decide
      have htwo : (nameAt name).rest.countP isBlank = 2 := blanksIn_nameAt h
      rw [List.countP_append, hto, htwo]
    have hsuffix := suffix_of_later he
    exact .inr (phraseAt_of_few_blanks (hrest ▸ hsuffix) (hblanks ▸ blanksIn_le he))

theorem phrases_callText (h : IsName name) : phrases (callText name) =
    if isCallable name then [(name, ⟨0, (callText name).length⟩)] else [] := by
  split
  · rename_i hc
    have hne : (callText name).toList ≠ [] := by
      rw [toList_callText]
      exact List.append_ne_nil_of_left_ne_nil (by decide) _
    exact allMatches_of_whole hne (phraseAt_of_isCallable h hc)
  · rename_i hc
    refine matchesFrom_eq_nil.2 fun e he _ => ?_
    obtain rfl | hnone := phraseAt_later h he
    · exact phraseAt_of_not_isCallable h (Bool.eq_false_iff.2 hc)
    · exact hnone

theorem length_of_mentionAt {e : Cursor} {a : Unit} (h : mentionAt c = some (a, e)) :
    e.rest.length < c.rest.length := by
  obtain ⟨e', he, heq⟩ := Option.map_eq_some_iff.1 h
  cases heq
  obtain ⟨m, hm, hrest⟩ := mem_sequence_cons.1 (List.mem_of_mem_head? he)
  obtain ⟨rfl, -⟩ := mem_boundary.1 hm
  obtain ⟨n, hn, hrest⟩ := mem_sequence_cons.1 hrest
  have hword : "history".toList = 'h' :: "istory".toList := rfl
  have hlast : Onward (sequence [boundary]) := onward_sequence (by simp [onward_boundary])
  obtain ⟨d, ds, hd, -, hsuffix⟩ := exists_of_mem_word hword hn
  have hle := ((suffix_of_later (hlast n e hrest)).trans hsuffix).length_le
  rw [hd, List.length_cons]
  exact Nat.lt_succ_of_le hle

theorem mentions_callText (name : String) : mentions (callText name) ≠ [] := by
  intro hnil
  have htext : (callText name).toList = "returns to ".toList ++ name.toList ++ ending := by
    rw [toList_callText, nameAt, List.append_assoc]
  obtain ⟨last, hlater⟩ := exists_later_append none ("returns to ".toList ++ name.toList) ending
  obtain ⟨m, hm, hne, hmention⟩ := mentionAt_of_trail (c := ⟨last, ending⟩) (e := ⟨some 'e', []⟩)
    (by rw [trail_ending]; exact List.mem_cons_self)
  rw [← htext] at hlater
  exact hmention (matchesFrom_eq_nil.1 (List.map_eq_nil_iff.1 hnil) m (hlater.trans hm) hne)

theorem isVague_callText (h : IsName name) : isVague (callText name) = !isCallable name := by
  rw [isVague, phrases_callText h]
  cases isCallable name with
  | true =>
    refine List.any_eq_false.2 fun s hs => ?_
    obtain ⟨r, hr, rfl⟩ := List.mem_map.1 hs
    obtain ⟨hstart, hstop⟩ := span_of_mem_matchesFrom (fun _ _ _ => length_of_mentionAt) r hr
    have hlength : (callText name).length = (callText name).toList.length := rfl
    have hmeets : Span.meets ⟨0, (callText name).length⟩ r.2 := by
      simp only [Span.meets, hlength, Bool.and_eq_true, decide_eq_true_eq]
      omega
    simp [isOutside, hmeets]
  | false =>
    obtain ⟨s, hs⟩ := List.exists_mem_of_ne_nil _ (mentions_callText name)
    exact List.any_eq_true.2 ⟨s, hs, rfl⟩

end History

end Statechart
