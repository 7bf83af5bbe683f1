import Mathlib
import Statechart.Proofs.Chars
import Statechart.Proofs.Lines
import Statechart.Proofs.Name

namespace Statechart

structure Statement.IsGap (ws : List Char) : Prop where
  nonempty : ws ≠ []
  all : ∀ c ∈ ws, Reader.isSpace c

namespace Reader

variable {α β : Type} {p q : Reader α} {f : α → Reader β} {a : α} {b : β}
  {cs mid rest ws : List Char}

def Reads (p : Reader α) (cs : List Char) (a : α) (rest : List Char) : Prop :=
  (p cs).read? = some (a, rest)

def Fails (p : Reader α) (cs : List Char) : Prop :=
  (p cs).read? = none

theorem read?_bind (p : Reader α) (f : α → Reader β) (cs : List Char) :
    ((p >>= f) cs).read? = (p cs).read?.bind fun r => (f r.1 r.2).read? := by
  change (Reader.bind p f cs).read? = _
  unfold Reader.bind
  split <;> rename_i h <;> simp [h]

theorem read?_either (p q : Reader α) (cs : List Char) :
    (either p q cs).read? = (p cs).read?.or (q cs).read? := by
  unfold either
  split <;> rename_i h <;> simp [h]

theorem reads_pure (a : α) (cs : List Char) : Reads (pure a) cs a cs :=
  rfl

theorem Reads.unique {a' : α} {rest' : List Char} (h : Reads p cs a rest)
    (h' : Reads p cs a' rest') : a = a' ∧ rest = rest' :=
  Prod.mk.inj (Option.some.inj (h.symm.trans h'))

theorem Reads.not_fails (h : Reads p cs a rest) : ¬ Fails p cs := by
  rw [Fails, h]
  exact Option.some_ne_none _

theorem Reads.bind (hp : Reads p cs a mid) (hf : Reads (f a) mid b rest) :
    Reads (p >>= f) cs b rest := by
  rw [Reads, read?_bind, hp]
  exact hf

theorem exists_of_bind (h : Reads (p >>= f) cs b rest) :
    ∃ a mid, Reads p cs a mid ∧ Reads (f a) mid b rest := by
  rw [Reads, read?_bind] at h
  obtain ⟨⟨a, mid⟩, hp, hf⟩ := Option.bind_eq_some_iff.1 h
  exact ⟨a, mid, hp, hf⟩

theorem Fails.bind_first (hp : Fails p cs) : Fails (p >>= f) cs := by
  rw [Fails, read?_bind, hp]
  rfl

theorem Reads.either (hp : Reads p cs a rest) : Reads (either p q) cs a rest := by
  rw [Reads, read?_either, hp]
  rfl

theorem Fails.either_reads (hp : Fails p cs) (hq : Reads q cs a rest) :
    Reads (Reader.either p q) cs a rest := by
  rw [Reads, read?_either, hp]
  exact hq

theorem misses_bind_of_reads (hp : Reads p cs a mid) :
    ((p >>= f) cs).misses = (p cs).misses ++ (f a mid).misses := by
  change (Reader.bind p f cs).misses = _
  unfold Reads at hp
  unfold Reader.bind
  split <;> rename_i h <;> rw [h] at hp <;> cases hp
  rw [h]

theorem misses_bind_of_fails (hp : Fails p cs) : ((p >>= f) cs).misses = (p cs).misses := by
  change (Reader.bind p f cs).misses = _
  unfold Fails at hp
  unfold Reader.bind
  split <;> rename_i h <;> rw [h] at hp <;> cases hp
  rw [h]

theorem misses_either_of_reads (hp : Reads p cs a rest) :
    (either p q cs).misses = (p cs).misses := by
  unfold Reads at hp
  unfold either
  split <;> rename_i h <;> rw [h] at hp <;> cases hp
  rw [h]

theorem misses_either_of_fails (hp : Fails p cs) :
    (either p q cs).misses = (p cs).misses ++ (q cs).misses := by
  unfold Fails at hp
  unfold either
  split <;> rename_i h <;> rw [h] at hp <;> cases hp
  rw [h]

theorem Reads.optional (hp : Reads p cs a rest) : Reads (optional p) cs (some a) rest :=
  (hp.bind (reads_pure (some a) rest)).either

structure Ends (f : Char → Bool) (ws rest : List Char) : Prop where
  all : ∀ c ∈ ws, f c
  next : ∀ c ∈ rest.head?, f c = false

theorem Ends.span {f : Char → Bool} (h : Ends f ws rest) :
    (ws ++ rest).takeWhile f = ws ∧ (ws ++ rest).dropWhile f = rest := by
  rw [List.takeWhile_append_of_pos h.all, List.dropWhile_append_of_pos h.all]
  cases rest with
  | nil => simp
  | cons c rest => simp [h.next c rfl]

theorem ends_span (f : Char → Bool) (cs : List Char) :
    Ends f (cs.takeWhile f) (cs.dropWhile f) := by
  refine ⟨fun c hc => List.mem_takeWhile_imp hc, fun c hc => ?_⟩
  have hnot := List.head?_dropWhile_not f cs
  simpa [Option.mem_def.1 hc] using hnot

theorem run_reads {f : Char → Bool} (h : Ends f ws rest) : Reads (run f) (ws ++ rest) ws rest := by
  rw [Reads, run, h.span.1, h.span.2]

theorem ends_of_run {f : Char → Bool} (h : Reads (run f) cs ws rest) :
    Ends f ws rest ∧ cs = ws ++ rest := by
  cases h
  exact ⟨ends_span f cs, List.takeWhile_append_dropWhile.symm⟩

theorem char_self (c : Char) (rest : List Char) : Reads (char c) (c :: rest) () rest := by
  simp [Reads, char]

theorem char_fails {c : Char} (h : cs.head? ≠ some c) : Fails (char c) cs := by
  cases cs with
  | nil => rfl
  | cons d cs =>
    have hne : d ≠ c := fun hd => h (congrArg some hd)
    simp [Fails, char, hne]

theorem literal_self (w rest : List Char) : Reads (literal w) (w ++ rest) () rest := by
  induction w with
  | nil => rfl
  | cons c w ih => exact (char_self c (w ++ rest)).bind ih

theorem literal_fails {c : Char} {w : List Char} (h : cs.head? ≠ some c) :
    Fails (literal (c :: w)) cs :=
  (char_fails h).bind_first

theorem eq_of_char {c : Char} {u : Unit} (h : Reads (char c) cs u rest) : cs = c :: rest := by
  cases cs with
  | nil => cases h
  | cons d cs =>
    by_cases hd : d = c
    · obtain rfl : cs = rest := by simpa [Reads, char, hd] using h
      rw [hd]
    · simp [Reads, char, hd] at h

theorem spaces_reads (h : Ends isSpace ws rest) : Reads spaces (ws ++ rest) ws rest := by
  obtain ⟨htake, hdrop⟩ := h.span
  have hspaces : ∀ cs, (spaces cs).read? = some (cs.takeWhile isSpace, cs.dropWhile isSpace) :=
    fun _ => rfl
  rw [Reads, hspaces, htake, hdrop]

theorem someSpaces_eq (cs : List Char) : someSpaces cs =
    ⟨if cs.takeWhile isSpace = [] then none else some ((), cs.dropWhile isSpace),
      (spaces cs).misses⟩ := by
  have hspaces : spaces cs =
      ⟨some (cs.takeWhile isSpace, cs.dropWhile isSpace), (spaces cs).misses⟩ := rfl
  rw [someSpaces, hspaces]
  cases cs.takeWhile isSpace <;> rfl

theorem read?_someSpaces (cs : List Char) : (someSpaces cs).read? =
    if cs.takeWhile isSpace = [] then none else some ((), cs.dropWhile isSpace) := by
  rw [someSpaces_eq]

theorem misses_someSpaces (cs : List Char) : (someSpaces cs).misses = (spaces cs).misses := by
  rw [someSpaces_eq]

theorem fails_someSpaces : Fails someSpaces cs ↔ cs.takeWhile isSpace = [] := by
  rw [Fails, read?_someSpaces]
  split <;> simp_all

theorem someSpaces_reads (h : Ends isSpace ws rest) (hne : ws ≠ []) :
    Reads someSpaces (ws ++ rest) () rest := by
  obtain ⟨htake, hdrop⟩ := h.span
  rw [Reads, read?_someSpaces, htake, hdrop, if_neg hne]

theorem ends_of_someSpaces {u : Unit} (h : Reads someSpaces cs u rest) :
    ∃ ws, ws ≠ [] ∧ Ends isSpace ws rest ∧ cs = ws ++ rest := by
  rw [Reads, read?_someSpaces] at h
  split at h
  · cases h
  · rename_i hne
    cases h
    exact ⟨_, hne, ends_span isSpace cs, List.takeWhile_append_dropWhile.symm⟩

theorem keyword_reads {w : String} (h : Ends isSpace ws rest) (hne : ws ≠ []) :
    Reads (keyword w) (w.toList ++ (ws ++ rest)) () rest :=
  (literal_self w.toList (ws ++ rest)).bind (someSpaces_reads h hne)

theorem name_reads {x : String} (hx : IsName x) (h : ∀ c ∈ rest.head?, Text.isNameChar c = false) :
    Reads name (x.toList ++ rest) x rest := by
  obtain ⟨htake, hdrop⟩ := Ends.span ⟨hx.2, h⟩
  unfold Reads name
  rw [htake, hdrop]
  obtain ⟨c, cs, hcs, -⟩ := hx.exists_cons
  rw [hcs]
  simp [← hcs]

theorem tailText_reads (t : List Char) :
    Reads tailText (':' :: t) (String.ofList (Text.trim t)) [] := by
  have hrun : Reads (run fun _ => true) t t [] := by
    simp [Reads, run, List.takeWhile_eq_self_iff.2, List.dropWhile_eq_nil_iff.2]
  exact (char_self ':' t).bind (hrun.bind rfl)

theorem reads_or_fails (p : Reader α) (cs : List Char) :
    (∃ a rest, Reads p cs a rest) ∨ Fails p cs := by
  unfold Reads Fails
  cases (p cs).read? with
  | none => exact .inr rfl
  | some r => exact .inl ⟨r.1, r.2, rfl⟩

theorem mem_misses_bind {m : Miss} (h : m ∈ ((p >>= f) cs).misses) :
    m ∈ (p cs).misses ∨ ∃ a mid, Reads p cs a mid ∧ m ∈ (f a mid).misses := by
  rcases reads_or_fails p cs with ⟨a, mid, hread⟩ | hfails
  · rw [misses_bind_of_reads hread] at h
    exact (List.mem_append.1 h).imp_right fun h => ⟨a, mid, hread, h⟩
  · rw [misses_bind_of_fails hfails] at h
    exact .inl h

theorem mem_misses_either {m : Miss} (h : m ∈ (either p q cs).misses) :
    m ∈ (p cs).misses ∨ m ∈ (q cs).misses := by
  rcases reads_or_fails p cs with ⟨a, mid, hread⟩ | hfails
  · rw [misses_either_of_reads hread] at h
    exact .inl h
  · rw [misses_either_of_fails hfails] at h
    exact List.mem_append.1 h

theorem reads_either_iff :
    Reads (either p q) cs a rest ↔ Reads p cs a rest ∨ Fails p cs ∧ Reads q cs a rest := by
  unfold Reads Fails
  rw [read?_either, Option.or_eq_some_iff]

theorem optional_passes (h : Fails p cs) : Reads (optional p) cs none cs :=
  h.bind_first.either_reads rfl

theorem fails_name : Fails name cs ↔ cs.takeWhile Text.isNameChar = [] := by
  unfold Fails name
  split <;> simp_all

theorem ends_of_name {x : String} (h : Reads name cs x rest) :
    Ends Text.isNameChar x.toList rest ∧ cs = x.toList ++ rest := by
  have hends := ends_span Text.isNameChar cs
  unfold Reads name at h
  split at h
  · cases h
  · rename_i d r hcs
    cases h
    rw [String.toList_ofList, ← hcs]
    exact ⟨hends, List.takeWhile_append_dropWhile.symm⟩

theorem eq_of_name {x : String} (h : Reads name cs x rest) : IsName x ∧ cs = x.toList ++ rest :=
  ⟨yields_name cs x rest h, (ends_of_name h).2⟩

theorem without_reads (e : Expectation) (cs : List Char) : Reads (without e) cs () cs :=
  rfl

theorem quoted_reads {label : String} (h : ∀ c ∈ label.toList, c ≠ '"') (rest : List Char) :
    Reads quoted ('"' :: (label.toList ++ '"' :: rest)) label rest := by
  have hends : Ends (fun c => decide (c ≠ '"')) label.toList ('"' :: rest) := by
    refine ⟨fun c hc => by simpa using h c hc, fun c hc => ?_⟩
    cases hc
    rfl
  refine (char_self '"' _).bind ((run_reads hends).bind ((without_reads .other _).bind
    ((char_self '"' rest).bind ?_)))
  rw [String.ofList_toList]
  exact reads_pure label rest

theorem eq_of_atEnd {u : Unit} (h : Reads atEnd cs u rest) : cs = [] ∧ rest = [] := by
  cases cs with
  | nil =>
    cases h
    exact ⟨rfl, rfl⟩
  | cons c cs => cases h

theorem reads_oneOf_iff {ps : List (Reader α)}
    (h : ∀ p ∈ ps, ∀ q ∈ ps, ∀ a rest b end', Reads p cs a rest → Reads q cs b end' →
      a = b ∧ rest = end') :
    Reads (oneOf ps) cs a rest ↔ ∃ p ∈ ps, Reads p cs a rest := by
  induction ps with
  | nil => simp [oneOf, Reads]
  | cons p ps ih =>
    rw [oneOf, reads_either_iff, List.exists_mem_cons_iff,
      ih fun p hp q hq => h p (.tail _ hp) q (.tail _ hq)]
    refine ⟨Or.imp_right And.right, fun hps => hps.elim .inl fun ⟨q, hq, hqr⟩ => ?_⟩
    rcases reads_or_fails p cs with ⟨b, end', hp⟩ | hp
    · obtain ⟨rfl, rfl⟩ := h p List.mem_cons_self q (.tail _ hq) b end' a rest hp hqr
      exact .inl hp
    · exact .inr ⟨hp, q, hq, hqr⟩

end Reader

namespace Statement

open Reader

theorem isNameChar_of_lower {c : Char} (h : 0x61 ≤ c.toNat ∧ c.toNat < 0x7B) :
    Text.isNameChar c := by
  have hbounds : CharSet.alphabetic.bounds =
      0x41 :: 0x5B :: 0x61 :: 0x7B :: CharSet.alphabetic.bounds.drop 4 := rfl
  have hletter : CharSet.alphabetic.has c := by
    rw [CharSet.has, hbounds, CharSet.inside_of_le _ (by omega), CharSet.inside_of_le _ (by omega),
      CharSet.inside_of_le _ h.1, CharSet.inside_of_lt _ h.2]
    rfl
  simp [Text.isNameChar, hletter]

theorem isName_of_lower {w : String} (cs : List Char) (hw : w.toList = cs) (hne : cs ≠ [])
    (h : ∀ c ∈ cs, 0x61 ≤ c.toNat ∧ c.toNat < 0x7B) : IsName w := by
  subst hw
  exact ⟨fun he => hne (String.toList_eq_nil_iff.2 he), fun c hc => isNameChar_of_lower (h c hc)⟩

theorem isNameChar_of_isSpace {c : Char} (h : isSpace c) : Text.isNameChar c = false := by
  simp only [isSpace, Bool.or_eq_true, decide_eq_true_eq] at h
  rcases h with rfl | rfl <;> decide +kernel

end Statement

end Statechart
