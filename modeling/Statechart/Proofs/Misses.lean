import Mathlib
import Statechart.Proofs.Spelling

namespace Statechart

namespace Reader

variable {α β : Type}

structure Forward (p : Reader α) : Prop where
  rest : ∀ cs a rest, Reads p cs a rest → rest <:+ cs
  misses : ∀ cs, ∀ m ∈ (p cs).misses, m.rest <:+ cs

theorem Spells.forward {p : Reader α} {L : α → List Char → Prop} (h : Spells p L) : Forward p := by
  refine ⟨fun cs a rest hr => ?_, fun cs m hm => ?_⟩
  · obtain ⟨w, -, rfl⟩ := h.reads cs a rest hr
    exact List.suffix_append w rest
  · obtain ⟨u, -, -, rfl, -⟩ := h.misses cs m hm
    exact List.suffix_append u m.rest

theorem Forward.bind {p : Reader α} {f : α → Reader β} (hp : Forward p)
    (hf : ∀ a, Forward (f a)) : Forward (p >>= f) := by
  refine ⟨fun cs b rest h => ?_, fun cs m hm => ?_⟩
  · obtain ⟨a, mid, hread, hrest⟩ := exists_of_bind h
    exact ((hf a).rest mid b rest hrest).trans (hp.rest cs a mid hread)
  · rcases mem_misses_bind hm with hm | ⟨a, mid, hread, hm⟩
    · exact hp.misses cs m hm
    · exact ((hf a).misses mid m hm).trans (hp.rest cs a mid hread)

theorem Forward.either {p q : Reader α} (hp : Forward p) (hq : Forward q) :
    Forward (either p q) := by
  refine ⟨fun cs a rest h => ?_, fun cs m hm => ?_⟩
  · rcases reads_either_iff.1 h with h | ⟨-, h⟩
    · exact hp.rest cs a rest h
    · exact hq.rest cs a rest h
  · exact (mem_misses_either hm).elim (hp.misses cs m) (hq.misses cs m)

theorem forward_oneOf {ps : List (Reader α)} (h : ∀ p ∈ ps, Forward p) : Forward (oneOf ps) := by
  induction ps with
  | nil =>
    refine ⟨fun cs a rest h => ?_, fun cs m hm => ?_⟩
    · cases h
    · cases hm
  | cons p ps ih => exact (h p (by simp)).either (ih fun q hq => h q (by simp [hq]))

section Honest

variable {p q : Reader α} {f : α → Reader β} {a : α} {b : β} {cs rest u v w ws : List Char} {c : Char}

/-- Whatever follows `c`, the reader fails before it, or reads no further than it, in the same way. It
tells all that it misses, so it has looked at nothing behind its furthest miss. -/
structure Honest (p : Reader α) : Prop extends Forward p where
  told : ∀ cs, Fails p cs → (p cs).misses ≠ []
  fails : ∀ u c v, Fails p (u ++ c :: v) → (∀ m ∈ (p (u ++ c :: v)).misses, c :: v <:+ m.rest) →
    ∀ v', Fails p (u ++ c :: v')
  reads : ∀ u c v a w, Reads p (u ++ c :: v) a (w ++ c :: v) →
    (∀ m ∈ (p (u ++ c :: v)).misses, c :: v <:+ m.rest) →
      ∀ v', Reads p (u ++ c :: v') a (w ++ c :: v')

theorem Forward.honest {a : α} (hp : Forward p) (hread : ∀ cs, Reads p cs a cs) : Honest p where
  toForward := hp
  told cs h := absurd h (hread cs).not_fails
  fails u c v h := absurd h (hread _).not_fails
  reads u c v b w h _ v' := by
    obtain ⟨rfl, hrest⟩ := h.unique (hread _)
    rw [List.append_left_inj] at hrest
    exact hrest ▸ hread _

theorem honest_pure (a : α) : Honest (pure a : Reader α) :=
  (spells_pure (L := fun b w => b = a ∧ w = []) ⟨rfl, rfl⟩).forward.honest (reads_pure a)

theorem Honest.bind (hp : Honest p) (hf : ∀ a, Honest (f a)) : Honest (p >>= f) where
  toForward := hp.toForward.bind fun a => (hf a).toForward
  told cs h := by
    rcases reads_or_fails p cs with ⟨a, mid, hread⟩ | hfails
    · rw [misses_bind_of_reads hread]
      have hsecond : Fails (f a) mid := by rwa [Fails, read?_bind, hread] at h
      exact List.append_ne_nil_of_right_ne_nil _ ((hf a).told mid hsecond)
    · rw [misses_bind_of_fails hfails]
      exact hp.told cs hfails
  fails u c v h hm v' := by
    rcases reads_or_fails p (u ++ c :: v) with ⟨a, mid, hread⟩ | hfails
    · have hsecond : Fails (f a) mid := by rwa [Fails, read?_bind, hread] at h
      rw [misses_bind_of_reads hread, List.forall_mem_append] at hm
      -- the second reader has told of a miss, so it started before `c`
      obtain ⟨m, hmem⟩ := List.exists_mem_of_ne_nil _ ((hf a).told mid hsecond)
      obtain ⟨w, rfl⟩ := (hm.2 m hmem).trans ((hf a).misses mid m hmem)
      rw [Fails, read?_bind, hp.reads u c v a w hread hm.1 v']
      exact (hf a).fails w c v hsecond hm.2 v'
    · rw [misses_bind_of_fails hfails] at hm
      exact (hp.fails u c v hfails hm v').bind_first
  reads u c v b w h hm v' := by
    obtain ⟨a, mid, hread, hrest⟩ := exists_of_bind h
    rw [misses_bind_of_reads hread, List.forall_mem_append] at hm
    obtain ⟨x, rfl⟩ := (hf a).rest mid b _ hrest
    rw [← List.append_assoc] at hread hrest hm
    exact (hp.reads u c v a (x ++ w) hread hm.1 v').bind ((hf a).reads (x ++ w) c v b w hrest hm.2 v')

theorem Honest.either (hp : Honest p) (hq : Honest q) : Honest (either p q) where
  toForward := hp.toForward.either hq.toForward
  told cs h := by
    obtain ⟨hpf, -⟩ : Fails p cs ∧ Fails q cs := by simpa [Fails, read?_either] using h
    rw [misses_either_of_fails hpf]
    exact List.append_ne_nil_of_left_ne_nil (hp.told cs hpf) _
  fails u c v h hm v' := by
    obtain ⟨hpf, hqf⟩ : Fails p _ ∧ Fails q _ := by simpa [Fails, read?_either] using h
    rw [misses_either_of_fails hpf, List.forall_mem_append] at hm
    rw [Fails, read?_either, hp.fails u c v hpf hm.1 v', hq.fails u c v hqf hm.2 v']
    rfl
  reads u c v a w h hm v' := by
    rcases reads_either_iff.1 h with hpr | ⟨hpf, hqr⟩
    · rw [misses_either_of_reads hpr] at hm
      exact (hp.reads u c v a w hpr hm v').either
    · rw [misses_either_of_fails hpf, List.forall_mem_append] at hm
      exact (hp.fails u c v hpf hm.1 v').either_reads (hq.reads u c v a w hqr hm.2 v')

theorem Honest.optional (h : Honest p) : Honest (optional p) :=
  (h.bind fun a => honest_pure (some a)).either (honest_pure none)

theorem fails_oneOf {ps : List (Reader α)} : Fails (oneOf ps) cs ↔ ∀ p ∈ ps, Fails p cs := by
  induction ps with
  | nil => simp [oneOf, Fails]
  | cons p ps ih =>
    rw [List.forall_mem_cons, ← ih, oneOf, Fails, read?_either, Option.or_eq_none_iff]
    rfl

theorem misses_oneOf {ps : List (Reader α)} (h : Fails (oneOf ps) cs) :
    (oneOf ps cs).misses = ps.flatMap fun p => (p cs).misses := by
  induction ps with
  | nil => rfl
  | cons p ps ih =>
    obtain ⟨hp, hps⟩ := List.forall_mem_cons.1 (fails_oneOf.1 h)
    rw [oneOf, misses_either_of_fails hp, ih (fails_oneOf.2 hps), List.flatMap_cons]

theorem honest_char (d : Char) : Honest (char d) where
  toForward := (spells_char d).forward
  told cs h := by
    cases cs with
    | nil => simp [char]
    | cons e cs =>
      have hne : e ≠ d := by
        rintro rfl
        cases h.symm.trans (char_self e cs)
      simp [char, hne]
  fails u c v h _ v' := by
    have hne : (u ++ c :: v).head? ≠ some d := by
      intro hhead
      obtain ⟨tail, htail⟩ := List.head?_eq_some_iff.1 hhead
      rw [htail] at h
      cases h.symm.trans (char_self d tail)
    refine char_fails ?_
    cases u <;> simpa using hne
  reads u c v a w h _ v' := by
    have heq := eq_of_char h
    rw [← List.cons_append, List.append_left_inj] at heq
    rw [heq]
    exact char_self d _

theorem honest_literal (w : List Char) : Honest (literal w) := by
  induction w with
  | nil => exact honest_pure ()
  | cons c w ih => exact (honest_char c).bind fun _ => ih

theorem Ends.change {q : Char → Bool} (h : Ends q ws (w ++ c :: v)) (v' : List Char) :
    Ends q ws (w ++ c :: v') := by
  refine ⟨h.all, ?_⟩
  cases w <;> exact h.next

theorem honest_run (q : Char → Bool) : Honest (run q) where
  toForward := (spells_run q).forward
  told _ h := by cases h
  fails _ _ _ h := by cases h
  reads u c v a w h _ v' := by
    obtain ⟨hends, heq⟩ := ends_of_run h
    rw [← List.append_assoc, List.append_left_inj] at heq
    rw [heq, List.append_assoc]
    exact run_reads (hends.change v')

theorem honest_without (e : Expectation) : Honest (without e) :=
  (spells_without e).forward.honest (without_reads e)

theorem honest_spaces : Honest spaces :=
  (honest_run isSpace).bind fun cs => (honest_without _).bind fun _ =>
    (honest_without _).bind fun _ => honest_pure cs

theorem takeWhile_change {q : Char → Bool} (h : (u ++ c :: v).takeWhile q = []) (v' : List Char) :
    (u ++ c :: v').takeWhile q = [] := by
  cases u <;> simp_all [List.takeWhile_cons]

theorem honest_someSpaces : Honest someSpaces where
  toForward := spells_someSpaces.forward
  told cs _ := by
    rw [misses_someSpaces]
    exact List.cons_ne_nil _ _
  fails u c v h _ v' := fails_someSpaces.2 (takeWhile_change (fails_someSpaces.1 h) v')
  reads u c v a w h _ v' := by
    obtain ⟨ws, hne, hends, heq⟩ := ends_of_someSpaces h
    rw [← List.append_assoc, List.append_left_inj] at heq
    rw [heq, List.append_assoc]
    exact someSpaces_reads (hends.change v') hne

theorem honest_atEnd : Honest atEnd where
  toForward := spells_atEnd.forward
  told cs h := by
    cases cs with
    | nil => cases h
    | cons c cs => simp [atEnd]
  fails u c v _ _ v' := by
    cases u <;> rfl
  reads u c v a w h _ _ := by
    have hnil := (eq_of_atEnd h).1
    simp at hnil

theorem honest_keyword (w : String) : Honest (keyword w) :=
  (honest_literal _).bind fun _ => honest_someSpaces

theorem honest_name : Honest name where
  toForward := spells_name.forward
  told cs _ := by
    unfold name
    split <;> exact List.cons_ne_nil _ _
  fails u c v h _ v' := fails_name.2 (takeWhile_change (fails_name.1 h) v')
  reads u c v x w h _ v' := by
    obtain ⟨hx, heq⟩ := eq_of_name h
    rw [← List.append_assoc, List.append_left_inj] at heq
    rw [heq, List.append_assoc]
    exact name_reads hx ((ends_of_name h).1.change v').next

theorem honest_quoted : Honest quoted :=
  (honest_char _).bind fun _ => (honest_run _).bind fun _ => (honest_without _).bind fun _ =>
    (honest_char _).bind fun _ => honest_pure _

theorem honest_tailText : Honest tailText :=
  (honest_char _).bind fun _ => (honest_run _).bind fun _ => (honest_without _).bind fun _ =>
    honest_pure _

end Honest

end Reader

namespace Statement

open Reader

theorem honest_endpoint : Honest endpoint :=
  ((honest_literal _).bind fun _ => honest_pure _).either (honest_name.bind fun _ => honest_pure _)

theorem honest_stateForm : Honest stateForm := by
  refine (honest_keyword _).bind fun _ => Honest.bind (.either ?_ ?_) fun _ => ?_
  · exact honest_quoted.bind fun _ => honest_someSpaces.bind fun _ =>
      (honest_keyword _).bind fun _ => honest_name.bind fun _ => honest_pure _
  · exact honest_name.bind fun _ => honest_pure _
  · exact honest_spaces.bind fun _ => (honest_char _).optional.bind fun _ =>
      honest_spaces.bind fun _ => honest_atEnd.bind fun _ => honest_pure _

theorem honest_noteForm : Honest noteForm := by
  refine (honest_keyword _).bind fun _ => Honest.bind (.either ?_ ?_) fun _ => ?_
  · exact (honest_literal _).bind fun _ => honest_pure _
  · exact (honest_literal _).bind fun _ => honest_pure _
  · exact honest_someSpaces.bind fun _ => (honest_keyword _).bind fun _ =>
      honest_name.bind fun _ => honest_spaces.bind fun _ => honest_tailText.optional.bind fun _ =>
      honest_atEnd.bind fun _ => honest_pure _

theorem honest_transitionForm : Honest transitionForm :=
  honest_endpoint.bind fun _ => honest_spaces.bind fun _ => (honest_literal _).bind fun _ =>
    honest_spaces.bind fun _ => honest_endpoint.bind fun _ => honest_spaces.bind fun _ =>
    honest_tailText.optional.bind fun _ => honest_atEnd.bind fun _ => honest_pure _

theorem honest_descriptionForm : Honest descriptionForm :=
  honest_name.bind fun _ => honest_spaces.bind fun _ => honest_tailText.bind fun _ =>
    honest_atEnd.bind fun _ => honest_pure _

theorem honest_forms : ∀ p ∈ [stateForm, noteForm, directionForm, closeForm, separatorForm,
    transitionForm, descriptionForm], Honest p := by
  simp only [List.forall_mem_cons, List.not_mem_nil, false_imp_iff, implies_true, and_true]
  refine ⟨honest_stateForm, honest_noteForm, ?_, ?_, ?_, honest_transitionForm,
    honest_descriptionForm⟩
  · exact (honest_keyword _).bind fun _ => honest_name.bind fun _ => honest_spaces.bind fun _ =>
      honest_atEnd.bind fun _ => honest_pure _
  · exact (honest_char _).bind fun _ => honest_spaces.bind fun _ => honest_atEnd.bind fun _ =>
      honest_pure _
  · exact (honest_literal _).bind fun _ => honest_spaces.bind fun _ => honest_atEnd.bind fun _ =>
      honest_pure _

theorem forward_form : Forward form :=
  forward_oneOf fun p hp => (honest_forms p hp).toForward

end Statement

namespace Furthest

theorem exists_rest_add (f : Furthest) (m : Miss) :
    (f.add m).rest = f.rest ∨ (f.add m).rest = m.rest := by
  unfold add
  split
  · exact .inr rfl
  · split <;> exact .inl rfl

theorem rest_foldl {ms : List Miss} {f : Furthest} {P : List Char → Prop} (hf : P f.rest)
    (h : ∀ m ∈ ms, P m.rest) : P (ms.foldl add f).rest := by
  induction ms generalizing f with
  | nil => exact hf
  | cons m ms ih =>
    obtain ⟨hm, hms⟩ := List.forall_mem_cons.1 h
    refine ih ?_ hms
    rcases exists_rest_add f m with heq | heq
    · exact heq ▸ hf
    · exact heq ▸ hm

theorem rest_of? {ms : List Miss} {f : Furthest} {P : List Char → Prop} (hf : of? ms = some f)
    (h : ∀ m ∈ ms, P m.rest) : P f.rest := by
  cases ms with
  | nil => cases hf
  | cons m ms =>
    cases hf
    obtain ⟨hm, hms⟩ := List.forall_mem_cons.1 h
    exact rest_foldl hm hms

end Furthest

namespace Text

/-- Whether a column, counted in bytes from one, is that of a character or of the end of the text. -/
def IsColumn (text : String) (column : Nat) : Prop :=
  ∃ before rest, text.toList = before ++ rest ∧ column = (String.ofList before).utf8ByteSize + 1

theorem isColumn_one (text : String) : IsColumn text 1 :=
  ⟨[], text.toList, rfl, rfl⟩

theorem IsColumn.bounds {text : String} {column : Nat} (h : IsColumn text column) :
    1 ≤ column ∧ column ≤ text.utf8ByteSize + 1 := by
  obtain ⟨before, rest, htext, rfl⟩ := h
  rw [← String.ofList_toList (s := text), htext, String.ofList_append, String.utf8ByteSize_append]
  omega

theorem utf8Size_eq (cs : List Char) : utf8Size cs = (String.ofList cs).utf8ByteSize := by
  rw [String.utf8ByteSize_ofList]
  induction cs with
  | nil => rfl
  | cons c cs ih =>
    rw [String.utf8Len_cons, ← ih, Nat.add_comm]
    rfl

end Text

namespace Statement

theorem rest_of_read {cs : List Char} {f : Furthest} (h : read cs = .error f) : f.rest <:+ cs := by
  have hform := forward_form.misses cs
  unfold read at h
  split at h
  · cases h
  · rename_i ms hr
    rw [hr] at hform
    cases h
    cases hf : Furthest.of? ms with
    | none => exact List.suffix_rfl
    | some f => exact Furthest.rest_of? (P := fun rest => rest <:+ cs) hf hform

theorem column_append (u rest : List Char) :
    column (u ++ rest) rest = (String.ofList u).utf8ByteSize + 1 := by
  rw [column, Text.utf8Size_eq, Text.utf8Size_eq, String.ofList_append, String.utf8ByteSize_append,
    Nat.add_sub_cancel]

theorem isColumn_of_read {text : String} {f : Furthest} (h : read text.toList = .error f) :
    Text.IsColumn text (column text.toList f.rest) := by
  obtain ⟨before, htext⟩ := rest_of_read h
  exact ⟨before, f.rest, htext.symm, htext ▸ column_append before f.rest⟩

end Statement

end Statechart
