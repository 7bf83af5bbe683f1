import Mathlib
import Statechart.Proofs.Reading

namespace Statechart.Reader

variable {α β : Type} {p q : Reader α} {f : α → Reader β} {a : α} {cs rest : List Char}
  {L : α → List Char → Prop}

/-- What is read is a word that `L` has for it, and what comes before a miss begins one. -/
structure Spells (p : Reader α) (L : α → List Char → Prop) : Prop where
  inhabited : ∃ a w, L a w
  reads : ∀ cs a rest, Reads p cs a rest → ∃ w, L a w ∧ cs = w ++ rest
  misses : ∀ cs, ∀ m ∈ (p cs).misses, ∃ u v a, cs = u ++ m.rest ∧ L a (u ++ v)

theorem Spells.mono {L' : α → List Char → Prop} (h : Spells p L) (hL : ∀ a w, L a w → L' a w) :
    Spells p L' := by
  obtain ⟨a, w, hw⟩ := h.inhabited
  refine ⟨⟨a, w, hL a w hw⟩, fun cs a rest hr => ?_, fun cs m hm => ?_⟩
  · obtain ⟨w, hw, hcs⟩ := h.reads cs a rest hr
    exact ⟨w, hL a w hw, hcs⟩
  · obtain ⟨u, v, a, hcs, huv⟩ := h.misses cs m hm
    exact ⟨u, v, a, hcs, hL a _ huv⟩

theorem spells_pure {a : α} (h : L a []) : Spells (pure a) L := by
  refine ⟨⟨a, [], h⟩, fun cs b rest hr => ?_, fun cs m hm => by cases hm⟩
  cases hr
  exact ⟨[], h, rfl⟩

theorem Spells.bind {M : β → List Char → Prop} (hp : Spells p L)
    (hf : ∀ a u, L a u → Spells (f a) fun b v => M b (u ++ v)) : Spells (p >>= f) M := by
  refine ⟨?_, fun cs b rest h => ?_, fun cs m hm => ?_⟩
  · obtain ⟨a, u, hu⟩ := hp.inhabited
    obtain ⟨b, v, hv⟩ := (hf a u hu).inhabited
    exact ⟨b, u ++ v, hv⟩
  · obtain ⟨a, mid, hread, hrest⟩ := exists_of_bind h
    obtain ⟨u, hu, rfl⟩ := hp.reads cs a mid hread
    obtain ⟨v, hv, rfl⟩ := (hf a u hu).reads mid b rest hrest
    exact ⟨u ++ v, hv, (List.append_assoc ..).symm⟩
  -- a miss of the first reader is made good by any word of the second
  have hfirst : m ∈ (p cs).misses → ∃ u v b, cs = u ++ m.rest ∧ M b (u ++ v) := by
    intro hm
    obtain ⟨u, v, a, hcs, huv⟩ := hp.misses cs m hm
    obtain ⟨b, w, hw⟩ := (hf a _ huv).inhabited
    exact ⟨u, v ++ w, b, hcs, List.append_assoc u v w ▸ hw⟩
  rcases mem_misses_bind hm with hfst | ⟨a, mid, hread, hsnd⟩
  · exact hfirst hfst
  · obtain ⟨w, hw, rfl⟩ := hp.reads cs a mid hread
    obtain ⟨u, v, b, hmid, huv⟩ := (hf a w hw).misses mid m hsnd
    refine ⟨w ++ u, v, b, ?_, ?_⟩
    · rw [hmid, List.append_assoc]
    · rwa [List.append_assoc]

theorem Spells.either (hp : Spells p L) (hq : Spells q L) : Spells (either p q) L := by
  refine ⟨hp.inhabited, fun cs a rest h => ?_, fun cs m hm => ?_⟩
  · rcases reads_either_iff.1 h with h | ⟨-, h⟩
    · exact hp.reads cs a rest h
    · exact hq.reads cs a rest h
  · exact (mem_misses_either hm).elim (hp.misses cs m) (hq.misses cs m)

theorem Spells.optional {M : Option α → List Char → Prop} (hp : Spells p fun a w => M (some a) w)
    (hnone : M none []) : Spells (optional p) M :=
  (hp.bind fun _ u hu => spells_pure ((List.append_nil u).symm ▸ hu)).either (spells_pure hnone)

section Parts

theorem spells_char (c : Char) : Spells (char c) fun _ w => w = [c] := by
  refine ⟨⟨(), _, rfl⟩, fun cs u rest h => ⟨[c], rfl, eq_of_char h⟩, fun cs m hm => ?_⟩
  refine ⟨[], [c], (), ?_, rfl⟩
  cases cs with
  | nil =>
    rw [List.mem_singleton.1 hm]
    rfl
  | cons d cs =>
    simp only [char] at hm
    split at hm
    · cases hm
    · rw [List.mem_singleton.1 hm]
      rfl

theorem spells_literal (cs : List Char) : Spells (literal cs) fun _ w => w = cs := by
  induction cs with
  | nil => exact spells_pure rfl
  | cons c cs ih =>
    refine (spells_char c).bind ?_
    rintro _ _ rfl
    exact ih.mono fun _ w hw => congrArg (c :: ·) hw

theorem spells_run (f : Char → Bool) : Spells (run f) fun a w => w = a ∧ ∀ c ∈ a, f c := by
  refine ⟨⟨[], [], rfl, by simp⟩, fun cs a rest h => ?_, fun cs m hm => by cases hm⟩
  cases h
  exact ⟨_, ⟨rfl, fun c hc => List.mem_takeWhile_imp hc⟩, List.takeWhile_append_dropWhile.symm⟩

theorem spells_without (e : Expectation) : Spells (without e) fun _ w => w = [] := by
  refine ⟨⟨(), [], rfl⟩, fun cs a rest h => ?_, fun cs m hm => ?_⟩
  · cases h
    exact ⟨[], rfl, rfl⟩
  · rw [List.mem_singleton.1 hm]
    exact ⟨[], [], (), rfl, rfl⟩

theorem spells_spaces : Spells spaces fun a w => w = a ∧ ∀ c ∈ a, isSpace c := by
  refine (spells_run isSpace).bind ?_
  rintro _ ws ⟨rfl, h⟩
  refine (spells_without _).bind ?_
  rintro _ _ rfl
  refine (spells_without _).bind ?_
  rintro _ _ rfl
  exact spells_pure ⟨by simp, h⟩

theorem spells_someSpaces : Spells someSpaces fun _ w => Statement.IsGap w := by
  refine ⟨⟨(), [' '], by simp, by simp [isSpace]⟩, fun cs a rest h => ?_, fun cs m hm => ?_⟩
  · obtain ⟨ws, hne, hends, hcs⟩ := ends_of_someSpaces h
    exact ⟨ws, ⟨hne, hends.all⟩, hcs⟩
  · rw [misses_someSpaces] at hm
    obtain ⟨u, v, _, hcs, rfl, hall⟩ := spells_spaces.misses cs m hm
    refine ⟨u, v ++ [' '], (), hcs, by simp, ?_⟩
    rw [← List.append_assoc, List.forall_mem_append]
    exact ⟨hall, by simp [isSpace]⟩

theorem spells_keyword (x : String) :
    Spells (keyword x) fun _ w => ∃ ws, Statement.IsGap ws ∧ w = x.toList ++ ws := by
  refine (spells_literal _).bind ?_
  rintro _ _ rfl
  exact spells_someSpaces.mono fun _ ws hws => ⟨ws, hws, rfl⟩

theorem spells_name : Spells name fun x w => IsName x ∧ w = x.toList := by
  have hname : IsName "a" :=
    Statement.isName_of_lower _ rfl (by simp) (by simp)
  refine ⟨⟨"a", _, hname, rfl⟩, fun cs x rest h => ?_, fun cs m hm => ?_⟩
  · obtain ⟨hx, hcs⟩ := eq_of_name h
    exact ⟨_, ⟨hx, rfl⟩, hcs⟩
  · have hrest : m.rest = cs.dropWhile Text.isNameChar := by
      unfold name at hm
      split at hm <;> rw [List.mem_singleton.1 hm]
    refine ⟨cs.takeWhile Text.isNameChar, ['a'],
      String.ofList (cs.takeWhile Text.isNameChar ++ ['a']), ?_, ⟨?_, ?_⟩, ?_⟩
    · rw [hrest, List.takeWhile_append_dropWhile]
    · simp
    · rw [String.toList_ofList, List.forall_mem_append]
      exact ⟨fun c hc => List.mem_takeWhile_imp hc, hname.2⟩
    · rw [String.toList_ofList]

theorem spells_quoted : Spells quoted fun x w =>
    (∀ c ∈ x.toList, c ≠ '"') ∧ w = '"' :: (x.toList ++ ['"']) := by
  refine (spells_char _).bind ?_
  rintro _ _ rfl
  refine (spells_run _).bind ?_
  rintro _ cs ⟨rfl, h⟩
  refine (spells_without _).bind ?_
  rintro _ _ rfl
  refine (spells_char _).bind ?_
  rintro _ _ rfl
  refine spells_pure ⟨?_, by simp⟩
  rw [String.toList_ofList]
  simpa using h

theorem spells_tailText : Spells tailText fun x w =>
    ∃ cs, x = String.ofList (Text.trim cs) ∧ w = ':' :: cs := by
  refine (spells_char _).bind ?_
  rintro _ _ rfl
  refine (spells_run _).bind ?_
  rintro _ cs ⟨rfl, -⟩
  refine (spells_without _).bind ?_
  rintro _ _ rfl
  exact spells_pure ⟨cs, rfl, by simp⟩

theorem spells_atEnd : Spells atEnd fun _ w => w = [] := by
  refine ⟨⟨(), [], rfl⟩, fun cs u rest h => ⟨[], rfl, ?_⟩, fun cs m hm => ⟨[], [], (), ?_, rfl⟩⟩
  · obtain ⟨rfl, rfl⟩ := eq_of_atEnd h
    rfl
  · cases cs with
    | nil => cases hm
    | cons c cs =>
      rw [List.mem_singleton.1 hm]
      rfl

end Parts

end Statechart.Reader
