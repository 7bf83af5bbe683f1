import Mathlib
import Statechart.Proofs.NodeId
import Statechart.Proofs.WholeLines

namespace Statechart.Text

section Words

variable {c : Char} {a b cs w : List Char}

structure IsWord (w : List Char) : Prop where
  ne_nil : w ≠ []
  unbroken : ∀ c ∈ w, isBlank c = false

theorem words_blank (hc : isBlank c) (cs : List Char) : words (c :: cs) = words cs := by
  rw [words, if_pos hc]

theorem words_last (hc : isBlank c = false) (hcs : (cs.head?.map isBlank).getD true) :
    words (c :: cs) = [c] :: words cs := by
  rw [words, if_neg (by simp [hc]), if_pos hcs]

theorem words_inner {d : Char} (hc : isBlank c = false) (hd : isBlank d = false)
    (cs : List Char) :
    ∃ w ws, words (d :: cs) = w :: ws ∧ words (c :: d :: cs) = (c :: w) :: ws := by
  have hne : words (d :: cs) ≠ [] := by
    rw [words, if_neg (by simp [hd])]
    split
    · simp
    · split <;> simp
  obtain ⟨w, ws, hw⟩ := List.exists_cons_of_ne_nil hne
  refine ⟨w, ws, hw, ?_⟩
  rw [words, if_neg (by simp [hc]), if_neg (by simp [hd]), hw]

theorem words_append_blank (hc : isBlank c) (a b : List Char) :
    words (a ++ c :: b) = words a ++ words b := by
  induction a with
  | nil => exact words_blank hc b
  | cons x a ih =>
    rw [List.cons_append]
    cases hx : isBlank x with
    | true => rw [words_blank hx, words_blank hx, ih]
    | false =>
      cases a with
      | nil =>
        rw [List.nil_append] at ih ⊢
        rw [words_last hx (by simp [hc]), words_last hx rfl, ih, List.cons_append]
      | cons y a =>
        rw [List.cons_append] at ih ⊢
        cases hy : isBlank y with
        | true =>
          rw [words_last hx (by simp [hy]), words_last hx (by simp [hy]), ih, List.cons_append]
        | false =>
          obtain ⟨w, ws, hw, hxw⟩ := words_inner hx hy a
          obtain ⟨v, vs, hv, hxv⟩ := words_inner hx hy (a ++ c :: b)
          rw [hw, hv, List.cons_append] at ih
          obtain ⟨rfl, rfl⟩ := List.cons.inj ih
          rw [hxw, hxv, List.cons_append]

theorem nil_notMem_words (cs : List Char) : [] ∉ words cs := by
  induction cs with
  | nil => simp [words]
  | cons c cs ih =>
    rw [words]
    split
    · exact ih
    · split
      · simp [ih]
      · split
        · simp
        · rename_i w ws hw
          rw [hw] at ih
          simpa using fun hws => ih (List.mem_cons_of_mem w hws)

theorem isWord_of_mem_words (h : w ∈ words cs) : IsWord w := by
  refine ⟨fun hnil => nil_notMem_words cs (hnil ▸ h), fun c hc => ?_⟩
  by_contra hb
  exact notMem_words (by simpa using hb) cs w h hc

theorem IsWord.words_eq (h : IsWord w) : words w = [w] := by
  obtain ⟨hne, hw⟩ := h
  induction w with
  | nil => exact absurd rfl hne
  | cons c w ih =>
    obtain ⟨hc, hw⟩ := List.forall_mem_cons.1 hw
    cases w with
    | nil => exact words_last hc rfl
    | cons d w =>
      obtain ⟨v, vs, hv, hcv⟩ := words_inner hc (hw d List.mem_cons_self) w
      rw [ih (List.cons_ne_nil d w) hw] at hv
      obtain ⟨rfl, rfl⟩ := List.cons.inj hv
      exact hcv

end Words

section Columns

/-- The columns that the character in front can take back when it merges with a follower. -/
def Follower.owed : Follower → Int
  | .khmerLetter | .tifinaghJoiner => 1
  | _ => 0

theorem Follower.owed_nonneg (f : Follower) : 0 ≤ f.owed := by
  cases f <;> simp [owed]

/-- The columns added, with `k` counted before, are enough for what can be taken back of them. -/
def Covered (k : Int) (r : Int × Ahead) : Prop :=
  r.2.follower.owed ≤ r.1 + k

theorem covered_ite {p : Prop} [Decidable p] {k : Int} {x y : Int × Ahead} (hx : Covered k x)
    (hy : Covered k y) : Covered k (if p then x else y) := by
  split
  · exact hx
  · exact hy

theorem covered_alone (c : Char) {k : Int} (hk : 0 ≤ k) : Covered k (alone c) := by
  unfold alone
  repeat' apply covered_ite
  all_goals simpa [Covered, Ahead.of, Ahead.plain, Follower.owed] using by omega

theorem covered_select (a : Ahead) (s : Selector) : Covered a.follower.owed (0, a.select s) := by
  unfold Ahead.select Covered
  split
  · simp
  · simpa [Follower.owed] using a.follower.owed_nonneg

theorem covered_merge? (f : Follower) (c : Char) : ∀ r ∈ f.merge? c, Covered f.owed r := by
  have hite : ∀ {p : Prop} [Decidable p] {x y : Option (Int × Ahead)},
      (∀ r ∈ x, Covered f.owed r) → (∀ r ∈ y, Covered f.owed r) →
      ∀ r ∈ if p then x else y, Covered f.owed r := by
    intro p _ x y hx hy
    split
    · exact hx
    · exact hy
  unfold Follower.merge?
  refine hite (by simp [Covered, Ahead.of]) ?_
  cases f
  all_goals
    dsimp only
    repeat' apply hite
    all_goals simp [Covered, Ahead.of, Ahead.plain, Follower.owed]

theorem covered_merged (c : Char) (a : Ahead) : Covered a.follower.owed (merged c a) := by
  have howed := a.follower.owed_nonneg
  have hfree : ∀ {n : Int} {x : Ahead}, 0 ≤ n → x.follower.owed = 0 →
      Covered a.follower.owed (n, x) := by
    intro n x hn hx
    show x.follower.owed ≤ n + a.follower.owed
    omega
  unfold merged
  refine covered_ite (hfree (by split <;> decide) rfl) (covered_ite ?_ ?_)
  · exact covered_ite (hfree le_rfl rfl) (covered_ite (hfree le_rfl rfl) (hfree (by decide) rfl))
  · refine covered_ite (covered_select a .emoji) (covered_ite (covered_select a .text) ?_)
    refine covered_ite (hfree (by decide) rfl) ?_
    cases hmerge : a.follower.merge? c with
    | none => exact covered_alone c howed
    | some r => exact covered_merge? a.follower c r hmerge

theorem measure_cons (c : Char) (cs : List Char) : measure (c :: cs) =
    ((merged c (measure cs).2).1 + (measure cs).1, (merged c (measure cs).2).2) :=
  rfl

theorem covered_measure (cs : List Char) : Covered 0 (measure cs) := by
  induction cs with
  | nil => exact le_rfl
  | cons c cs ih =>
    have hstep := covered_merged c (measure cs).2
    unfold Covered at *
    simp only [measure_cons]
    omega

theorem measure_nonneg (cs : List Char) : 0 ≤ (measure cs).1 := by
  have hcovered := covered_measure cs
  have howed := (measure cs).2.follower.owed_nonneg
  unfold Covered at hcovered
  omega

theorem measure_append_blank (a b : List Char) : measure (a ++ ' ' :: b) =
    ((measure a).1 + 1 + (measure b).1, (measure a).2) := by
  have hblank : ∀ x, merged ' ' x = (1, .plain) := by
    intro x
    have hemoji : (CharSet.emoji.has ' ' || CharSet.emojiText.has ' ') = false := by decide
    rw [merged, hemoji, Bool.and_false, if_neg (by decide), if_pos (by decide), if_neg (by decide),
      if_neg (by simp)]
  induction a with
  | nil =>
    rw [List.nil_append, measure_cons, hblank]
    simp [measure]
  | cons c a ih =>
    rw [List.cons_append, measure_cons, measure_cons, ih]
    simp only [Prod.mk.injEq, and_true]
    omega

/-- A width in which a blank takes up one column between two texts. -/
def IsWidth (cols : List Char → Nat) : Prop :=
  ∀ a b, cols (a ++ ' ' :: b) = cols a + 1 + cols b

theorem isWidth_columns : IsWidth columns := by
  intro a b
  have ha := measure_nonneg a
  have hb := measure_nonneg b
  rw [columns, columns, columns, measure_append_blank]
  omega

end Columns

section Lines

variable {cols : List Char → Nat} {width : Nat} {us ws ls : List (List Char)} {l l' w : List Char}

structure IsLine (cols : List Char → Nat) (width : Nat) (l : List Char) : Prop where
  worded : words l ≠ []
  spaced : join ' ' (words l) = l
  fits : cols l ≤ width ∨ words l = [l]

def Breaks (cols : List Char → Nat) (width : Nat) (l l' : List Char) : Prop :=
  ∃ w, (words l').head? = some w ∧ width < cols (l ++ ' ' :: w)

theorem IsWord.isLine (hw : IsWord w) : IsLine cols width w where
  worded := by simp [hw.words_eq]
  spaced := by rw [hw.words_eq, join]
  fits := .inr hw.words_eq

theorem IsWord.words_append (hw : IsWord w) (l : List Char) :
    words (l ++ ' ' :: w) = words l ++ [w] := by
  rw [words_append_blank (by decide), hw.words_eq]

theorem IsLine.append (hl : IsLine cols width l) (hw : IsWord w)
    (hfit : cols (l ++ ' ' :: w) ≤ width) : IsLine cols width (l ++ ' ' :: w) where
  worded := by simp [hw.words_append]
  spaced := by
    rw [hw.words_append, join_append ' ' hl.worded (List.cons_ne_nil w []), hl.spaced]
    rfl
  fits := .inl hfit

theorem Breaks.append (h : Breaks cols width l l') (hw : IsWord w) :
    Breaks cols width l (l' ++ ' ' :: w) := by
  obtain ⟨v, hv, hlong⟩ := h
  refine ⟨v, ?_, hlong⟩
  rw [hw.words_append, List.head?_append, hv]
  rfl

theorem breaks_word (hw : IsWord w) (hlong : width < cols (l ++ ' ' :: w)) :
    Breaks cols width l w :=
  ⟨w, by simp [hw.words_eq], hlong⟩

/-- Lines, newest first, that have been filled with the words `us`. -/
structure Filled (cols : List Char → Nat) (width : Nat) (us ls : List (List Char)) : Prop where
  words : ls.reverse.flatMap words = us
  lines : ∀ l ∈ ls, IsLine cols width l
  greedy : ls.IsChain fun l' l => Breaks cols width l l'

def put (cols : List Char → Nat) (width : Nat) (ls : List (List Char)) (w : List Char) :
    List (List Char) :=
  match ls with
  | [] => [w]
  | l :: ls => if cols l + 1 + cols w ≤ width then (l ++ ' ' :: w) :: ls else w :: l :: ls

theorem fill_eq_foldl (ws ls : List (List Char)) :
    fill cols width ws ls = (ws.foldl (put cols width) ls).reverse := by
  induction ws generalizing ls with
  | nil => rfl
  | cons w ws ih =>
    rw [List.foldl_cons, ← ih]
    cases ls with
    | nil => rfl
    | cons l ls =>
      rw [fill, put]
      split <;> rfl

theorem Filled.put (h : Filled cols width us ls) (hcols : IsWidth cols) (hw : IsWord w) :
    Filled cols width (us ++ [w]) (put cols width ls w) := by
  obtain ⟨hus, hlines, hgreedy⟩ := h
  cases ls with
  | nil =>
    obtain rfl : us = [] := by simpa using hus.symm
    exact ⟨by simp [Text.put, hw.words_eq], by simpa [Text.put] using hw.isLine, by simp [Text.put]⟩
  | cons l ls =>
    obtain ⟨hl, hls⟩ := List.forall_mem_cons.1 hlines
    obtain ⟨hhead, htail⟩ := List.isChain_cons.1 hgreedy
    rw [List.reverse_cons, List.flatMap_append, List.flatMap_singleton] at hus
    rw [Text.put, ← hcols]
    split
    · rename_i hfit
      -- the newest line keeps its first word, so the line before it is as full as it was
      refine ⟨?_, List.forall_mem_cons.2 ⟨hl.append hw hfit, hls⟩, ?_⟩
      · rw [List.reverse_cons, List.flatMap_append, List.flatMap_singleton, hw.words_append,
          ← List.append_assoc, hus]
      · exact List.isChain_cons.2 ⟨fun x hx => (hhead x hx).append hw, htail⟩
    · rename_i hfit
      refine ⟨?_, List.forall_mem_cons.2 ⟨hw.isLine, hlines⟩, ?_⟩
      · rw [List.reverse_cons, List.reverse_cons, List.flatMap_append, List.flatMap_append,
          List.flatMap_singleton, List.flatMap_singleton, hus, hw.words_eq]
      · refine List.isChain_cons.2 ⟨?_, hgreedy⟩
        simpa using breaks_word hw (Nat.lt_of_not_le hfit)

theorem Filled.foldl (h : Filled cols width us ls) (hcols : IsWidth cols)
    (hws : ∀ w ∈ ws, IsWord w) :
    Filled cols width (us ++ ws) (ws.foldl (Text.put cols width) ls) := by
  induction ws generalizing us ls with
  | nil => simpa using h
  | cons w ws ih =>
    obtain ⟨hw, hws⟩ := List.forall_mem_cons.1 hws
    simpa using ih (h.put hcols hw) hws

theorem filled_fill (hcols : IsWidth cols) (width : Nat) (hws : ∀ w ∈ ws, IsWord w) :
    Filled cols width ws (fill cols width ws []).reverse := by
  have hstart : Filled cols width [] [] := ⟨rfl, by simp, by simp⟩
  rw [fill_eq_foldl, List.reverse_reverse]
  simpa using hstart.foldl hcols hws

end Lines

structure Wrapped (cols : List Char → Nat) (width : Nat) (s : String) (ls : List String) :
    Prop where
  words : ls.flatMap (fun l => words l.toList) = words s.toList
  fits : ∀ l ∈ ls, cols l.toList ≤ width ∨ Text.words l.toList = [l.toList] ∨
    Text.words s.toList = []
  greedy : ls.IsChain fun l l' => Breaks cols width l.toList l'.toList
  spaced : width < cols s.toList → ∀ l ∈ ls, join ' ' (Text.words l.toList) = l.toList
  worded : Text.words s.toList ≠ [] → ∀ l ∈ ls, Text.words l.toList ≠ []

theorem wrapped_wrapBy {cols : List Char → Nat} (hcols : IsWidth cols) {width : Nat}
    (hwidth : 0 < width) (s : String) : Wrapped cols width s (wrapBy cols width s) := by
  unfold wrapBy
  split
  · rename_i hfits
    have hle : cols s.toList ≤ width := by omega
    exact ⟨by simp, by simp [hle], by simp, fun hlt => absurd hlt (by omega), by simp⟩
  · obtain ⟨hkept, hlines, hgreedy⟩ :=
      filled_fill hcols width fun w (hw : w ∈ Text.words s.toList) => isWord_of_mem_words hw
    rw [List.reverse_reverse] at hkept
    rw [List.isChain_reverse] at hgreedy
    simp only [List.mem_reverse] at hlines
    split
    · rename_i hnone
      have hblank : Text.words s.toList = [] := by simpa [hnone] using hkept.symm
      exact ⟨by simp [hblank, Text.words], by simp [hblank], by simp, by simp [Text.words, join],
        fun hne => absurd hblank hne⟩
    · refine ⟨?_, ?_, ?_, ?_, ?_⟩
      · rw [List.flatMap_map]
        simpa only [String.toList_ofList] using hkept
      · exact List.forall_mem_map.2 fun l hl => by simpa using (hlines l hl).fits.imp_right .inl
      · simpa [List.isChain_map] using hgreedy
      · exact fun _ => List.forall_mem_map.2 fun l hl => by simpa using (hlines l hl).spaced
      · exact fun _ => List.forall_mem_map.2 fun l hl => by simpa using (hlines l hl).worded

theorem wrapped_wrap :
    (∀ width s, 0 < width → Wrapped columns width s (wrap width s)) ∧
    ∀ cols, IsWidth cols → ∀ width s, 0 < width → Wrapped cols width s (wrapBy cols width s) :=
  ⟨fun _ s hwidth => wrapped_wrapBy isWidth_columns hwidth s,
    fun _ hcols _ s hwidth => wrapped_wrapBy hcols hwidth s⟩

theorem wrapped_wrap_wide : 0 < 5 ∧ IsWidth columns ∧
    wrap 5 " a b verylongword 日本\tc" = ["a b", "verylongword", "日本", "c"] ∧
    Wrapped columns 5 " a b verylongword 日本\tc" ["a b", "verylongword", "日本", "c"] := by
  have hwrap : wrapBy columns 5 " a b verylongword 日本\tc" =
      ["a b", "verylongword", "日本", "c"] := by
    decide +kernel
  exact ⟨by decide, isWidth_columns, hwrap,
    hwrap ▸ wrapped_wrap.2 columns isWidth_columns 5 _ (by decide)⟩

end Statechart.Text
