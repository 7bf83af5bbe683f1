import Mathlib
import Statechart.Proofs.NodeId
import Statechart.Text.Blank

namespace Statechart

def OneLine (s : String) : Prop :=
  '\n' ∉ s.toList

instance (s : String) : Decidable (OneLine s) :=
  inferInstanceAs (Decidable ('\n' ∉ s.toList))

@[simp] theorem oneLine_append {s t : String} : OneLine (s ++ t) ↔ OneLine s ∧ OneLine t := by
  simp [OneLine]

namespace Text

section Pieces

variable {d : Char} {a b p : List Char}

theorem pieces_induction (d : Char) {P : List Char → Prop} (last : ∀ cs, d ∉ cs → P cs)
    (cut : ∀ a b, d ∉ a → P b → P (a ++ d :: b)) (cs : List Char) : P cs := by
  induction hn : cs.length using Nat.strong_induction_on generalizing cs with
  | _ n ih =>
    by_cases hd : d ∈ cs
    · obtain ⟨a, b, rfl, ha⟩ := List.eq_append_cons_of_mem hd
      exact cut a b ha (ih _ (by simp [← hn]; omega) b rfl)
    · exact last cs hd

theorem split_cut (h : d ∉ a) (b : List Char) : split d (a ++ d :: b) = a :: split d b := by
  rw [split_append_cons, split_of_notMem h, List.singleton_append]

theorem isInfix_of_mem_split {cs : List Char} (h : p ∈ split d cs) : p <:+: cs := by
  induction cs using pieces_induction d with
  | last cs hcs =>
    rw [split_of_notMem hcs] at h
    exact List.mem_singleton.1 h ▸ List.infix_refl cs
  | cut a b ha ih =>
    rw [split_cut ha] at h
    rcases List.mem_cons.1 h with rfl | h
    · exact (List.prefix_append p _).isInfix
    · exact (ih h).trans ((List.suffix_cons d b).trans (List.suffix_append a _)).isInfix

theorem notMem_of_mem_split {cs : List Char} (h : p ∈ split d cs) : d ∉ p := by
  induction cs using pieces_induction d with
  | last cs hcs =>
    rw [split_of_notMem hcs] at h
    exact List.mem_singleton.1 h ▸ hcs
  | cut a b ha ih =>
    rw [split_cut ha] at h
    rcases List.mem_cons.1 h with rfl | h
    · exact ha
    · exact ih h

theorem splitOnP_append_left {q : Char → Bool} (h : ∀ x ∈ a, q x = false) (b : List Char) :
    (a ++ b).splitOnP q = (b.splitOnP q).modifyHead (a ++ ·) := by
  induction a with
  | nil => exact (congrFun List.modifyHead_id _).symm
  | cons c a ih =>
    obtain ⟨hc, ha⟩ := List.forall_mem_cons.1 h
    rw [List.cons_append, List.splitOnP_cons_eq_if_modifyHead, hc, if_neg (by decide), ih ha,
      List.modifyHead_modifyHead]
    rfl

theorem split_append_left (h : d ∉ a) (b : List Char) :
    split d (a ++ b) = (split d b).modifyHead (a ++ ·) := by
  rw [split_eq_splitOn, split_eq_splitOn]
  exact splitOnP_append_left (fun x hx => beq_eq_false_iff_ne.2 (ne_of_mem_of_not_mem hx h)) b

theorem mem_split_append_left (h : d ∉ a) (hp : p ∈ split d (a ++ b)) :
    a <+: p ∨ p ∈ split d b := by
  obtain ⟨q, qs, hq⟩ := List.exists_cons_of_ne_nil (split_ne_nil d b)
  rw [split_append_left h, hq, List.modifyHead_cons] at hp
  rcases List.mem_cons.1 hp with rfl | hp
  · exact .inl (List.prefix_append a q)
  · exact .inr (hq ▸ List.mem_cons_of_mem q hp)

theorem mem_split_append_right (h : d ∉ b) (hp : p ∈ split d (a ++ b)) :
    b <:+ p ∨ p ∈ split d a := by
  induction a using pieces_induction d with
  | last a ha =>
    rw [split_of_notMem (by simp [ha, h])] at hp
    exact .inl (List.mem_singleton.1 hp ▸ List.suffix_append a b)
  | cut a a' ha ih =>
    rw [List.append_assoc, List.cons_append, split_cut ha] at hp
    rw [split_cut ha]
    rcases List.mem_cons.1 hp with rfl | hp
    · exact .inr List.mem_cons_self
    · exact (ih hp).imp_right (List.mem_cons_of_mem a)

theorem join_map_split_cut (f : List Char → List Char) (h : d ∉ a) (b : List Char) :
    join d ((split d (a ++ d :: b)).map f) = f a ++ d :: join d ((split d b).map f) := by
  obtain ⟨p, ps, hps⟩ := List.exists_cons_of_ne_nil (split_ne_nil d b)
  rw [split_cut h, hps]
  rfl

end Pieces

def chop (p : List Char) : List Char :=
  if p.getLast? = some '\r' then p.dropLast else p

section Lines

variable {a b l : List Char}

theorem chop_cases (p : List Char) : p = chop p ∨ p = chop p ++ ['\r'] := by
  unfold chop
  split
  · rename_i h
    exact .inr (List.dropLast_append_getLast? '\r' h).symm
  · exact .inl rfl

theorem chop_concat {c : Char} (h : c ≠ '\r') (p : List Char) : chop (p ++ [c]) = p ++ [c] := by
  simp [chop, h]

theorem chop_of_notMem {p : List Char} (h : '\r' ∉ p) : chop p = p := by
  unfold chop
  split
  · rename_i hlast
    exact absurd (List.mem_of_getLast? hlast) h
  · rfl

theorem lines_cut (h : '\n' ∉ a) (b : List Char) : lines (a ++ '\n' :: b) = chop a :: lines b := by
  induction a with
  | nil => rfl
  | cons c a ih =>
    obtain ⟨hc, ha⟩ := not_or.1 (List.mem_cons.not.1 h)
    rw [List.cons_append, lines, if_neg (Ne.symm hc)]
    cases a with
    | nil =>
      by_cases hr : c = '\r'
      · simp [hr, lines, chop]
      · simp [hr, lines, chop]
    | cons x a =>
      have hx : x ≠ '\n' := fun hx => ha (hx ▸ List.mem_cons_self)
      have hchop : chop (c :: x :: a) = c :: chop (x :: a) := by
        unfold chop
        rw [List.getLast?_cons_cons]
        split <;> rfl
      rw [if_neg (by simp [hx]), ih ha, hchop]

theorem lines_of_notMem {cs : List Char} (hne : cs ≠ []) (h : '\n' ∉ cs) : lines cs = [cs] := by
  induction cs with
  | nil => exact absurd rfl hne
  | cons c cs ih =>
    obtain ⟨hc, hcs⟩ := not_or.1 (List.mem_cons.not.1 h)
    have hend : ¬(c = '\r' ∧ cs.head? = some '\n') := fun hr => hcs (List.mem_of_head? hr.2)
    rw [lines, if_neg (Ne.symm hc), if_neg hend]
    cases cs with
    | nil => rfl
    | cons d cs => rw [ih (by simp) hcs]

theorem lines_append (a b : List Char) : lines (a ++ '\n' :: b) = lines (a ++ ['\n']) ++ lines b := by
  induction a using pieces_induction '\n' with
  | last a ha =>
    rw [lines_cut ha, lines_cut ha]
    rfl
  | cut a a' ha ih =>
    rw [List.append_assoc, List.cons_append, lines_cut ha, ih, List.append_assoc, List.cons_append,
      lines_cut ha]
    rfl

theorem lines_eq_map_split (cs : List Char) : lines (cs ++ ['\n']) = (split '\n' cs).map chop := by
  induction cs using pieces_induction '\n' with
  | last cs hcs =>
    rw [lines_cut hcs, split_of_notMem hcs]
    rfl
  | cut a b ha ih =>
    rw [List.append_assoc, List.cons_append, lines_cut ha, ih, split_cut ha]
    rfl

theorem notMem_of_mem_lines {cs : List Char} (h : l ∈ lines cs) : '\n' ∉ l := by
  induction cs using pieces_induction '\n' with
  | last cs hcs =>
    rcases eq_or_ne cs [] with rfl | hne
    · cases h
    · rw [lines_of_notMem hne hcs] at h
      exact List.mem_singleton.1 h ▸ hcs
  | cut a b ha ih =>
    rw [lines_cut ha] at h
    rcases List.mem_cons.1 h with rfl | h
    · rcases chop_cases a with heq | heq
      · rwa [← heq]
      · exact fun hc => ha (heq ▸ List.mem_append_left _ hc)
    · exact ih h

theorem oneLine_of_mem_linesOf {s line : String} (h : line ∈ linesOf s) : OneLine line := by
  obtain ⟨l, hl, rfl⟩ := List.mem_map.1 h
  rw [OneLine, String.toList_ofList]
  exact notMem_of_mem_lines hl

theorem linesOf_joined {ls : List String}
    (h : ∀ l ∈ ls, l ≠ "" ∧ '\n' ∉ l.toList ∧ '\r' ∉ l.toList) : linesOf (joined "\n" ls) = ls := by
  induction ls with
  | nil => rfl
  | cons l ls ih =>
    obtain ⟨⟨hne, hn, hr⟩, hls⟩ := List.forall_mem_cons.1 h
    cases ls with
    | nil =>
      have hl : l.toList ≠ [] := fun hl => hne (String.toList_inj.1 hl)
      rw [joined, linesOf, lines_of_notMem hl hn, List.map_singleton, String.ofList_toList]
    | cons m ls =>
      have htext : (joined "\n" (l :: m :: ls)).toList =
          l.toList ++ '\n' :: (joined "\n" (m :: ls)).toList := by
        simp [joined]
      rw [linesOf, htext, lines_cut hn, chop_of_notMem hr, List.map_cons, String.ofList_toList]
      exact congrArg (l :: ·) (ih hls)

theorem map_trimmed_linesOf {s : String} {ls : List String} (hs : s = joined "\n" ls)
    (h : ∀ l ∈ ls, l ≠ "" ∧ '\n' ∉ l.toList ∧ '\r' ∉ l.toList) (htrim : ls.map trimmed = ls) :
    (linesOf s).map trimmed = ls := by
  rw [hs, linesOf_joined h, htrim]

end Lines

section Trim

variable {cs before : List Char} {c : Char}

theorem trimEnd_concat_of_blank (cs : List Char) (h : isBlank c) :
    trimEnd (cs ++ [c]) = trimEnd cs := by
  simp [trimEnd, h]

theorem trimEnd_concat (cs : List Char) (h : isBlank c = false) : trimEnd (cs ++ [c]) = cs ++ [c] := by
  simp [trimEnd, h]

theorem trimStart_concat (cs : List Char) (h : isBlank c = false) :
    trimStart (cs ++ [c]) = trimStart cs ++ [c] := by
  unfold trimStart
  rw [List.dropWhile_append]
  split <;> simp_all

theorem trim_concat_of_blank (cs : List Char) (h : isBlank c) : trim (cs ++ [c]) = trim cs := by
  unfold trim trimStart
  rw [List.dropWhile_append]
  split
  · rename_i hnil
    rw [List.isEmpty_iff.1 hnil, List.dropWhile_cons_of_pos h]
    rfl
  · exact trimEnd_concat_of_blank _ h

theorem trim_chop (p : List Char) : trim (chop p) = trim p := by
  rcases chop_cases p with hp | hp
  · rw [← hp]
  · conv_rhs => rw [hp]
    exact (trim_concat_of_blank _ (by decide)).symm

theorem trim_concat (cs : List Char) (h : isBlank c = false) :
    trim (cs ++ [c]) = trimStart cs ++ [c] := by
  rw [trim, trimStart_concat cs h, trimEnd_concat _ h]

theorem trim_append_of_blank (hb : ∀ b ∈ before, isBlank b) (cs : List Char) :
    trim (before ++ cs) = trim cs := by
  rw [trim, trimStart, List.dropWhile_append_of_pos hb]
  rfl

theorem trim_cons (h : isBlank c = false) (cs : List Char) : ∃ rest, trim (c :: cs) = c :: rest := by
  have hstart : trimStart (c :: cs) = c :: cs := List.dropWhile_cons_of_neg (by simp [h])
  rw [trim, hstart, trimEnd, List.reverse_cons, List.dropWhile_append]
  split
  · exact ⟨[], by simp [h]⟩
  · exact ⟨_, List.reverse_append⟩

theorem trim_eq_self {a z : Char} (ha : isBlank a = false) (hz : isBlank z = false)
    (cs : List Char) : trim (a :: cs ++ [z]) = a :: cs ++ [z] := by
  rw [trim_concat _ hz, trimStart, List.dropWhile_cons_of_neg (by simp [ha])]

theorem trimEnd_append (h : isBlank c = false) (cs t : List Char) :
    trimEnd (cs ++ c :: t) = cs ++ c :: trimEnd t := by
  induction t using List.reverseRecOn with
  | nil => exact trimEnd_concat cs h
  | append_singleton t d ih =>
    have hassoc : cs ++ c :: (t ++ [d]) = cs ++ c :: t ++ [d] := by simp
    rw [hassoc]
    cases hd : isBlank d with
    | true => rw [trimEnd_concat_of_blank _ hd, trimEnd_concat_of_blank _ hd, ih]
    | false => rw [trimEnd_concat _ hd, trimEnd_concat _ hd, hassoc]

theorem trim_append (hcs : ∀ b ∈ cs.head?, isBlank b = false) (h : isBlank c = false)
    (t : List Char) : trim (cs ++ c :: t) = cs ++ c :: trimEnd t := by
  have hstart : trimStart (cs ++ c :: t) = cs ++ c :: t := by
    cases cs with
    | nil => exact List.dropWhile_cons_of_neg (by simp [h])
    | cons b cs => exact List.dropWhile_cons_of_neg (by simp [hcs b rfl])
  rw [trim, hstart, trimEnd_append h]

theorem trim_trimEnd (cs : List Char) : trim (trimEnd cs) = trim cs := by
  induction cs using List.reverseRecOn with
  | nil => rfl
  | append_singleton cs d ih =>
    cases hd : isBlank d with
    | true => rw [trimEnd_concat_of_blank _ hd, trim_concat_of_blank _ hd, ih]
    | false => rw [trimEnd_concat _ hd]

theorem exists_trimmed_end (cs : List Char) :
    ∃ after, (∀ b ∈ after, isBlank b) ∧ cs = trimEnd cs ++ after := by
  refine ⟨(cs.reverse.takeWhile isBlank).reverse, fun b hb => ?_, ?_⟩
  · exact List.mem_takeWhile_imp (List.mem_reverse.1 hb)
  · rw [trimEnd, ← List.reverse_append, List.takeWhile_append_dropWhile, List.reverse_reverse]

theorem exists_trimmed (cs : List Char) : ∃ before after, (∀ b ∈ before, isBlank b) ∧
    (∀ b ∈ after, isBlank b) ∧ cs = before ++ trim cs ++ after := by
  obtain ⟨after, hafter, hend⟩ := exists_trimmed_end (trimStart cs)
  refine ⟨cs.takeWhile isBlank, after, fun b hb => List.mem_takeWhile_imp hb, hafter, ?_⟩
  rw [List.append_assoc, trim, ← hend, trimStart, List.takeWhile_append_dropWhile]

theorem trim_isInfix (cs : List Char) : trim cs <:+: cs := by
  obtain ⟨before, after, -, -, hcs⟩ := exists_trimmed cs
  exact ⟨before, after, hcs.symm⟩

end Trim

theorem map_trim_split (cs : List Char) : (split '\n' cs).map trim = (lines cs).map trim ∨
    (split '\n' cs).map trim = (lines cs).map trim ++ [[]] := by
  induction cs using pieces_induction '\n' with
  | last cs hcs =>
    rw [split_of_notMem hcs]
    by_cases hne : cs = []
    · rw [hne]
      exact .inr rfl
    · rw [lines_of_notMem hne hcs]
      exact .inl rfl
  | cut a b ha ih =>
    rw [split_cut ha, lines_cut ha, List.map_cons, List.map_cons, trim_chop]
    exact ih.imp (congrArg _) (congrArg _)

end Text

end Statechart
