import Mathlib
import Statechart.Dot.Quoted

namespace Statechart.Dot

def slashes (cs : List Char) : Nat :=
  (cs.reverse.takeWhile (· = '\\')).length

/-- A text that can stand between quotes: after an even run of backslashes it leaves an even one,
    and each quote in it comes after an odd one. -/
def Sheltered (cs : List Char) : Prop :=
  ∀ a, Even (slashes a) → Even (slashes (a ++ cs)) ∧
    ∀ before after, cs = before ++ '"' :: after → Odd (slashes (a ++ before))

section Sheltered

variable {a b u v inside : List Char} {c : Char}

theorem slashes_concat (cs : List Char) (c : Char) :
    slashes (cs ++ [c]) = if c = '\\' then slashes cs + 1 else 0 := by
  by_cases hc : c = '\\' <;> simp [slashes, hc]

theorem sheltered_nil : Sheltered [] := by
  intro a ha
  exact ⟨by simpa using ha, by simp⟩

theorem sheltered_singleton (hback : c ≠ '\\') (hquote : c ≠ '"') : Sheltered [c] := by
  intro a ha
  refine ⟨by simp [slashes_concat, hback], fun before after h => ?_⟩
  have hmem : '"' ∈ [c] := by simp [h]
  exact absurd (List.mem_singleton.1 hmem).symm hquote

theorem sheltered_pair (c : Char) : Sheltered ['\\', c] := by
  intro a ha
  have hone : slashes (a ++ ['\\']) = slashes a + 1 := by simp [slashes_concat]
  have htwo : a ++ ['\\', c] = (a ++ ['\\']) ++ [c] := by simp
  refine ⟨?_, fun before after h => ?_⟩
  · rw [htwo, slashes_concat, hone]
    split
    · exact ha.add_one.add_one
    · exact Even.zero
  · match before with
    | [] => simp at h
    | [x] =>
      obtain ⟨rfl, -⟩ := List.cons.inj h
      rw [hone]
      exact ha.add_one
    | x :: y :: before => simp at h

theorem cut_append {before after : List Char} (h : a ++ b = before ++ c :: after) :
    (∃ rest, a = before ++ c :: rest ∧ after = rest ++ b) ∨
      ∃ rest, before = a ++ rest ∧ b = rest ++ c :: after := by
  rcases List.append_eq_append_iff.1 h with ⟨rest, rfl, hrest⟩ | ⟨rest, rfl, hrest⟩
  · exact .inr ⟨rest, rfl, hrest⟩
  · cases rest with
    | nil => exact .inr ⟨[], by simp, hrest.symm⟩
    | cons x rest =>
      obtain ⟨rfl, hafter⟩ := List.cons.inj hrest
      exact .inl ⟨rest, rfl, hafter⟩

theorem Sheltered.append (ha : Sheltered a) (hb : Sheltered b) : Sheltered (a ++ b) := by
  intro front hfront
  obtain ⟨hmid, hleft⟩ := ha front hfront
  obtain ⟨hend, hright⟩ := hb (front ++ a) hmid
  refine ⟨by rwa [← List.append_assoc], fun before after h => ?_⟩
  rcases cut_append h with ⟨rest, hrest, -⟩ | ⟨rest, rfl, hrest⟩
  · exact hleft before rest hrest
  · rw [← List.append_assoc]
    exact hright rest after hrest

theorem escape_induction {P : List Char → Prop} (nil : P [])
    (pair : ∀ c cs, P cs → P ('\\' :: c :: cs))
    (plain : ∀ c cs, c ≠ '\\' → c ≠ '"' → P cs → P (c :: cs)) (cs : List Char) : P (escape cs) := by
  fun_induction escape cs with
  | case1 => exact nil
  | case2 c cs hc ih => exact pair c _ ih
  | case3 c cs hc ih =>
    obtain ⟨hback, hquote⟩ := not_or.1 hc
    exact plain c _ hback hquote ih

theorem sheltered_escape (cs : List Char) : Sheltered (escape cs) :=
  escape_induction sheltered_nil (fun c _ ih => (sheltered_pair c).append ih)
    (fun _ _ hback hquote ih => (sheltered_singleton hback hquote).append ih) cs

theorem Sheltered.ne_cut (ha : Sheltered a) (hb : Sheltered b) (rest : List Char) :
    a ≠ b ++ '"' :: rest := by
  rintro rfl
  have hodd := (ha [] Even.zero).2 b rest rfl
  exact Nat.not_even_iff_odd.2 hodd (hb [] Even.zero).1

theorem Sheltered.cut (ha : Sheltered a) (hb : Sheltered b) (h : a ++ '"' :: u = b ++ '"' :: v) :
    a = b ∧ u = v := by
  rcases cut_append h with ⟨rest, hrest, -⟩ | ⟨rest, rfl, hrest⟩
  · exact absurd hrest (ha.ne_cut hb rest)
  · cases rest with
    | nil => exact ⟨by simp, (List.cons.inj hrest).2⟩
    | cons x rest =>
      obtain ⟨rfl, -⟩ := List.cons.inj hrest
      exact absurd rfl (hb.ne_cut ha rest)

structure Delimited (cs inside : List Char) : Prop where
  text : cs = '"' :: inside ++ ['"']
  bare : ∀ before after, cs = before ++ '"' :: after →
    (Even (slashes before) ↔ before = [] ∨ after = [])

theorem Sheltered.delimited (h : Sheltered inside) : Delimited ('"' :: inside ++ ['"']) inside where
  text := rfl
  bare before after hcut := by
    obtain ⟨heven, hodd⟩ := h ['"'] Even.zero
    cases before with
    | nil => simp [slashes]
    | cons x before =>
      obtain ⟨rfl, hrest⟩ := List.cons.inj hcut
      rcases cut_append hrest with ⟨rest, hinside, rfl⟩ | ⟨rest, rfl, hend⟩
      · have hnot := Nat.not_even_iff_odd.2 (hodd before rest hinside)
        simpa using hnot
      · obtain ⟨rfl, rfl⟩ : rest = [] ∧ after = [] := by
          cases rest <;> simp_all
        simpa using heven

end Sheltered

def replace (c : Char) (r cs : List Char) : List Char :=
  cs.flatMap fun d => if d = c then r else [d]

/-- The backslashes are doubled first: those that are put before quotes afterwards stay single. -/
theorem escape_eq_replace (cs : List Char) :
    escape cs = replace '"' ['\\', '"'] (replace '\\' ['\\', '\\'] cs) := by
  induction cs with
  | nil => rfl
  | cons c cs ih =>
    rw [replace] at ih
    by_cases hback : c = '\\'
    · simp [escape, replace, hback, ih]
    · by_cases hquote : c = '"'
      · simp [escape, replace, hquote, ih]
      · simp [escape, replace, hback, hquote, ih]

def undo : List Char → List Char
  | '\\' :: c :: cs => c :: undo cs
  | c :: cs => c :: undo cs
  | [] => []

/-- Takes the escapes out of a label, from the left, and cuts it where an `n` is escaped. -/
def parts : List Char → List (List Char)
  | '\\' :: 'n' :: cs => [] :: parts cs
  | '\\' :: c :: cs => (parts cs).modifyHead (c :: ·)
  | c :: cs => (parts cs).modifyHead (c :: ·)
  | [] => [[]]

section Readers

variable {c : Char}

theorem undo_cons (h : c ≠ '\\') (cs : List Char) : undo (c :: cs) = c :: undo cs := by
  rw [undo]
  rintro d ds rfl
  exact absurd rfl h

theorem parts_pair (h : c ≠ 'n') (cs : List Char) :
    parts ('\\' :: c :: cs) = (parts cs).modifyHead (c :: ·) := by
  rw [parts]
  rintro rfl
  exact h rfl

theorem parts_cons (h : c ≠ '\\') (cs : List Char) :
    parts (c :: cs) = (parts cs).modifyHead (c :: ·) := by
  rw [parts]
  · rintro d rfl
    exact absurd rfl h
  · rintro d ds rfl
    exact absurd rfl h

theorem undo_escape (cs : List Char) : undo (escape cs) = cs := by
  fun_induction escape cs with
  | case1 => rfl
  | case2 c cs hc ih => rw [undo, ih]
  | case3 c cs hc ih => rw [undo_cons (not_or.1 hc).1, ih]

theorem parts_escape_append (cs rest : List Char) :
    parts (escape cs ++ rest) = (parts rest).modifyHead (cs ++ ·) := by
  fun_induction escape cs with
  | case1 => exact (congrFun List.modifyHead_id (parts rest)).symm
  | case2 c cs hc ih =>
    have hn : c ≠ 'n' := by
      rcases hc with rfl | rfl <;> decide
    rw [List.cons_append, List.cons_append, parts_pair hn, ih, List.modifyHead_modifyHead]
    rfl
  | case3 c cs hc ih =>
    rw [List.cons_append, parts_cons (not_or.1 hc).1, ih, List.modifyHead_modifyHead]
    rfl

def captions (ss : List String) : List Char :=
  (Text.joined "\\n" (ss.map escaped)).toList

theorem parts_captions {ss : List String} (hne : ss ≠ []) :
    parts (captions ss) = ss.map String.toList := by
  induction ss with
  | nil => exact absurd rfl hne
  | cons s ss ih =>
    cases ss with
    | nil =>
      have hone := parts_escape_append s.toList []
      rw [List.append_nil] at hone
      simpa [captions, Text.joined, escaped, parts] using hone
    | cons t ts =>
      have hcut : captions (s :: t :: ts) =
          escape s.toList ++ '\\' :: 'n' :: captions (t :: ts) := by
        simp [captions, Text.joined, escaped]
      rw [hcut, parts_escape_append, parts, ih (List.cons_ne_nil t ts)]
      simp

end Readers

section Quotes

variable {s t : String} {ss ts : List String} {u v : List Char}

theorem sheltered_captions (ss : List String) : Sheltered (captions ss) := by
  have happend : ∀ s t : String, Sheltered s.toList → Sheltered t.toList →
      Sheltered (s ++ t).toList := by
    intro s t hs ht
    rw [String.toList_append]
    exact hs.append ht
  have hescaped : ∀ s, Sheltered (escaped s).toList := by
    intro s
    rw [escaped, String.toList_ofList]
    exact sheltered_escape s.toList
  exact Text.joined_induction (P := fun s => Sheltered s.toList) (d := "\\n") sheltered_nil happend
    (sheltered_pair 'n') (List.forall_mem_map.2 fun s _ => hescaped s)

theorem toList_quote (s : String) : (quote s).toList = '"' :: escape s.toList ++ ['"'] := by
  simp [quote, escaped]

theorem toList_quoteLines (ss : List String) :
    (quoteLines ss).toList = '"' :: captions ss ++ ['"'] := by
  simp [quoteLines, captions]

theorem quoteLines_cut (hs : ss ≠ []) (ht : ts ≠ [])
    (h : (quoteLines ss).toList ++ u = (quoteLines ts).toList ++ v) : ss = ts ∧ u = v := by
  rw [toList_quoteLines, toList_quoteLines] at h
  simp only [List.cons_append, List.append_assoc, List.nil_append] at h
  obtain ⟨hinside, huv⟩ := (sheltered_captions ss).cut (sheltered_captions ts) (List.cons.inj h).2
  have hparts := congrArg parts hinside
  rw [parts_captions hs, parts_captions ht] at hparts
  exact ⟨List.map_injective_iff.2 (fun _ _ => String.toList_inj.1) hparts, huv⟩

theorem quote_cut (h : (quote s).toList ++ u = (quote t).toList ++ v) : s = t ∧ u = v := by
  obtain ⟨hst, huv⟩ := quoteLines_cut (List.cons_ne_nil s []) (List.cons_ne_nil t []) h
  exact ⟨(List.cons.inj hst).1, huv⟩

theorem quote_injective : Function.Injective quote := by
  intro s t h
  exact (quote_cut (congrArg (fun q : String => q.toList ++ []) h)).1

theorem quotes_delimit :
    (∀ s, Delimited (quote s).toList (escape s.toList) ∧ undo (escape s.toList) = s.toList ∧
      escape s.toList = replace '"' ['\\', '"'] (replace '\\' ['\\', '\\'] s.toList)) ∧
    (∀ x y, quote x = quote y ↔ x = y) ∧
    (∀ x y u v, quote x ++ u = quote y ++ v ↔ x = y ∧ u = v) ∧
    (∀ name lines, ∃ inside, Delimited (quoteLines (name :: lines)).toList inside ∧
      (parts inside).map String.ofList = name :: lines) ∧
    ∀ x xs y ys u v, quoteLines (x :: xs) ++ u = quoteLines (y :: ys) ++ v ↔
      (x = y ∧ xs = ys) ∧ u = v := by
  refine ⟨fun s => ⟨?_, undo_escape _, escape_eq_replace _⟩, fun x y => quote_injective.eq_iff,
    fun x y u v => ⟨fun h => ?_, ?_⟩, fun name lines => ⟨captions (name :: lines), ?_, ?_⟩,
    fun x xs y ys u v => ⟨fun h => ?_, ?_⟩⟩
  · rw [toList_quote]
    exact (sheltered_escape s.toList).delimited
  · obtain ⟨hxy, huv⟩ := quote_cut (by simpa using congrArg String.toList h)
    exact ⟨hxy, String.toList_inj.1 huv⟩
  · rintro ⟨rfl, rfl⟩
    rfl
  · rw [toList_quoteLines]
    exact (sheltered_captions _).delimited
  · rw [parts_captions (List.cons_ne_nil name lines), List.map_map]
    simp
  · obtain ⟨hxy, huv⟩ := quoteLines_cut (List.cons_ne_nil x xs) (List.cons_ne_nil y ys)
      (by simpa using congrArg String.toList h)
    exact ⟨List.cons.inj hxy, String.toList_inj.1 huv⟩
  · rintro ⟨⟨rfl, rfl⟩, rfl⟩
    rfl

end Quotes

end Statechart.Dot
