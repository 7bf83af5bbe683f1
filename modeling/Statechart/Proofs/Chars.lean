import Mathlib
import Statechart.Text.Blank
import Statechart.Text.Search

namespace Statechart

namespace CharSet

def members : List Nat → List Nat
  | a :: b :: bs => List.range' a (b - a) ++ members bs
  | _ => []

theorem mem_members {n : Nat} :
    ∀ {bs : List Nat}, Even bs.length → inside n bs → n ∈ members bs
  | [], _, h => by cases h
  | [_], heven, _ => absurd heven Nat.not_even_one
  | a :: b :: bs, heven, h => by
    have heven : Even bs.length := by simpa [Nat.even_add_one, parity_simps] using heven
    rw [members, List.mem_append]
    by_cases ha : n < a
    · rw [inside_of_lt _ ha] at h
      cases h
    · by_cases hb : n < b
      · exact .inl (List.mem_range'_1.2 (by omega))
      · rw [inside_of_le _ (not_lt.1 ha), inside_of_le _ (not_lt.1 hb), Bool.not_not] at h
        exact .inr (mem_members heven h)

end CharSet

namespace Text

variable {c : Char}

theorem mem_of_isBlank (h : isBlank c) : c.toNat ∈ CharSet.members CharSet.blank.bounds :=
  CharSet.mem_members (by decide) h

theorem isWordChar_of_isBlank (h : isBlank c) : isWordChar c = false := by
  have hall : ∀ n ∈ CharSet.members CharSet.blank.bounds,
      (CharSet.inside n CharSet.alphabetic.bounds || CharSet.inside n CharSet.mark.bounds ||
        CharSet.inside n CharSet.decimalDigit.bounds || CharSet.inside n CharSet.connector.bounds ||
        CharSet.inside n CharSet.joinControl.bounds) = false := by
    decide +kernel
  exact hall _ (mem_of_isBlank h)

theorem isNameChar_of_isBlank (h : isBlank c) : isNameChar c = false := by
  have hall : ∀ n ∈ CharSet.members CharSet.blank.bounds, n ≠ '_'.toNat ∧
      (CharSet.inside n CharSet.alphabetic.bounds || CharSet.inside n CharSet.decimalDigit.bounds ||
        CharSet.inside n CharSet.otherNumber.bounds) = false := by
    decide +kernel
  obtain ⟨hne, hsets⟩ := hall _ (mem_of_isBlank h)
  have hunderscore : c ≠ '_' := fun hc => hne (congrArg Char.toNat hc)
  rw [isNameChar, decide_eq_false hunderscore, Bool.false_or]
  exact hsets

theorem isBlank_of_isNameChar (h : isNameChar c) : isBlank c = false := by
  by_contra hb
  exact Bool.false_ne_true ((isNameChar_of_isBlank (Bool.not_eq_false _ ▸ hb)).symm.trans h)

theorem eq_of_toLower {w : Char} (h : c.toLower = w) : c = w ∨ c.toNat + 32 = w.toNat := by
  unfold Char.toLower at h
  split at h
  · rename_i hrange
    subst h
    have hle : c.val.toNat ≤ 90 := UInt32.le_iff_toNat_le.1 hrange.2
    have hadd : (c.val + ('a'.val - 'A'.val)).toNat = (c.val.toNat + 32) % 2 ^ 32 :=
      UInt32.toNat_add _ _
    simp only [Char.toNat]
    omega
  · exact .inl h

theorem isWordChar_of_alike {w : Char} (hw : w = 'h' ∨ w = 'y') (h : Pattern.alike w c) :
    isWordChar c := by
  have hlower : c.toLower = w := by
    rcases hw with rfl | rfl <;> simpa [Pattern.alike] using h
  have hcode : c.toNat ∈ [w.toNat, w.toNat - 32] := by
    rcases eq_of_toLower hlower with rfl | hcode
    · simp
    · simp only [List.mem_cons, List.not_mem_nil, or_false]
      omega
  have hall : ∀ n ∈ ['h'.toNat, 'h'.toNat - 32, 'y'.toNat, 'y'.toNat - 32],
      CharSet.inside n CharSet.alphabetic.bounds := by
    decide +kernel
  have hletter : CharSet.alphabetic.has c := by
    refine hall _ ?_
    simp only [List.mem_cons, List.not_mem_nil, or_false] at hcode ⊢
    rcases hw with rfl | rfl <;> tauto
  simp [isWordChar, hletter]

end Text

end Statechart
