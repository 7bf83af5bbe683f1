import Mathlib
import Statechart.Proofs.Grammar
import Statechart.Proofs.Misses

namespace Statechart

namespace Furthest

theorem length_foldl_le {f : Furthest} {ms : List Miss} :
    (ms.foldl add f).rest.length ≤ f.rest.length ∧
      ∀ m ∈ ms, (ms.foldl add f).rest.length ≤ m.rest.length := by
  induction ms generalizing f with
  | nil => simp
  | cons m ms ih =>
    obtain ⟨hadd, hms⟩ := ih (f := f.add m)
    have hstep : (f.add m).rest.length ≤ f.rest.length ∧ (f.add m).rest.length ≤ m.rest.length := by
      unfold add
      split
      · exact ⟨Nat.le_of_lt ‹_›, le_rfl⟩
      · have hle : f.rest.length ≤ m.rest.length := Nat.not_lt.1 ‹_›
        split <;> exact ⟨le_rfl, hle⟩
    exact ⟨hadd.trans hstep.1, List.forall_mem_cons.2 ⟨hadd.trans hstep.2, hms⟩⟩

theorem length_of?_le {f : Furthest} {ms : List Miss} (h : of? ms = some f) :
    ∀ m ∈ ms, f.rest.length ≤ m.rest.length := by
  cases ms with
  | nil => cases h
  | cons m ms =>
    cases h
    exact List.forall_mem_cons.2 length_foldl_le

end Furthest

namespace Statement

open Reader

variable {cs u v : List Char} {f : Furthest} {k : Form} {s : Statement}

def Viable (cs : List Char) : Prop :=
  ∃ more line s, parse (String.ofList (cs ++ more)) line = .ok s

theorem viable_iff : Viable cs ↔ ∃ more k s, Written k s (cs ++ more) := by
  simp only [Viable, parse_ok_iff, read_ok_iff, String.toList_ofList]
  constructor
  · rintro ⟨more, _, s, k, h⟩
    exact ⟨more, k, s, h⟩
  · rintro ⟨more, k, s, h⟩
    exact ⟨more, 0, s, k, h⟩

theorem not_viable_iff : ¬ Viable cs ↔ ∀ more, Fails form (cs ++ more) := by
  rw [viable_iff, not_exists]
  refine forall_congr' fun more => ?_
  rcases reads_or_fails form (cs ++ more) with ⟨s, rest, h⟩ | h
  · obtain ⟨rfl, hk⟩ := reads_form_iff.1 h
    obtain ⟨k, hk⟩ := hk
    have hnot : ¬ Fails form (cs ++ more) := by
      intro hf
      cases hf.symm.trans h
    simp only [hnot, iff_false, not_not]
    exact ⟨k, s, hk⟩
  · refine iff_of_true ?_ h
    rintro ⟨k, s, hk⟩
    cases h.symm.trans (reads_form_iff.2 ⟨rfl, k, hk⟩)

theorem Viable.of_prefix (h : Viable v) (hu : u <+: v) : Viable u := by
  obtain ⟨w, rfl⟩ := hu
  obtain ⟨more, line, s, h⟩ := h
  exact ⟨w ++ more, line, s, List.append_assoc u w more ▸ h⟩

theorem told_form (h : Fails form cs) : (form cs).misses ≠ [] := by
  have hstate := (honest_stateForm.told cs (fails_oneOf.1 h stateForm List.mem_cons_self))
  rw [form, misses_oneOf h, List.flatMap_cons]
  exact List.append_ne_nil_of_left_ne_nil hstate _

theorem fails_form_change {c : Char} (h : Fails form (u ++ c :: v))
    (hm : ∀ m ∈ (form (u ++ c :: v)).misses, c :: v <:+ m.rest) (v' : List Char) :
    Fails form (u ++ c :: v') := by
  refine fails_oneOf.2 fun p hp => (honest_forms p hp).fails u c v (fails_oneOf.1 h p hp) ?_ v'
  intro m hmem
  refine hm m ?_
  rw [form, misses_oneOf h]
  exact List.mem_flatMap.2 ⟨p, hp, hmem⟩

theorem furthest_of_read (h : read cs = .error f) :
    Fails form cs ∧ Furthest.of? (form cs).misses = some f := by
  unfold read at h
  split at h
  · cases h
  · rename_i ms hform
    have hfails : Fails form cs := by rw [Fails, hform]
    have htold := told_form hfails
    rw [hform] at htold ⊢
    obtain ⟨m, ms, rfl⟩ := List.exists_cons_of_ne_nil htold
    cases h
    exact ⟨hfails, rfl⟩

theorem viable_of_miss (h : Fails form cs) {m : Miss} (hm : m ∈ (form cs).misses) :
    ∃ u, cs = u ++ m.rest ∧ Viable u := by
  rw [form_eq, misses_oneOf (form_eq ▸ h), List.flatMap_map] at hm
  obtain ⟨k, -, hm⟩ := List.mem_flatMap.1 hm
  obtain ⟨u, more, s, hcs, hk⟩ := (spells_reader k).misses cs m hm
  exact ⟨u, hcs, viable_iff.2 ⟨more, k, s, hk⟩⟩

theorem viable_of_read (h : read cs = .error f) : ∃ u, cs = u ++ f.rest ∧ Viable u ∧
    ∀ c v, f.rest = c :: v → ¬ Viable (u ++ [c]) := by
  obtain ⟨hfails, hf⟩ := furthest_of_read h
  obtain ⟨u, rfl, hu⟩ : ∃ u, cs = u ++ f.rest ∧ Viable u :=
    Furthest.rest_of? (P := fun rest => ∃ u, cs = u ++ rest ∧ Viable u) hf
      fun m hm => viable_of_miss hfails hm
  refine ⟨u, rfl, hu, fun c v hrest => not_viable_iff.2 fun more => ?_⟩
  have hbehind : ∀ m ∈ (form (u ++ f.rest)).misses, f.rest <:+ m.rest := fun m hm =>
    List.suffix_of_suffix_length_le (List.suffix_append u f.rest) (forward_form.misses _ m hm)
      (Furthest.length_of?_le hf m hm)
  rw [hrest] at hfails hbehind
  rw [List.append_assoc]
  exact fails_form_change hfails hbehind more

theorem viable_of_parse {text : String} {line : Nat} {e : Fault} (h : parse text line = .error e) :
    ∃ u rest expected, text.toList = u ++ rest ∧
      e = .structural (.unsupported rest.head? expected) line
        ((String.ofList u).utf8ByteSize + 1) text ∧
      Viable u ∧ (∀ v, v <+: text.toList → Viable v → v <+: u) ∧
      (∀ c v, rest = c :: v → ¬ Viable (u ++ [c])) ∧ (rest = [] ↔ Viable text.toList) := by
  unfold parse at h
  split at h
  · cases h
  rename_i f hread
  cases h
  obtain ⟨u, htext, hu, hnot⟩ := viable_of_read hread
  have hlongest : ∀ v, v <+: text.toList → Viable v → v <+: u := by
    intro v hv hviable
    rcases List.prefix_or_prefix_of_prefix hv (htext ▸ List.prefix_append u f.rest) with hvu | huv
    · exact hvu
    obtain ⟨w, rfl⟩ := huv
    cases w with
    | nil => simp
    | cons c w =>
      rw [htext] at hv
      obtain ⟨tail, hrest⟩ := (List.prefix_append_right_inj u).1 hv
      refine absurd (hviable.of_prefix ?_) (hnot c (w ++ tail) hrest.symm)
      exact (List.prefix_append_right_inj u).2 ⟨w, rfl⟩
  refine ⟨u, f.rest, f.expected, htext, ?_, hu, hlongest, hnot, fun hrest => ?_, fun hviable => ?_⟩
  · rw [htext, column_append]
    rfl
  · rw [htext, hrest, List.append_nil]
    exact hu
  · have hle := (hlongest _ List.prefix_rfl hviable).length_le
    rw [htext, List.length_append] at hle
    exact List.length_eq_zero_iff.1 (by omega)

theorem viable_of_parse_broken_arrow :
    parse "A -> B" 1 =
      .error (.structural (.unsupported (some '>') [.char '-']) 1 4 "A -> B") ∧
    Viable "A -".toList ∧ ¬ Viable "A ->".toList := by
  have herror : parse "A -> B" 1 =
      .error (.structural (.unsupported (some '>') [.char '-']) 1 4 "A -> B") := by
    decide +kernel
  obtain ⟨u, rest, expected, htext, he, hu, -, hnot, -⟩ := viable_of_parse herror
  obtain ⟨tail, rfl⟩ : ∃ tail, rest = '>' :: tail := by
    injection he with hcause
    injection hcause with hfound
    exact List.head?_eq_some_iff.1 hfound.symm
  have hsplit : ['A', ' ', '-', '>', ' ', 'B'] = u ++ '>' :: tail := htext
  obtain ⟨rfl, -⟩ : u = ['A', ' ', '-'] ∧ tail = [' ', 'B'] := by
    simpa [List.cons_eq_append_iff] using hsplit
  exact ⟨herror, hu, hnot '>' tail rfl⟩

end Statement

end Statechart
