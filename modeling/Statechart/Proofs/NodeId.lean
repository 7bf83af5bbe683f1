import Mathlib
import Statechart.State

namespace Statechart

namespace Text

theorem split_eq_splitOn (d : Char) (cs : List Char) : split d cs = cs.splitOn d := by
  induction cs with
  | nil => rfl
  | cons c cs ih => simp only [split, List.splitOn_cons_eq_if_modifyHead, ih, beq_iff_eq]

theorem split_append_cons (d : Char) (a b : List Char) :
    split d (a ++ d :: b) = split d a ++ split d b := by
  simp only [split_eq_splitOn, List.splitOn_append_cons_self]

theorem split_of_notMem {d : Char} {a : List Char} (h : d ∉ a) : split d a = [a] :=
  (split_eq_splitOn d a).trans (List.splitOn_eq_singleton h)

theorem join_append (d : Char) {ps qs : List (List Char)} (hp : ps ≠ []) (hq : qs ≠ []) :
    join d (ps ++ qs) = join d ps ++ d :: join d qs := by
  obtain ⟨q, qs, rfl⟩ := List.exists_cons_of_ne_nil hq
  induction ps with
  | nil => exact absurd rfl hp
  | cons p ps ih =>
    cases ps with
    | nil => rfl
    | cons p' ps => simpa [join] using ih (by simp)

end Text

def IsSegment (name : String) : Prop :=
  NodeId.separator ∉ name.toList

namespace NodeId

theorem segments_child_none {name : String} (h : IsSegment name) :
    (child none name).segments = [name] := by
  simp [segments, child, Text.split_of_notMem h]

theorem segments_child_some {name : String} (a : NodeId) (h : IsSegment name) :
    (child (some a) name).segments = a.segments ++ [name] := by
  rw [segments, toList_path_child_some, Text.split_append_cons, Text.split_of_notMem h]
  simp [segments]

theorem segments_injective {a b : NodeId} (h : a.segments = b.segments) : a = b := by
  have hs : Text.split separator a.path.toList = Text.split separator b.path.toList :=
    List.map_injective_iff.2 (fun _ _ he => String.ofList_injective he) h
  have hj := congrArg (Text.join separator) hs
  rw [Text.join_split, Text.join_split, String.toList_inj] at hj
  cases a
  cases b
  simpa using hj

def segmentsOf? : Option NodeId → List String
  | none => []
  | some a => a.segments

theorem segments_child {name : String} (a : Option NodeId) (h : IsSegment name) :
    (child a name).segments = segmentsOf? a ++ [name] := by
  cases a with
  | none => exact segments_child_none h
  | some a => exact segments_child_some a h

theorem segmentsOf?_injective {a b : Option NodeId} (h : segmentsOf? a = segmentsOf? b) :
    a = b := by
  cases a with
  | none =>
    cases b with
    | none => rfl
    | some b => exact absurd h.symm (segments_ne_nil b)
  | some a =>
    cases b with
    | none => exact absurd h (segments_ne_nil a)
    | some b => rw [segments_injective h]

theorem child_inj {a b : Option NodeId} {m n : String} (hm : IsSegment m) (hn : IsSegment n) :
    child a m = child b n ↔ a = b ∧ m = n := by
  constructor
  · intro h
    have hs := congrArg segments h
    rw [segments_child a hm, segments_child b hn] at hs
    obtain ⟨hp, he⟩ := List.append_inj' hs rfl
    exact ⟨segmentsOf?_injective hp, by simpa using he⟩
  · rintro ⟨rfl, rfl⟩
    rfl

theorem inside_iff_segments {a b : NodeId} :
    a.inside b ↔ ∃ names, names ≠ [] ∧ a.segments = b.segments ++ names := by
  rw [inside, List.isPrefixOf_iff_prefix]
  constructor
  · rintro ⟨rest, hrest⟩
    refine ⟨(Text.split separator rest).map String.ofList, by simp [Text.split_ne_nil], ?_⟩
    rw [segments, ← hrest, List.append_assoc, List.singleton_append, Text.split_append_cons,
      List.map_append]
    rfl
  · rintro ⟨names, hne, hnames⟩
    have hsplit : Text.split separator a.path.toList =
        Text.split separator b.path.toList ++ names.map String.toList := by
      simpa [segments] using congrArg (List.map String.toList) hnames
    have hpath : a.path.toList =
        b.path.toList ++ separator :: Text.join separator (names.map String.toList) := by
      rw [← Text.join_split separator a.path.toList, hsplit,
        Text.join_append _ (Text.split_ne_nil _ _) (by simpa using hne), Text.join_split]
    exact ⟨Text.join separator (names.map String.toList), by simp [hpath]⟩

theorem inside_child_some {a b : NodeId} {name : String} (h : IsSegment name) :
    (child (some a) name).inside b ↔ a = b ∨ a.inside b := by
  rw [inside_iff_segments, inside_iff_segments, segments_child_some a h]
  constructor
  · rintro ⟨names, hne, hnames⟩
    obtain ⟨init, last, rfl⟩ := (List.eq_nil_or_concat' names).resolve_left hne
    rw [← List.append_assoc] at hnames
    have hinit := (List.append_inj' hnames rfl).1
    by_cases hnil : init = []
    · exact .inl (segments_injective (by rw [hinit, hnil, List.append_nil]))
    · exact .inr ⟨init, hnil, hinit⟩
  · rintro (rfl | ⟨names, hne, hnames⟩)
    · exact ⟨[name], by simp, rfl⟩
    · exact ⟨names ++ [name], by simp, by rw [hnames, List.append_assoc]⟩

theorem not_inside_child_none {a : NodeId} {name : String} (h : IsSegment name) :
    ¬(child none name).inside a := by
  rw [inside_iff_segments, segments_child_none h]
  rintro ⟨names, hne, hnames⟩
  have hlen := congrArg List.length hnames
  have ha := List.length_pos_of_ne_nil (segments_ne_nil a)
  have hn := List.length_pos_of_ne_nil hne
  rw [List.length_append, List.length_singleton] at hlen
  omega

end NodeId

theorem notMem_regionName {c : Char} (hword : c ∉ "region".toList) (hdigit : c.isDigit = false)
    (k : Nat) : c ∉ (regionName k).toList := by
  rw [regionName, String.toList_append, List.mem_append, not_or]
  refine ⟨hword, fun h => ?_⟩
  have hd : c.isDigit :=
    Nat.isDigit_of_mem_toDigits (b := 10) (by decide) (by decide) (by simpa [Nat.repr] using h)
  exact absurd (hdigit.symm.trans hd) (by decide)

theorem isSegment_regionName (k : Nat) : IsSegment (regionName k) :=
  notMem_regionName (by decide) (by decide) k

theorem regionName_inj {j k : Nat} : regionName j = regionName k ↔ j = k := by
  refine ⟨fun h => ?_, congrArg regionName⟩
  have hr : (j + 1).repr = (k + 1).repr := by simpa [regionName] using h
  exact Nat.succ.inj (Nat.repr_injective hr)

theorem regionId_inj {a b : NodeId} {j k : Nat} : regionId a j = regionId b k ↔ a = b ∧ j = k := by
  rw [regionId, regionId, NodeId.child_inj (isSegment_regionName j) (isSegment_regionName k),
    Option.some_inj, regionName_inj]

end Statechart
