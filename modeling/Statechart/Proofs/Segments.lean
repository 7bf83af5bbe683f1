import Mathlib
import Statechart.Proofs.Lines
import Statechart.Proofs.NodeId

namespace Statechart

namespace Text

section Joined

variable {d : Char} {ps : List (List Char)}

theorem split_join (hne : ps ≠ []) (h : ∀ p ∈ ps, d ∉ p) : split d (join d ps) = ps := by
  induction ps with
  | nil => exact absurd rfl hne
  | cons p ps ih =>
    obtain ⟨hp, hps⟩ := List.forall_mem_cons.1 h
    cases ps with
    | nil => exact split_of_notMem hp
    | cons q qs => rw [join, split_cut hp, ih (List.cons_ne_nil q qs) hps]

theorem split_eq_iff {cs : List Char} :
    split d cs = ps ↔ ps ≠ [] ∧ (∀ p ∈ ps, d ∉ p) ∧ cs = join d ps := by
  constructor
  · rintro rfl
    exact ⟨split_ne_nil d cs, fun p hp => notMem_of_mem_split hp, (join_split d cs).symm⟩
  · rintro ⟨hne, hps, rfl⟩
    exact split_join hne hps

theorem toList_joined_singleton (d : Char) (ss : List String) :
    (joined (String.singleton d) ss).toList = join d (ss.map String.toList) := by
  induction ss with
  | nil => rfl
  | cons s ss ih =>
    cases ss with
    | nil => rfl
    | cons t ts => simpa [joined, join] using ih

end Joined

section Bytes

def bytes (s : String) : List UInt8 :=
  s.toByteArray.data.toList

theorem bytes_eq (s : String) : bytes s = s.toList.flatMap String.utf8EncodeChar := by
  have hs : s.toByteArray = (s.toList.flatMap String.utf8EncodeChar).toByteArray := by
    conv_lhs => rw [← String.ofList_toList (s := s)]
    exact String.toByteArray_ofList
  rw [bytes, hs, List.data_toByteArray]

theorem length_bytes (s : String) : (bytes s).length = s.utf8ByteSize := by
  simp [bytes]

theorem utf8EncodeChar_cut {c d : Char} {xs ys : List UInt8}
    (h : String.utf8EncodeChar c ++ xs = String.utf8EncodeChar d ++ ys) : c = d ∧ xs = ys := by
  have harrays := congrArg List.toByteArray h
  rw [List.toByteArray_append, List.toByteArray_append] at harrays
  have hread := congrArg (fun b : ByteArray => b.utf8DecodeChar? 0) harrays
  simp only [ByteArray.utf8DecodeChar?_utf8EncodeChar_append, Option.some_inj] at hread
  subst hread
  exact ⟨rfl, List.append_cancel_left h⟩

theorem flatMap_utf8EncodeChar_prefix_iff {cs ds : List Char} :
    cs.flatMap String.utf8EncodeChar <+: ds.flatMap String.utf8EncodeChar ↔ cs <+: ds := by
  constructor
  · induction cs generalizing ds with
    | nil => exact fun _ => List.nil_prefix
    | cons c cs ih =>
      cases ds with
      | nil => simp
      | cons d ds =>
        rintro ⟨rest, hrest⟩
        rw [List.flatMap_cons, List.flatMap_cons, List.append_assoc] at hrest
        obtain ⟨rfl, hds⟩ := utf8EncodeChar_cut hrest
        exact List.cons_prefix_cons.2 ⟨rfl, ih ⟨rest, hds⟩⟩
  · rintro ⟨rest, rfl⟩
    rw [List.flatMap_append]
    exact List.prefix_append _ _

end Bytes

end Text

namespace NodeId

variable {a b : NodeId} {p q : Option NodeId} {m n : String}

theorem inside_iff_begins : a.inside b ↔ b.segments <+: a.segments ∧ b.segments ≠ a.segments := by
  rw [inside_iff_segments]
  constructor
  · rintro ⟨names, hne, hnames⟩
    exact ⟨⟨names, hnames.symm⟩, fun he => hne (by simpa [he] using hnames)⟩
  · rintro ⟨⟨names, hnames⟩, hne⟩
    exact ⟨names, fun hnil => hne (by simpa [hnil] using hnames), hnames.symm⟩

theorem isStrictOrder_inside : IsStrictOrder NodeId fun a b => a.inside b where
  irrefl a h := (inside_iff_begins.1 h).2 rfl
  trans a b c hab hbc := by
    obtain ⟨ms, hms, ha⟩ := inside_iff_segments.1 hab
    obtain ⟨ns, -, hb⟩ := inside_iff_segments.1 hbc
    exact inside_iff_segments.2 ⟨ns ++ ms, by simp [hms], by rw [ha, hb, List.append_assoc]⟩

def BytesInside (a b : NodeId) : Prop :=
  b.path.utf8ByteSize < a.path.utf8ByteSize ∧ Text.bytes b.path <+: Text.bytes a.path ∧
    (Text.bytes a.path)[b.path.utf8ByteSize]? = some separator.toUInt8

theorem inside_iff_bytes : a.inside b ↔ BytesInside a b := by
  -- the separator is a single byte, so that a path closed by it is one in bytes too
  have hclosed : a.inside b ↔ Text.bytes b.path ++ [separator.toUInt8] <+: Text.bytes a.path := by
    rw [inside, List.isPrefixOf_iff_prefix, ← Text.flatMap_utf8EncodeChar_prefix_iff,
      List.flatMap_append, ← Text.bytes_eq, ← Text.bytes_eq]
    rfl
  rw [hclosed, BytesInside, ← Text.length_bytes, ← Text.length_bytes]
  constructor
  · rintro ⟨rest, hrest⟩
    simp [← hrest]
  · rintro ⟨-, ⟨rest, hrest⟩, hnext⟩
    rw [← hrest, List.getElem?_append_right le_rfl, Nat.sub_self, ← List.head?_eq_getElem?,
      List.head?_eq_some_iff] at hnext
    obtain ⟨after, rfl⟩ := hnext
    exact ⟨after, by simp [← hrest]⟩

theorem segments_eq_iff {names : List String} : a.segments = names ↔
    names ≠ [] ∧ (∀ n ∈ names, IsSegment n) ∧
      a.path = Text.joined (String.singleton separator) names := by
  have hpieces : a.segments = names ↔
      Text.split separator a.path.toList = names.map String.toList := by
    constructor
    · rintro rfl
      simp [segments]
    · intro h
      simp [segments, h]
  rw [hpieces, Text.split_eq_iff, ← Text.toList_joined_singleton, String.toList_inj]
  simp [IsSegment]

theorem segmentsOf?_parent? (a : NodeId) : segmentsOf? a.parent? = a.segments.dropLast := by
  rw [segments, ← List.map_dropLast, parent?]
  split
  · rename_i hnone
    rw [hnone]
    rfl
  · rename_i hne
    have hpieces : ∀ p ∈ (Text.split separator a.path.toList).dropLast, separator ∉ p :=
      fun p hp => Text.notMem_of_mem_split (List.mem_of_mem_dropLast hp)
    rw [segmentsOf?, segments, String.toList_ofList, Text.split_join hne hpieces]

theorem segments_eq_parent (a : NodeId) :
    a.segments = segmentsOf? a.parent? ++ [a.baseName] := by
  rw [segmentsOf?_parent?, baseName, List.getLast?_eq_getLast_of_ne_nil a.segments_ne_nil]
  exact (List.dropLast_append_getLast a.segments_ne_nil).symm

theorem isSegment_baseName (a : NodeId) : IsSegment a.baseName :=
  (segments_eq_iff.1 a.segments_eq_parent).2.1 _ (by simp)

theorem child_parent? (a : NodeId) : child a.parent? a.baseName = a := by
  refine segments_injective ?_
  rw [segments_child _ a.isSegment_baseName, ← segments_eq_parent]

structure Qualified (p : Option NodeId) (n : String) (a : NodeId) : Prop where
  baseName : a.baseName = n
  parent : a.parent? = p
  depth : a.depth = p.elim 0 NodeId.depth + 1
  inside : ∀ b, a.inside b ↔ ∃ q, p = some q ∧ (q = b ∨ q.inside b)

theorem qualified_child (h : IsSegment n) : Qualified p n (child p n) where
  baseName := (child_inj (child p n).isSegment_baseName h).1 (child p n).child_parent? |>.2
  parent := (child_inj (child p n).isSegment_baseName h).1 (child p n).child_parent? |>.1
  depth := by
    rw [depth, segments_child p h]
    cases p <;> simp [segmentsOf?, depth]
  inside b := by
    cases p with
    | none => simp [not_inside_child_none h]
    | some q => simp [inside_child_some h]

theorem inside_parent (a : NodeId) (n : String) : (child (some a) n).inside a := by
  rw [inside, List.isPrefixOf_iff_prefix, toList_path_child_some]
  exact ⟨n.toList, by simp⟩

theorem not_inside_sibling (h : IsSegment m) : ¬(child p m).inside (child p n) := by
  intro hin
  obtain ⟨q, rfl, hq⟩ := ((qualified_child h).inside _).1 hin
  have hparent := inside_parent q n
  rcases hq with hq | hq
  · rw [← hq] at hparent
    exact isStrictOrder_inside.irrefl q hparent
  · exact isStrictOrder_inside.irrefl q (isStrictOrder_inside.trans q _ q hq hparent)

theorem segment_laws :
    (∀ (a : NodeId) (names : List String), a.segments = names ↔
      names ≠ [] ∧ (∀ n ∈ names, IsSegment n) ∧
        a.path = Text.joined (String.singleton separator) names) ∧
    (∀ a b : NodeId, a.inside b ↔ b.segments <+: a.segments ∧ b.segments ≠ a.segments) ∧
    (∀ a b : NodeId, a.inside b ↔ BytesInside a b) ∧
    IsStrictOrder NodeId (fun a b => a.inside b) ∧
    (∀ p m n, IsSegment m → ¬(child p m).inside (child p n)) ∧
    (∀ p n, IsSegment n → Qualified p n (child p n)) ∧
    ∀ p q m n, IsSegment m → IsSegment n → (child p m = child q n ↔ p = q ∧ m = n) :=
  ⟨fun _ _ => segments_eq_iff, fun _ _ => inside_iff_begins, fun _ _ => inside_iff_bytes,
    isStrictOrder_inside, fun _ _ _ => not_inside_sibling, fun _ _ => qualified_child,
    fun _ _ _ _ => child_inj⟩

theorem segment_laws_uneven : IsSegment "" ∧ IsSegment "Online" ∧
    (⟨"Ä///"⟩ : NodeId).segments = ["Ä", "", "", ""] ∧
    Qualified (some ⟨"Ä//"⟩) "" ⟨"Ä///"⟩ ∧ BytesInside ⟨"Ä///"⟩ ⟨"Ä/"⟩ ∧
    ¬(⟨"Online"⟩ : NodeId).inside ⟨"On"⟩ ∧ child none "" ≠ child (some ⟨""⟩) "" := by
  have hempty : IsSegment "" := by simp [IsSegment]
  have honline : IsSegment "Online" := by simp [IsSegment, separator]
  obtain ⟨-, -, hbytes, -, hsibling, hchild, hunique⟩ := segment_laws
  refine ⟨hempty, honline, by decide, hchild (some ⟨"Ä//"⟩) "" hempty, (hbytes _ _).1 (by decide),
    hsibling none "Online" "On" honline, ?_⟩
  rw [ne_eq, hunique none (some ⟨""⟩) "" "" hempty hempty]
  simp

end NodeId

end Statechart
