import Mathlib
import Statechart.Outline
import Statechart.Proofs.Config
import Statechart.Proofs.Lines
import Statechart.Proofs.Starts

namespace Statechart

section Paired

variable {α β : Type} {p : α → Bool} {q : β → Bool} {as : List α} {bs : List β}

theorem countP_of_forall₂ (h : List.Forall₂ (fun a b => q b = p a) as bs) :
    bs.countP q = as.countP p := by
  induction h with
  | nil => rfl
  | cons hb _ ih => rw [List.countP_cons, List.countP_cons, ih, hb]

theorem filter_zip_of_forall₂ (h : List.Forall₂ (fun a b => q b = p a) as bs) (r : α → Bool) :
    ((as.zip bs).filter fun x => q x.2 && r x.1).map Prod.fst = as.filter fun a => p a && r a := by
  induction h with
  | nil => rfl
  | cons hb _ ih =>
    rw [List.zip_cons_cons, List.filter_cons, List.filter_cons, hb]
    split
    · rw [List.map_cons, ih]
    · exact ih

end Paired

namespace Outline

variable {c : Chart} {slots : List RegionSlot}

def isStarred (line : String) : Bool :=
  (Text.trimStart line.toList).head? = some '*'

def remarks : List String :=
  ["", " (final)", " (history)", " (default initial)", " (concurrent)"]

def caption : Node → String
  | .region _ name _ _ => "[" ++ name ++ "]"
  | n => n.name

def Lists (c : Chart) (n : Node) (line : String) : Prop :=
  ∃ depth, ∃ remark ∈ remarks, line = entry depth (c.StartsAt n.id) (caption n) remark

def Listed (c : Chart) (s : State) (n : Node) : Prop :=
  n.id = s.id ∧ ∀ depth, List.Forall₂ (Lists c) n.parts
    (nodeLines c depth (c.initialOf s.scope = some s.id) n)

theorem listed_all {ts : List State} {ns : List Node} (h : List.Forall₂ (Listed c) ts ns)
    {start : Option NodeId} (hstart : ∀ t ∈ ts, c.initialOf t.scope = start) (depth : Nat) :
    List.Forall₂ (Lists c) (Node.partsOf ns) (nodesLines c depth start ns) := by
  induction h with
  | nil => exact .nil
  | @cons t n ts ns ht _ ih =>
    obtain ⟨hfirst, hrest⟩ := List.forall_mem_cons.1 hstart
    have hlines := ht.2 depth
    rw [hfirst, ← ht.1] at hlines
    exact List.rel_append hlines (ih hrest)

theorem not_startsAt_region (h : WellNested c.states slots) {q : RegionSlot} (hq : q ∈ slots) :
    ¬c.StartsAt q.id := by
  rintro ⟨s, hs, hid, -⟩
  exact h.region_ne hq hs hid.symm

theorem listed_regions (h : WellNested c.states slots) {owner : NodeId} {qs : List RegionSlot}
    {ns : List Node} (hqs : ∀ q ∈ qs, q ∈ slots)
    (hns : List.Forall₂ (Nesting.RegionNode c.states c.nested (Listed c) owner) qs ns)
    (howner : ∀ q ∈ qs, q.owner = owner) (depth : Nat) :
    List.Forall₂ (Lists c) (Node.partsOf ns) (nodesLines c depth none ns) := by
  induction hns with
  | nil => exact .nil
  | @cons q n qs ns hn _ ih =>
    obtain ⟨hq, hqs⟩ := List.forall_mem_cons.1 hqs
    obtain ⟨hown, howner⟩ := List.forall_mem_cons.1 howner
    obtain ⟨cs, rfl, hcs⟩ := hn
    have hself : Lists c (.region q.id (regionName q.index) (c.nested.get? q.id) cs)
        (margin depth ++ "  [" ++ regionName q.index ++ "]") := by
      refine ⟨depth, "", by simp [remarks], ?_⟩
      have hnot : ¬c.StartsAt (Node.region q.id (regionName q.index) (c.nested.get? q.id) cs).id :=
        not_startsAt_region h hq
      rw [entry, decide_eq_false hnot, caption, ← String.toList_inj]
      simp
    have hinside : ∀ t ∈ (Nesting.childrenOf c.states owner).filter fun t => t.region = some q.index,
        c.initialOf t.scope = c.nested.get? q.id := by
      intro t ht
      rw [Chart.initialOf, h.scope_of_mem_members hq t (hown ▸ ht), Chart.startIn]
    exact .cons hself (List.rel_append (listed_all hcs hinside (depth + 1)) (ih hqs howner))

theorem hereditary_listed (h : WellNested c.states slots) :
    Nesting.Hereditary c.states slots c.nested (Listed c) := by
  have hself : ∀ s ∈ c.states, ∀ n : Node, n.id = s.id → ∀ depth, ∀ remark ∈ remarks,
      Lists c n (entry depth (c.initialOf s.scope = some s.id) (caption n) remark) := by
    intro s hs n hid depth remark hr
    refine ⟨depth, remark, hr, ?_⟩
    rw [hid, decide_eq_decide.2 (Chart.startsAt_iff h.distinct hs)]
  constructor
  case simple =>
    intro s hs _
    refine ⟨rfl, fun depth => .cons (hself s hs _ rfl depth _ ?_) .nil⟩
    split <;> simp [remarks]
  case history =>
    intro s hs _
    exact ⟨rfl, fun depth => .cons (hself s hs _ rfl depth _ (by simp [remarks])) .nil⟩
  case composite =>
    intro s hs hk ns hns
    have hinside : ∀ t ∈ Nesting.childrenOf c.states s.id,
        c.initialOf t.scope = c.nested.get? s.id := by
      intro t ht
      rw [Chart.initialOf, h.scope_of_mem_childrenOf hs hk t ht, Chart.startIn]
    refine ⟨rfl, fun depth => .cons (hself s hs _ rfl depth _ ?_) ?_⟩
    · split <;> simp [remarks]
    · exact listed_all hns hinside (depth + 1)
  case concurrent =>
    intro s hs _ ns hns
    have hslots : ∀ q ∈ Nesting.slotsOf slots s.id, q ∈ slots ∧ q.owner = s.id := by
      intro q hq
      simpa using (Nesting.slotsOf_perm slots s.id).mem_iff.1 hq
    refine ⟨rfl, fun depth => .cons (hself s hs _ rfl depth _ (by simp [remarks])) ?_⟩
    exact listed_regions h (fun q hq => (hslots q hq).1) hns (fun q hq => (hslots q hq).2) (depth + 1)

/-- A text without a character that could end a line or be taken for a star. -/
def Plain (s : String) : Prop :=
  ∀ x ∈ ['\n', '\r', '*'], x ∉ s.toList

theorem margin_blank (depth : Nat) : ∀ x ∈ (margin depth).toList, x = ' ' := by
  induction depth with
  | zero => simp [margin]
  | succ depth ih =>
    rw [margin, String.toList_append, List.forall_mem_append]
    exact ⟨by simp, ih⟩

theorem plain_of_isName {name : String} (h : IsName name) : Plain name := by
  simp only [Plain, List.forall_mem_cons]
  exact ⟨fun hm => absurd (h.2 _ hm) (by decide), fun hm => absurd (h.2 _ hm) (by decide),
    fun hm => absurd (h.2 _ hm) (by decide), by simp⟩

theorem plain_regionName (k : Nat) : Plain ("[" ++ regionName k ++ "]") := by
  have hname : ∀ x ∈ ['\n', '\r', '*'], x ∉ (regionName k).toList := by
    simp only [List.forall_mem_cons]
    exact ⟨notMem_regionName (by decide) (by decide) k, notMem_regionName (by decide) (by decide) k,
      notMem_regionName (by decide) (by decide) k, by simp⟩
  intro x hx
  have hbrackets : x ≠ '[' ∧ x ≠ ']' := by
    simp only [List.mem_cons, List.not_mem_nil, or_false] at hx
    rcases hx with rfl | rfl | rfl <;> decide
  simp [hname x hx, hbrackets]

theorem plain_of_mem_remarks {remark : String} (h : remark ∈ remarks) : Plain remark := by
  have hall : ∀ r ∈ remarks, ∀ x ∈ ['\n', '\r', '*'], x ∉ r.toList := by
    simp [remarks]
  exact hall remark h

theorem notMem_entry {x : Char} {initial : Bool} (depth : Nat) {name remark : String}
    (hx : x ≠ ' ') (hstar : initial = true → x ≠ '*') (hn : x ∉ name.toList)
    (hr : x ∉ remark.toList) : x ∉ (entry depth initial name remark).toList := by
  have hm : x ∉ (margin depth).toList := fun h => hx (margin_blank depth x h)
  cases initial with
  | false => simp [entry, hm, hx, hn, hr]
  | true => simp [entry, hm, hx, hn, hr, hstar rfl]

theorem isStarred_entry {name remark : String} (hn : Plain name) (hr : Plain remark) (depth : Nat)
    (initial : Bool) : isStarred (entry depth initial name remark) = initial := by
  cases initial with
  | true =>
    have hblank : ∀ x ∈ (margin depth).toList, Text.isBlank x := by
      intro x hx
      rw [margin_blank depth x hx]
      decide
    have htext : (entry depth true name remark).toList =
        (margin depth).toList ++ '*' :: ' ' :: (name.toList ++ remark.toList) := by
      simp [entry]
    rw [isStarred, htext, Text.trimStart, List.dropWhile_append_of_pos hblank,
      List.dropWhile_cons_of_neg (by decide)]
    rfl
  | false =>
    have hnot : '*' ∉ (entry depth false name remark).toList :=
      notMem_entry depth (by decide) (by simp) (hn _ (by simp)) (hr _ (by simp))
    rw [isStarred, decide_eq_false_iff_not]
    intro hstar
    exact hnot ((List.dropWhile_suffix _).subset (List.mem_of_head? hstar))

def starredIn (c : Chart) (scope : Scope) : List NodeId :=
  (((Node.partsOf c.roots).zip (Text.linesOf (render c))).filter fun x =>
    isStarred x.2 && c.holds scope x.1.id).map fun x => x.1.id

structure LineOf (c : Chart) (n : Node) (line : String) : Prop where
  shows : ∃ before after, line = before ++ caption n ++ after
  starred : isStarred line ↔ c.StartsAt n.id

theorem LineOf.isStarred_eq {n : Node} {line : String} (h : LineOf c n line) :
    isStarred line = decide (c.StartsAt n.id) := by
  rw [Bool.eq_iff_iff, h.starred, decide_eq_true_iff]

theorem Lists.lineOf {n : Node} {line : String} (h : Lists c n line) (hn : Plain (caption n)) :
    LineOf c n line := by
  obtain ⟨depth, remark, hr, rfl⟩ := h
  refine ⟨⟨_, remark, rfl⟩, ?_⟩
  rw [isStarred_entry hn (plain_of_mem_remarks hr), decide_eq_true_iff]

theorem Lists.whole {n : Node} {line : String} (h : Lists c n line) (hn : Plain (caption n)) :
    line ≠ "" ∧ '\n' ∉ line.toList ∧ '\r' ∉ line.toList := by
  obtain ⟨depth, remark, hr, rfl⟩ := h
  have hr := plain_of_mem_remarks hr
  refine ⟨fun hempty => ?_, ?_, ?_⟩
  · have hlist := congrArg String.toList hempty
    by_cases hs : c.StartsAt n.id <;> simp [entry, hs] at hlist
  · exact notMem_entry depth (by decide) (by simp) (hn _ (by simp)) (hr _ (by simp))
  · exact notMem_entry depth (by decide) (by simp) (hn _ (by simp)) (hr _ (by simp))

end Outline

namespace Assembled

open Outline

variable {f : FlatChart} {c : Chart}

theorem plain_caption (h : f.Sound) (ha : Assembled f c) {p : Node}
    (hp : p ∈ Node.partsOf c.roots) : Plain (caption p) := by
  cases ha.shape p hp with
  | simple hs _ | history hs _ | composite hs _ _ | concurrent hs _ =>
    exact plain_of_isName (h.names _ hs)
  | region _ _ => exact plain_regionName _

theorem lists (h : f.Sound) (ha : Assembled f c) :
    List.Forall₂ (Lists c) (Node.partsOf c.roots) (nodesLines c 0 (some c.initial) c.roots) := by
  have hforest := ha.forest
  rw [← ha.states] at hforest
  have hroots := Nesting.forest_induction (hereditary_listed (ha.states ▸ h.nested)) hforest
  refine listed_all hroots (fun t ht => ?_) 0
  have hp : t.parent = none := by simpa using (List.mem_filter.1 ht).2
  rw [Chart.initialOf, scope_eq_top.2 hp]
  rfl

theorem linesOf_render (h : f.Sound) (ha : Assembled f c) :
    Text.linesOf (render c) = nodesLines c 0 (some c.initial) c.roots := by
  refine Text.linesOf_joined fun l hl => ?_
  have hall := (List.forall₂_and_left _ _).2 ⟨fun p hp => ha.plain_caption h hp, ha.lists h⟩
  obtain ⟨p, -, hplain, hlists⟩ := mem_right_of_forall₂ hall l hl
  exact hlists.whole hplain

theorem lineOf (h : f.Sound) (ha : Assembled f c) :
    List.Forall₂ (LineOf c) (Node.partsOf c.roots) (Text.linesOf (render c)) := by
  rw [ha.linesOf_render h]
  have hall := (List.forall₂_and_left _ _).2 ⟨fun p hp => ha.plain_caption h hp, ha.lists h⟩
  exact hall.imp fun p l hp => hp.2.lineOf hp.1

theorem length_linesOf_render (h : f.Sound) (ha : Assembled f c) :
    (Text.linesOf (render c)).length = c.states.length + c.regions.length := by
  have hparts := (Node.map_id_perm (Node.partsOf c.roots)).trans
    (ha.stateIds_perm.append (ha.regionIds_perm h))
  have hlen := hparts.length_eq
  rw [← ha.slots, ← ha.states, List.length_append, List.length_map, List.length_map, List.length_map,
    List.length_map] at hlen
  rw [← (ha.lineOf h).length_eq, hlen]

theorem countP_isStarred (h : f.Sound) (ha : Assembled f c) :
    (Text.linesOf (render c)).countP isStarred =
      (Node.partsOf c.roots).countP fun n => c.StartsAt n.id :=
  countP_of_forall₂ ((ha.lineOf h).imp fun _ _ hl => hl.isStarred_eq)

theorem starredIn_eq (h : f.Sound) (ha : Assembled f c) (scope : Scope) :
    starredIn c scope =
      ((Node.partsOf c.roots).filter fun n => c.StartsAt n.id && c.holds scope n.id).map Node.id := by
  have hlines := (ha.lineOf h).imp fun _ _ hl => hl.isStarred_eq
  rw [← filter_zip_of_forall₂ hlines fun n => c.holds scope n.id, List.map_map]
  rfl

end Assembled

end Statechart
