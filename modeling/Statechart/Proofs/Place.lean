import Mathlib
import Statechart.Proofs.Resolution

namespace Statechart

namespace Enclosure

def words : Enclosure → List String
  | body name => [name]
  | region name index => [name, regionName index]

end Enclosure

namespace Place

def words (p : Place) : List String :=
  p.reverse.flatMap Enclosure.words

def IsSegmented (p : Place) : Prop :=
  ∀ x ∈ p, ∀ w ∈ x.words, IsSegment w

theorem segmentsOf?_id? {p : Place} (h : p.IsSegmented) : NodeId.segmentsOf? p.id? = p.words := by
  induction p with
  | nil => rfl
  | cons x p ih =>
    obtain ⟨hx, hp⟩ := List.forall_mem_cons.1 h
    have hwords : words (x :: p) = words p ++ x.words := by simp [words]
    rw [hwords, ← ih hp]
    cases x with
    | body name => exact NodeId.segments_child _ (hx name (by simp [Enclosure.words]))
    | region name index =>
      have hn : IsSegment name := hx name (by simp [Enclosure.words])
      have hs : NodeId.segmentsOf? (id? (.region name index :: p)) =
          (NodeId.child (id? p) name).segments ++ [regionName index] :=
        NodeId.segments_child_some _ (isSegment_regionName index)
      rw [hs, NodeId.segments_child _ hn, List.append_assoc]
      rfl

end Place

theorem Open.tail {es : List Entry} {p : Place} {x : Enclosure} (h : Open es (x :: p)) :
    Open es p := by
  cases h with
  | body _ hp => exact hp
  | region _ _ hp => exact hp

theorem Open.of_suffix {es : List Entry} {p q : Place} (h : Open es p) (hq : q <:+ p) :
    Open es q := by
  induction p with
  | nil => exact List.suffix_nil.1 hq ▸ h
  | cons x p ih =>
    rcases List.suffix_cons_iff.1 hq with rfl | hq
    · exact h
    · exact ih (Open.tail h) hq

structure Coherent (es : List Entry) : Prop where
  opened : ∀ e ∈ es, Open es e.place
  names : ∀ e ∈ es, ∀ x ∈ e.names, IsName x
  kinds : ∀ p name, (kindsAt p name es).length ≤ 1

namespace Coherent

variable {es : List Entry} {p q : Place}

theorem kind_eq (h : Coherent es) {o o' : Located Opening} {kind kind' : StateKind}
    (ho : .head p o kind ∈ es) (ho' : .head p o' kind' ∈ es) (hn : o.item.name = o'.item.name) :
    kind = kind' := by
  have hmem : kind ∈ kindsAt p o.item.name es := List.mem_filterMap.2 ⟨_, ho, by simp⟩
  have hmem' : kind' ∈ kindsAt p o.item.name es := List.mem_filterMap.2 ⟨_, ho', by simp [hn]⟩
  obtain ⟨k, hk⟩ := List.length_eq_one_iff.1
    (Nat.le_antisymm (h.kinds p o.item.name) (List.length_pos_of_mem hmem))
  rw [hk, List.mem_singleton] at hmem hmem'
  rw [hmem, hmem']

theorem isSegmented (h : Coherent es) (hp : Open es p) : p.IsSegmented := by
  induction hp with
  | top => simp [Place.IsSegmented]
  | @body p o ho _ ih =>
    have hn : IsSegment o.item.name := (h.names _ ho o.item.name (by simp [Entry.names])).isSegment
    exact List.forall_mem_cons.2 ⟨by simpa [Enclosure.words] using hn, ih⟩
  | @region p o k ho _ _ ih =>
    have hn : IsSegment o.item.name := (h.names _ ho o.item.name (by simp [Entry.names])).isSegment
    refine List.forall_mem_cons.2 ⟨?_, ih⟩
    simpa [Enclosure.words] using ⟨hn, isSegment_regionName k⟩

theorem words_ne_nil (x : Enclosure) : x.words ≠ [] := by
  cases x <;> simp [Enclosure.words]

theorem enclosure_eq (h : Coherent es) {x y : Enclosure} (hx : Open es (x :: p))
    (hy : Open es (y :: p)) {us vs : List String} (he : x.words ++ us = y.words ++ vs) :
    x = y := by
  cases hx with
  | body ho _ =>
    cases hy with
    | body ho' _ => simpa [Enclosure.words] using congrArg List.head? he
    | region ho' _ _ =>
      have hn := congrArg List.head? he
      have := h.kind_eq ho ho' (by simpa [Enclosure.words] using hn)
      cases this
  | region ho _ _ =>
    cases hy with
    | body ho' _ =>
      have hn := congrArg List.head? he
      have := h.kind_eq ho ho' (by simpa [Enclosure.words] using hn)
      cases this
    | region ho' _ _ =>
      obtain ⟨hn, hk, -⟩ : _ ∧ _ ∧ _ := by simpa [Enclosure.words] using he
      rw [hn, regionName_inj.1 hk]

theorem eq_of_words_eq (h : Coherent es) (xs ys r : List Enclosure)
    (hx : Open es (xs.reverse ++ r)) (hy : Open es (ys.reverse ++ r))
    (he : xs.flatMap Enclosure.words = ys.flatMap Enclosure.words) : xs = ys := by
  -- from the outside in, where `r` is what the two places share so far
  induction xs generalizing ys r with
  | nil =>
    cases ys with
    | nil => rfl
    | cons y ys =>
      rw [List.flatMap_cons] at he
      exact absurd (List.append_eq_nil_iff.1 he.symm).1 (words_ne_nil y)
  | cons x xs ih =>
    cases ys with
    | nil =>
      rw [List.flatMap_cons] at he
      exact absurd (List.append_eq_nil_iff.1 he).1 (words_ne_nil x)
    | cons y ys =>
      rw [List.reverse_cons, List.append_assoc, List.singleton_append] at hx hy
      rw [List.flatMap_cons, List.flatMap_cons] at he
      obtain rfl := h.enclosure_eq (Open.of_suffix hx (List.suffix_append ..))
        (Open.of_suffix hy (List.suffix_append ..)) he
      rw [ih ys (x :: r) hx hy (List.append_cancel_left he)]

theorem place_eq (h : Coherent es) (hp : Open es p) (hq : Open es q) (he : p.id? = q.id?) :
    p = q := by
  have hw : p.words = q.words := by
    rw [← Place.segmentsOf?_id? (h.isSegmented hp), ← Place.segmentsOf?_id? (h.isSegmented hq), he]
  have hr := h.eq_of_words_eq p.reverse q.reverse [] (by simpa using hp) (by simpa using hq) hw
  exact List.reverse_inj.1 hr

theorem child_eq (h : Coherent es) (hp : Open es p) (hq : Open es q) {m n : String}
    (hm : IsName m) (hn : IsName n) :
    NodeId.child p.id? m = NodeId.child q.id? n ↔ p = q ∧ m = n := by
  rw [NodeId.child_inj hm.isSegment hn.isSegment]
  exact and_congr_left' ⟨h.place_eq hp hq, congrArg Place.id?⟩

end Coherent

end Statechart
