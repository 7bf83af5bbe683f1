import Mathlib
import Statechart.FlatChart.Resolution
import Statechart.Proofs.Registry

namespace Statechart

abbrev Mention := (Place × String) × Nat

namespace Bindings

structure Traced (tr : List Mention) (bs : List Binding) : Prop where
  mem_keys : ∀ k, k ∈ bs.map Binding.key ↔ k ∈ tr.map Prod.fst
  order : (bs.map Binding.key).Pairwise fun k k' =>
    (tr.map Prod.fst).idxOf k < (tr.map Prod.fst).idxOf k'
  first : ∀ e ∈ bs, (e.key, e.line) ∈ tr ∧ ∀ n, (e.key, n) ∈ tr → e.line ≤ n

namespace Traced

variable {tr : List Mention} {bs bs' : List Binding} {p : Place} {name : String}

theorem nil : Traced [] [] :=
  ⟨by simp, .nil, by simp⟩

theorem order_append (h : Traced tr bs) (tr' : List Mention) :
    (bs.map Binding.key).Pairwise fun k k' =>
      ((tr ++ tr').map Prod.fst).idxOf k < ((tr ++ tr').map Prod.fst).idxOf k' := by
  refine h.order.imp_of_mem fun {k k'} hk hk' hlt => ?_
  rw [List.map_append, List.idxOf_append_of_mem ((h.mem_keys k).1 hk),
    List.idxOf_append_of_mem ((h.mem_keys k').1 hk')]
  exact hlt

theorem concat (h : Traced tr bs) (hnew : (p, name) ∉ bs.map Binding.key) (kind : StateKind)
    (label : Option String) (line : Nat) :
    Traced (tr ++ [((p, name), line)]) (bs ++ [⟨p, name, kind, label, line⟩]) := by
  have hnot : (p, name) ∉ tr.map Prod.fst := fun hk => hnew ((h.mem_keys _).2 hk)
  constructor
  case mem_keys =>
    intro k
    rw [List.map_append, List.map_append, List.mem_append, List.mem_append, h.mem_keys]
    rfl
  case order =>
    have hkeys : (bs ++ [Binding.mk p name kind label line]).map Binding.key =
        bs.map Binding.key ++ [(p, name)] := List.map_append
    rw [hkeys, List.pairwise_append]
    refine ⟨h.order_append _, List.pairwise_singleton .., fun k hk k' hk' => ?_⟩
    obtain rfl : k' = (p, name) := List.mem_singleton.1 hk'
    have hmem := (h.mem_keys k).1 hk
    have hlt := List.idxOf_lt_length_of_mem hmem
    rw [List.map_append, List.idxOf_append_of_mem hmem, List.idxOf_append_of_notMem hnot]
    omega
  case first =>
    intro e he
    rcases List.mem_append.1 he with he | he
    · obtain ⟨hline, hleast⟩ := h.first e he
      refine ⟨List.mem_append_left _ hline, fun n hn => ?_⟩
      rcases List.mem_append.1 hn with hn | hn
      · exact hleast n hn
      · obtain ⟨hk, -⟩ := Prod.mk.inj (List.mem_singleton.1 hn)
        exact absurd (hk ▸ List.mem_map_of_mem he) hnew
    · obtain rfl := List.mem_singleton.1 he
      refine ⟨List.mem_append_right _ (List.mem_singleton_self _), fun n hn => ?_⟩
      rcases List.mem_append.1 hn with hn | hn
      · exact absurd (List.mem_map_of_mem hn) hnot
      · exact (Prod.mk.inj (List.mem_singleton.1 hn)).2.ge

theorem update {f : Binding → Binding} {line : Nat} (h : Traced tr bs)
    (hold : (p, name) ∈ bs.map Binding.key) (hkey : ∀ e, (f e).key = e.key)
    (hline : ∀ e, (f e).line = min e.line line) :
    Traced (tr ++ [((p, name), line)]) (Bindings.update bs p name f) := by
  have hkeys : (Bindings.update bs p name f).map Binding.key = bs.map Binding.key :=
    map_key_update hkey
  constructor
  case mem_keys =>
    intro k
    rw [hkeys, List.map_append, List.mem_append, h.mem_keys]
    refine ⟨.inl, fun hk => hk.elim id fun hk => ?_⟩
    rw [List.mem_singleton.1 hk]
    exact (h.mem_keys _).1 hold
  case order =>
    rw [hkeys]
    exact h.order_append _
  case first =>
    intro e he
    obtain ⟨d, hd, ⟨hdk, rfl⟩ | ⟨hdk, rfl⟩⟩ := mem_update.1 he
    · obtain ⟨hfirst, hleast⟩ := h.first d hd
      rw [hkey, hline]
      constructor
      · rcases min_choice d.line line with hmin | hmin
        · rw [hmin]
          exact List.mem_append_left _ hfirst
        · rw [hmin, hdk]
          exact List.mem_append_right _ (List.mem_singleton_self _)
      · intro n hn
        rcases List.mem_append.1 hn with hn | hn
        · exact (min_le_left ..).trans (hleast n hn)
        · rw [(Prod.mk.inj (List.mem_singleton.1 hn)).2]
          exact min_le_right ..
    · obtain ⟨hfirst, hleast⟩ := h.first e hd
      refine ⟨List.mem_append_left _ hfirst, fun n hn => ?_⟩
      rcases List.mem_append.1 hn with hn | hn
      · exact hleast n hn
      · exact absurd (Prod.mk.inj (List.mem_singleton.1 hn)).1 hdk

theorem mention (h : Traced tr bs) {e : Binding} (he : e ∈ bs) (line : Nat) :
    Traced (tr ++ [(e.key, line)]) (Bindings.mention bs e line) :=
  h.update (List.mem_map_of_mem he) (fun _ => rfl) fun _ => rfl

theorem declare {kind : StateKind} {label : Option String} {line : Nat} {text : String}
    (h : Traced tr bs) (hd : Bindings.declare bs p name kind label line text = .ok bs') :
    Traced (tr ++ [((p, name), line)]) bs' := by
  rcases declare_ok hd with ⟨hnew, rfl⟩ | ⟨e, he, hk, -, rfl⟩
  · exact h.concat hnew kind label line
  · exact h.update (hk ▸ List.mem_map_of_mem he) (fun _ => rfl) fun _ => rfl

end Traced

def ByLine (R : Binding → Binding → Prop) (a b : Binding) : Prop :=
  a.line < b.line ∨ a.line = b.line ∧ R a b

section Sorting

variable {R : Binding → Binding → Prop} {bs : List Binding} {e : Binding}

theorem pairwise_insertByLine (he : ∀ d ∈ bs, R e d) (h : bs.Pairwise (ByLine R)) :
    (insertByLine e bs).Pairwise (ByLine R) := by
  induction bs with
  | nil => exact List.pairwise_singleton ..
  | cons d bs ih =>
    obtain ⟨hd, hbs⟩ := List.pairwise_cons.1 h
    obtain ⟨hed, hebs⟩ := List.forall_mem_cons.1 he
    unfold insertByLine
    split
    · rename_i hle
      refine .cons (List.forall_mem_cons.2 ⟨?_, fun b hb => ?_⟩) h
      · exact hle.lt_or_eq.imp_right fun heq => ⟨heq, hed⟩
      · have hdb : d.line ≤ b.line := (hd b hb).elim Nat.le_of_lt fun heq => heq.1.le
        exact (hle.trans hdb).lt_or_eq.imp_right fun heq => ⟨heq, hebs b hb⟩
    · rename_i hgt
      refine .cons (fun b hb => ?_) (ih hebs hbs)
      rcases List.mem_cons.1 ((insertByLine_perm e bs).mem_iff.1 hb) with rfl | hb
      · exact .inl (not_le.1 hgt)
      · exact hd b hb

theorem pairwise_sortByLine (h : bs.Pairwise R) : (sortByLine bs).Pairwise (ByLine R) := by
  induction bs with
  | nil => exact .nil
  | cons e bs ih =>
    obtain ⟨he, hbs⟩ := List.pairwise_cons.1 h
    exact pairwise_insertByLine (fun d hd => he d ((sortByLine_perm bs).mem_iff.1 hd)) (ih hbs)

end Sorting

end Bindings

def keyId (k : Place × String) : NodeId :=
  .child k.1.id? k.2

def Mention.toId (m : Mention) : NodeId × Nat :=
  (keyId m.1, m.2)

structure Listed (ms : List (NodeId × Nat)) (ss : List State) : Prop where
  mem_ids : ∀ id, id ∈ ss.map State.id ↔ id ∈ ms.map Prod.fst
  first : ∀ s ∈ ss, (s.id, s.line) ∈ ms ∧ ∀ n, (s.id, n) ∈ ms → s.line ≤ n
  order : ss.Pairwise fun s t => s.line < t.line ∨
    s.line = t.line ∧ (ms.map Prod.fst).idxOf s.id < (ms.map Prod.fst).idxOf t.id

theorem idxOf_map {α β : Type} [BEq α] [LawfulBEq α] [BEq β] [LawfulBEq β] {f : α → β}
    {l : List α} {a : α} (hf : ∀ x ∈ l, f x = f a → x = a) :
    (l.map f).idxOf (f a) = l.idxOf a := by
  induction l with
  | nil => rfl
  | cons x l ih =>
    obtain ⟨hx, hl⟩ := List.forall_mem_cons.1 hf
    by_cases h : x = a
    · simp [h]
    · have hne : f x ≠ f a := fun he => h (hx he)
      rw [List.map_cons, List.idxOf_cons_ne _ hne, List.idxOf_cons_ne _ h, ih hl]

theorem map_fst_toId (tr : List Mention) :
    (tr.map Mention.toId).map Prod.fst = (tr.map Prod.fst).map keyId := by
  rw [List.map_map, List.map_map]
  rfl

theorem Bindings.Traced.listed {tr : List Mention} {bs : List Binding} (h : Traced tr bs)
    (hids : (bs.map Binding.id).Nodup) :
    Listed (tr.map Mention.toId) ((sortByLine bs).map Binding.toState) := by
  have hperm := sortByLine_perm bs
  have hkey : ∀ e ∈ bs, ∀ k ∈ tr.map Prod.fst, keyId k = keyId e.key → k = e.key := by
    intro e he k hk heq
    obtain ⟨d, hd, rfl⟩ := List.mem_map.1 ((h.mem_keys k).2 hk)
    rw [List.inj_on_of_nodup_map hids hd he heq]
  constructor
  case mem_ids =>
    intro id
    have hids : ((sortByLine bs).map Binding.toState).map State.id =
        ((sortByLine bs).map Binding.key).map keyId := by
      rw [List.map_map, List.map_map]
      rfl
    rw [hids, map_fst_toId, List.mem_map, List.mem_map]
    simp only [(hperm.map Binding.key).mem_iff, h.mem_keys]
  case first =>
    intro s hs
    obtain ⟨e, he, rfl⟩ := List.mem_map.1 hs
    obtain ⟨hline, hleast⟩ := h.first e (hperm.mem_iff.1 he)
    refine ⟨List.mem_map_of_mem hline, fun n hn => ?_⟩
    obtain ⟨m, hm, heq⟩ := List.mem_map.1 hn
    obtain ⟨hid, rfl⟩ := Prod.mk.inj heq
    have hk : m.1 = e.key := hkey e (hperm.mem_iff.1 he) _ (List.mem_map_of_mem hm) hid
    exact hleast m.2 (hk ▸ hm)
  case order =>
    have hidx : ∀ e ∈ sortByLine bs,
        ((tr.map Mention.toId).map Prod.fst).idxOf e.toState.id = (tr.map Prod.fst).idxOf e.key := by
      intro e he
      rw [map_fst_toId]
      exact idxOf_map (hkey e (hperm.mem_iff.1 he))
    refine List.pairwise_map.2 ((pairwise_sortByLine (List.pairwise_map.1 h.order)).imp_of_mem ?_)
    intro d e hd he hby
    rw [hidx d hd, hidx e he]
    exact hby

def Entry.declaration? : Entry → Option Mention
  | .clause p c =>
    match c.item with
    | .declare name _ | .initial name => some ((p, name), c.line)
    | _ => none
  | .head p o _ => some ((p, o.item.name), o.line)
  | .region _ _ _ => none

theorem Entry.declaration?_eq (x : Entry) :
    x.declaration? = x.declares?.map fun d => ((d.place, d.name), d.line) := by
  cases x with
  | clause p c => cases hi : c.item <;> simp [declaration?, declares?, hi]
  | head | region => rfl

theorem map_fst_declaration? (es : List Entry) :
    (es.filterMap Entry.declaration?).map Prod.fst = es.filterMap Entry.key? := by
  rw [List.map_filterMap]
  refine List.filterMap_congr fun x _ => ?_
  rw [x.declaration?_eq, x.key?_eq, Option.map_map]
  rfl

namespace Registry

open Bindings

theorem traced_enter {es : List Entry} {x : Entry} {r r' : Registry}
    (h : Traced (es.filterMap Entry.declaration?) r.bindings) (he : r.enter x = .ok r') :
    Traced ((es ++ [x]).filterMap Entry.declaration?) r'.bindings := by
  obtain ⟨bs, hbs, rfl⟩ := enter_ok.1 he
  rw [filterMap_concat, x.declaration?_eq]
  cases hd : x.declares? with
  | none =>
    rw [hd] at hbs
    cases hbs
    simpa using h
  | some d =>
    rw [hd] at hbs
    exact h.declare hbs

theorem traced_ofBlock {b : Block} {r : Registry} (h : Registry.ofBlock b = .ok r) :
    Traced ((entriesOf [] b).filterMap Entry.declaration?) r.bindings := by
  have hempty : Traced ([].filterMap Entry.declaration?) Registry.empty.bindings := Traced.nil
  exact foldlM_invariant
    (fun (es : List Entry) (r : Registry) => Traced (es.filterMap Entry.declaration?) r.bindings)
    (fun _ _ _ _ _ hs hm => traced_enter hs hm) hempty ((Registry.addBlock_ok [] b).1 h)

end Registry

end Statechart
