import Mathlib
import Statechart.FlatChart.Registry
import Statechart.Proofs.Name
import Statechart.Proofs.Progress

namespace Statechart

inductive Entry where
  | clause (place : Place) (c : Located Clause)
  | head (place : Place) (h : Located Opening) (kind : StateKind)
  | region (place : Place) (name : String) (index : Nat)
  deriving DecidableEq, Repr

namespace Entry

def place : Entry → Place
  | clause p _ | head p _ _ | region p _ _ => p

def names : Entry → List String
  | clause _ c => c.item.names
  | head _ h _ => [h.item.name]
  | region _ _ _ => []

end Entry

mutual

def Item.entries (p : Place) : Item → List Entry
  | .clause c => [.clause p c]
  | .composite head first [] =>
    .head p head .composite :: entriesOf (.body head.item.name :: p) first
  | .composite head first (b :: bs) =>
    .head p head .concurrent :: .region p head.item.name 0 ::
      (entriesOf (.region head.item.name 0 :: p) first ++
        entriesOfRegions p head.item.name 1 (b :: bs))

def entriesOf (p : Place) : List Item → List Entry
  | [] => []
  | i :: is => i.entries p ++ entriesOf p is

def entriesOfRegions (p : Place) (name : String) (index : Nat) : List (List Item) → List Entry
  | [] => []
  | b :: bs =>
    .region p name index ::
      (entriesOf (.region name index :: p) b ++ entriesOfRegions p name (index + 1) bs)

end

theorem entriesOf_append (p : Place) (b c : Block) :
    entriesOf p (b ++ c) = entriesOf p b ++ entriesOf p c := by
  induction b with
  | nil => simp [entriesOf]
  | cons i b ih => simp [entriesOf, ih]

theorem entriesOfRegions_eq (p : Place) (name : String) (index : Nat) (bs : List Block) :
    entriesOfRegions p name index bs = (bs.zipIdx index).flatMap fun r =>
      .region p name r.2 :: entriesOf (.region name r.2 :: p) r.1 := by
  induction bs generalizing index with
  | nil => simp [entriesOfRegions]
  | cons b bs ih => simp [entriesOfRegions, ih]

structure Entry.Closed (M : Place → List Entry → Prop) : Prop where
  nil : ∀ p, M p []
  append : ∀ p es fs, M p es → M p fs → M p (es ++ fs)
  clause : ∀ p c, M p [.clause p c]
  composite : ∀ p h b, M (.body h.item.name :: p) (entriesOf (.body h.item.name :: p) b) →
    M p (.head p h .composite :: entriesOf (.body h.item.name :: p) b)
  concurrent : ∀ p h bs, 2 ≤ bs.length →
    (∀ b ∈ bs, ∀ k, M (.region h.item.name k :: p) (entriesOf (.region h.item.name k :: p) b)) →
    M p (.head p h .concurrent :: entriesOfRegions p h.item.name 0 bs)

section Induction

variable {M : Place → List Entry → Prop}

mutual

theorem entries_induction (hM : Entry.Closed M) (p : Place) : ∀ i : Item, M p (i.entries p)
  | .clause c => hM.clause p c
  | .composite head first [] => hM.composite p head first (entriesOf_induction hM _ first)
  | .composite head first (b :: bs) => by
    have hregions : ∀ c ∈ first :: b :: bs, ∀ k, M (.region head.item.name k :: p)
        (entriesOf (.region head.item.name k :: p) c) :=
      List.forall_mem_cons.2 ⟨fun _ => entriesOf_induction hM _ first,
        regions_induction hM p head.item.name (b :: bs)⟩
    exact hM.concurrent p head (first :: b :: bs) (by simp) hregions

theorem entriesOf_induction (hM : Entry.Closed M) (p : Place) :
    ∀ b : List Item, M p (entriesOf p b)
  | [] => hM.nil p
  | i :: is => hM.append p _ _ (entries_induction hM p i) (entriesOf_induction hM p is)

theorem regions_induction (hM : Entry.Closed M) (p : Place) (name : String) :
    ∀ bs : List (List Item),
      ∀ b ∈ bs, ∀ k, M (.region name k :: p) (entriesOf (.region name k :: p) b)
  | [] => by simp
  | b :: bs => List.forall_mem_cons.2
    ⟨fun _ => entriesOf_induction hM _ b, regions_induction hM p name bs⟩

end

end Induction

theorem mem_entriesOfRegions {p : Place} {name : String} {bs : List Block} {e : Entry} :
    e ∈ entriesOfRegions p name 0 bs ↔ ∃ k b, bs[k]? = some b ∧
      (e = .region p name k ∨ e ∈ entriesOf (.region name k :: p) b) := by
  simp only [entriesOfRegions_eq, List.mem_flatMap, Prod.exists, List.mem_zipIdx_iff_getElem?,
    List.mem_cons]
  exact exists_comm

theorem place_of_mem_entriesOf {p : Place} {b : Block} {e : Entry} (h : e ∈ entriesOf p b) :
    p <:+ e.place := by
  refine entriesOf_induction (M := fun p es => ∀ e ∈ es, p <:+ e.place) ⟨?_, ?_, ?_, ?_, ?_⟩ p b e h
  · simp
  · intro p es fs hes hfs e he
    exact (List.mem_append.1 he).elim (hes e) (hfs e)
  · simp [Entry.place]
  · intro p h b ih
    refine List.forall_mem_cons.2 ⟨List.suffix_rfl, fun e he => ?_⟩
    exact (List.suffix_cons _ p).trans (ih e he)
  · intro p h bs _ ih
    refine List.forall_mem_cons.2 ⟨List.suffix_rfl, fun e he => ?_⟩
    obtain ⟨k, b, hb, rfl | he⟩ := mem_entriesOfRegions.1 he
    · exact List.suffix_rfl
    · exact (List.suffix_cons _ p).trans (ih b (List.mem_of_getElem? hb) k e he)

inductive Open (L : List Entry) : Place → Prop
  | top : Open L []
  | body {p : Place} {h : Located Opening} :
    .head p h .composite ∈ L → Open L p → Open L (.body h.item.name :: p)
  | region {p : Place} {h : Located Opening} {k : Nat} :
    .head p h .concurrent ∈ L → .region p h.item.name k ∈ L → Open L p →
      Open L (.region h.item.name k :: p)

theorem open_of_mem_entriesOf {L : List Entry} {p : Place} {b : Block} (hp : Open L p)
    (hL : entriesOf p b ⊆ L) : ∀ e ∈ entriesOf p b, Open L e.place := by
  refine entriesOf_induction (M := fun p es => Open L p → es ⊆ L → ∀ e ∈ es, Open L e.place)
    ⟨?_, ?_, ?_, ?_, ?_⟩ p b hp hL
  · simp
  · intro p es fs hes hfs hp hL e he
    obtain ⟨hl, hr⟩ := List.append_subset.1 hL
    exact (List.mem_append.1 he).elim (hes hp hl e) (hfs hp hr e)
  · intro p c hp _
    simpa [Entry.place] using hp
  · intro p h b ih hp hL
    obtain ⟨hh, hb⟩ := List.cons_subset.1 hL
    exact List.forall_mem_cons.2 ⟨hp, ih (.body hh hp) hb⟩
  · intro p h bs _ ih hp hL
    obtain ⟨hh, hbs⟩ := List.cons_subset.1 hL
    refine List.forall_mem_cons.2 ⟨hp, fun e he => ?_⟩
    obtain ⟨k, b, hb, rfl | he⟩ := mem_entriesOfRegions.1 he
    · exact hp
    · have hk : Entry.region p h.item.name k ∈ L :=
        hbs (mem_entriesOfRegions.2 ⟨k, b, hb, .inl rfl⟩)
      refine ih b (List.mem_of_getElem? hb) k (.region hh hk hp) (fun f hf => hbs ?_) e he
      exact mem_entriesOfRegions.2 ⟨k, b, hb, .inr hf⟩

theorem open_of_mem {b : Block} : ∀ e ∈ entriesOf [] b, Open (entriesOf [] b) e.place :=
  open_of_mem_entriesOf .top (List.Subset.refl _)

theorem head_of_region_mem {q p : Place} {b : Block} {name : String} {k : Nat}
    (h : .region p name k ∈ entriesOf q b) :
    ∃ o, .head p o .concurrent ∈ entriesOf q b ∧ o.item.name = name := by
  have hall : ∀ e ∈ entriesOf q b, ∀ p name k, e = .region p name k →
      ∃ o, .head p o .concurrent ∈ entriesOf q b ∧ o.item.name = name := by
    refine entriesOf_induction
      (M := fun _ es => ∀ e ∈ es, ∀ p name k, e = .region p name k →
        ∃ o, .head p o .concurrent ∈ es ∧ o.item.name = name) ⟨?_, ?_, ?_, ?_, ?_⟩ q b
    · simp
    · intro _ es fs hes hfs e he p name k hk
      rcases List.mem_append.1 he with he | he
      · obtain ⟨o, ho, hn⟩ := hes e he p name k hk
        exact ⟨o, List.mem_append_left _ ho, hn⟩
      · obtain ⟨o, ho, hn⟩ := hfs e he p name k hk
        exact ⟨o, List.mem_append_right _ ho, hn⟩
    · simp
    · intro p h b ih
      refine List.forall_mem_cons.2 ⟨by simp, fun e he p name k hk => ?_⟩
      obtain ⟨o, ho, hn⟩ := ih e he p name k hk
      exact ⟨o, List.mem_cons_of_mem _ ho, hn⟩
    · intro p h bs _ ih
      refine List.forall_mem_cons.2 ⟨by simp, fun e he q name k hk => ?_⟩
      obtain ⟨j, b, hb, rfl | he⟩ := mem_entriesOfRegions.1 he
      · cases hk
        exact ⟨h, List.mem_cons_self, rfl⟩
      · obtain ⟨o, ho, hn⟩ := ih b (List.mem_of_getElem? hb) j e he q name k hk
        exact ⟨o, List.mem_cons_of_mem _ (mem_entriesOfRegions.2 ⟨j, b, hb, .inr ho⟩), hn⟩
  exact hall _ h p name k rfl

def kindsAt (p : Place) (name : String) (es : List Entry) : List StateKind :=
  es.filterMap fun
    | .head q h kind => if q = p ∧ h.item.name = name then some kind else none
    | _ => none

def indicesAt (p : Place) (name : String) (es : List Entry) : List Nat :=
  es.filterMap fun
    | .region q n k => if q = p ∧ n = name then some k else none
    | _ => none

theorem kindsAt_append (p : Place) (name : String) (es fs : List Entry) :
    kindsAt p name (es ++ fs) = kindsAt p name es ++ kindsAt p name fs :=
  List.filterMap_append

theorem indicesAt_append (p : Place) (name : String) (es fs : List Entry) :
    indicesAt p name (es ++ fs) = indicesAt p name es ++ indicesAt p name fs :=
  List.filterMap_append

theorem kindsAt_eq_nil {p : Place} {name : String} {es : List Entry} (h : ∀ e ∈ es, e.place ≠ p) :
    kindsAt p name es = [] := by
  refine List.filterMap_eq_nil_iff.2 fun e he => ?_
  cases e with
  | head q h' kind => exact if_neg fun hq => h _ he hq.1
  | clause | region => rfl

theorem indicesAt_eq_nil {p : Place} {name : String} {es : List Entry}
    (h : ∀ e ∈ es, e.place ≠ p) : indicesAt p name es = [] := by
  refine List.filterMap_eq_nil_iff.2 fun e he => ?_
  cases e with
  | region q n k => exact if_neg fun hq => h _ he hq.1
  | clause | head => rfl

theorem place_ne_of_mem {p : Place} {x : Enclosure} {b : Block} :
    ∀ e ∈ entriesOf (x :: p) b, e.place ≠ p := by
  intro e he hp
  have hl := (place_of_mem_entriesOf he).length_le
  rw [hp, List.length_cons] at hl
  omega

/-- Each concurrent body of a name gives it regions from zero on, and at least two. -/
def Ranged (p : Place) (name : String) (es : List Entry) : Prop :=
  ∃ ms : List Nat, (∀ m ∈ ms, 2 ≤ m) ∧ ms.length = (kindsAt p name es).count .concurrent ∧
    indicesAt p name es = ms.flatMap List.range

theorem Ranged.of_nil {p : Place} {name : String} {es : List Entry}
    (hk : (kindsAt p name es).count .concurrent = 0) (hi : indicesAt p name es = []) :
    Ranged p name es :=
  ⟨[], by simp, by simp [hk], by simp [hi]⟩

theorem Ranged.append {p : Place} {name : String} {es fs : List Entry} (he : Ranged p name es)
    (hf : Ranged p name fs) : Ranged p name (es ++ fs) := by
  obtain ⟨ms, hms, hml, hmi⟩ := he
  obtain ⟨ns, hns, hnl, hni⟩ := hf
  refine ⟨ms ++ ns, ?_, ?_, ?_⟩
  · intro m hm
    exact (List.mem_append.1 hm).elim (hms m) (hns m)
  · rw [List.length_append, kindsAt_append, List.count_append, hml, hnl]
  · rw [indicesAt_append, hmi, hni, List.flatMap_append]

theorem kindsAt_entriesOfRegions_self (p : Place) (name : String) (bs : List Block) :
    kindsAt p name (entriesOfRegions p name 0 bs) = [] := by
  rw [entriesOfRegions_eq, kindsAt, List.filterMap_flatMap]
  refine List.flatMap_eq_nil_iff.2 fun r _ => ?_
  rw [List.filterMap_cons_none rfl]
  exact kindsAt_eq_nil place_ne_of_mem

theorem indicesAt_entriesOfRegions_self (p : Place) (name : String) (bs : List Block) :
    indicesAt p name (entriesOfRegions p name 0 bs) = List.range bs.length := by
  have hone : ∀ r : Block × Nat, indicesAt p name
      (.region p name r.2 :: entriesOf (.region name r.2 :: p) r.1) = [r.2] := by
    intro r
    rw [← List.singleton_append, indicesAt_append, indicesAt_eq_nil place_ne_of_mem]
    simp [indicesAt]
  rw [entriesOfRegions_eq, indicesAt, List.filterMap_flatMap]
  simp only [← indicesAt.eq_1, hone]
  rw [← List.map_eq_flatMap, List.zipIdx_map_snd, List.range_eq_range']

theorem ranged_regions {p q : Place} {name n : String} {bs : List (Block × Nat)}
    (hn : ¬(q = p ∧ n = name))
    (h : ∀ r ∈ bs, Ranged p name (entriesOf (.region n r.2 :: q) r.1)) :
    Ranged p name (bs.flatMap fun r =>
      .region q n r.2 :: entriesOf (.region n r.2 :: q) r.1) := by
  induction bs with
  | nil => exact .of_nil rfl rfl
  | cons r bs ih =>
    obtain ⟨hr, hbs⟩ := List.forall_mem_cons.1 h
    rw [List.flatMap_cons]
    have hregion : Ranged p name [.region q n r.2] := .of_nil rfl (by simp [indicesAt, hn])
    exact (hregion.append hr).append (ih hbs)

theorem ranged_entriesOf (q : Place) (b : Block) (p : Place) (name : String) :
    Ranged p name (entriesOf q b) := by
  refine entriesOf_induction (M := fun _ es => Ranged p name es) ⟨?_, ?_, ?_, ?_, ?_⟩ q b
  · exact fun _ => .of_nil rfl rfl
  · exact fun _ _ _ => Ranged.append
  · exact fun _ _ => .of_nil rfl rfl
  · intro q h b ih
    have hhead : Ranged p name [.head q h .composite] := by
      refine .of_nil ?_ rfl
      by_cases hq : q = p ∧ h.item.name = name <;> simp [kindsAt, hq]
    exact hhead.append ih
  · intro q h bs hlen ih
    by_cases hq : q = p ∧ h.item.name = name
    · obtain ⟨rfl, rfl⟩ := hq
      have hk : kindsAt q h.item.name
          (.head q h .concurrent :: entriesOfRegions q h.item.name 0 bs) = [.concurrent] := by
        rw [← List.singleton_append, kindsAt_append, kindsAt_entriesOfRegions_self]
        simp [kindsAt]
      refine ⟨[bs.length], by simpa using hlen, by simp [hk], ?_⟩
      rw [← List.singleton_append, indicesAt_append, indicesAt_entriesOfRegions_self]
      simp [indicesAt]
    · have hhead : Ranged p name [.head q h .concurrent] :=
        .of_nil (by simp [kindsAt, hq]) rfl
      refine hhead.append ?_
      rw [entriesOfRegions_eq]
      refine ranged_regions hq fun r hr => ih r.1 ?_ r.2
      exact List.mem_of_getElem? (List.mem_zipIdx_iff_getElem?.1 hr)

theorem indicesAt_of_kindsAt {b : Block} {p : Place} {name : String}
    (h : kindsAt p name (entriesOf [] b) = [.concurrent]) :
    ∃ n, 2 ≤ n ∧ indicesAt p name (entriesOf [] b) = List.range n := by
  obtain ⟨ms, hms, hlen, hi⟩ := ranged_entriesOf [] b p name
  rw [h] at hlen
  obtain ⟨m, rfl⟩ := List.length_eq_one_iff.1 hlen
  exact ⟨m, hms m (by simp), by simpa using hi⟩

/-- The event that an entry comes from. A region comes from no single one. -/
def Entry.event? : Entry → Option (Located Event)
  | clause _ c => some (c.map .clause)
  | head _ h _ => some (h.map .opening)
  | region _ _ _ => none

namespace BlockTree

def ComesFrom (es : List (Located Event)) (b : Block) : Prop :=
  ∀ p, ∀ x ∈ entriesOf p b, ∀ e ∈ x.event?, e ∈ es

theorem grows_comesFrom (es : List (Located Event)) : Grows es (ComesFrom es) := by
  constructor
  case nil => simp [ComesFrom, entriesOf]
  case append =>
    intro b c hb hc p x hx
    rw [entriesOf_append] at hx
    exact (List.mem_append.1 hx).elim (hb p x) (hc p x)
  case clause =>
    intro c hc p x hx e he
    rw [entriesOf, entriesOf, List.append_nil, Item.entries, List.mem_singleton] at hx
    subst hx
    cases he
    exact hc
  case composite =>
    intro h first more hh hall p x hx e he
    cases more with
    | nil =>
      rw [entriesOf, entriesOf, List.append_nil, Item.entries] at hx
      rcases List.mem_cons.1 hx with rfl | hx
      · cases he
        exact hh
      · exact hall first List.mem_cons_self _ x hx e he
    | cons b bs =>
      have hentries : Item.entries p (.composite h first (b :: bs)) =
          .head p h .concurrent :: entriesOfRegions p h.item.name 0 (first :: b :: bs) := rfl
      rw [entriesOf, entriesOf, List.append_nil, hentries] at hx
      rcases List.mem_cons.1 hx with rfl | hx
      · cases he
        exact hh
      · obtain ⟨k, c, hc, rfl | hx⟩ := mem_entriesOfRegions.1 hx
        · cases he
        · exact hall c (List.mem_of_getElem? hc) _ x hx e he

def WellNamed (b : Block) : Prop :=
  ∀ p, ∀ e ∈ entriesOf p b, ∀ x ∈ e.names, IsName x

theorem wellNamed_of_ofEvents {es : List (Located Event)} {t : BlockTree}
    (he : ∀ e ∈ es, e.item.WellNamed) (h : ofEvents es = .ok t) : WellNamed t.body := by
  have hfrom := (grows_comesFrom es).of_ofEvents h
  intro p x hx
  cases x with
  | clause q c => exact he _ (hfrom p _ hx _ rfl)
  | head q o kind => exact he _ (hfrom p _ hx _ rfl)
  | region => simp [Entry.names]

end BlockTree

namespace Registry

def enter (r : Registry) : Entry → Except Fault Registry
  | .clause p c => r.addClause p c
  | .head p h kind => r.declare p h.item.name kind h.item.label h.line h.text
  | .region p name index => .ok (r.addRegion (.child p.id? name) index)

mutual

theorem addItem_eq (p : Place) (r : Registry) : ∀ i : Item,
    addItem p r i = (i.entries p).foldlM enter r
  | .clause c => by
    rw [addItem, Item.entries, List.foldlM_cons, enter]
    cases r.addClause p c <;> rfl
  | .composite head first [] => by
    rw [addItem, Item.entries, List.foldlM_cons, enter]
    cases h : r.declare p head.item.name .composite head.item.label head.line head.text with
    | error f => simp [kindOfBody, h, bind, Except.bind]
    | ok m => simp [kindOfBody, h, bind, Except.bind, addBlock_eq _ m first]
  | .composite head first (b :: bs) => by
    rw [addItem, Item.entries, List.foldlM_cons, enter]
    cases h : r.declare p head.item.name .concurrent head.item.label head.line head.text with
    | error f => simp [kindOfBody, h, bind, Except.bind]
    | ok m =>
      simp only [kindOfBody, h, List.isEmpty_cons, Bool.false_eq_true, if_false, bind, Except.bind,
        List.foldlM_cons, List.foldlM_append, enter, addBlock_eq, addRegions_eq]
      cases (entriesOf (.region head.item.name 0 :: p) first).foldlM enter
          (m.addRegion (.child p.id? head.item.name) 0) <;>
        rfl

theorem addBlock_eq (p : Place) (r : Registry) : ∀ b : List Item,
    addBlock p r b = (entriesOf p b).foldlM enter r
  | [] => rfl
  | i :: is => by
    rw [addBlock, entriesOf, List.foldlM_append, addItem_eq p r i]
    cases (i.entries p).foldlM enter r with
    | error f => rfl
    | ok m => exact addBlock_eq p m is

theorem addRegions_eq (p : Place) (name : String) (index : Nat) (r : Registry) :
    ∀ bs : List (List Item),
      addRegions p name index r bs = (entriesOfRegions p name index bs).foldlM enter r
  | [] => rfl
  | b :: bs => by
    rw [addRegions, entriesOfRegions, List.foldlM_cons, addBlock_eq, enter]
    simp only [bind, Except.bind, List.foldlM_append]
    cases (entriesOf (.region name index :: p) b).foldlM enter
        (r.addRegion (.child p.id? name) index) with
    | error f => rfl
    | ok m => exact addRegions_eq p name (index + 1) m bs

end

theorem addBlock_ok (p : Place) {r r' : Registry} (b : Block) :
    addBlock p r b = .ok r' ↔ (entriesOf p b).foldlM enter r = .ok r' := by
  rw [addBlock_eq]

end Registry

end Statechart
