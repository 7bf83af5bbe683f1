import Mathlib
import Statechart.Proofs.MarkerNames

namespace Statechart

namespace Dot

section Openings

variable {a b : Option NodeId} {l : String} {ls : List String} {p : String → Bool}

def isOpening : Option NodeId → String → Bool
  | none, l => isHeader l
  | some id, l => opens id l

theorem not_opens_of_isHeader (h : isHeader l = true) (id : NodeId) : opens id l = false := by
  obtain ⟨hstart, -⟩ := Bool.and_eq_true_iff.1 h
  obtain ⟨rest, hrest⟩ := List.isPrefixOf_iff_prefix.1 hstart
  have hblank : ∀ b ∈ l.toList.takeWhile Text.isBlank, Text.isBlank b :=
    fun b hb => List.mem_takeWhile_imp hb
  have hprefix : l.toList.takeWhile Text.isBlank ++ ['d'] <+: l.toList := by
    refine ⟨"igraph ".toList ++ rest, ?_⟩
    conv_rhs => rw [← List.takeWhile_append_dropWhile (p := Text.isBlank) (l := l.toList)]
    rw [List.append_assoc]
    exact congrArg _ hrest
  rw [← Bool.not_eq_true, ← String.ofList_toList (s := l), opens_iff]
  exact trim_ne_of_start hblank (by decide) (by decide) hprefix id

theorem isOpening_unique (ha : isOpening a l = true) (hb : isOpening b l = true) : a = b := by
  have hapart : ∀ id, isHeader l = true → opens id l = true → False := by
    intro id hh ho
    rw [not_opens_of_isHeader hh] at ho
    cases ho
  cases a with
  | none =>
    cases b with
    | none => rfl
    | some id => exact (hapart id ha hb).elim
  | some i =>
    cases b with
    | none => exact (hapart i hb ha).elim
    | some j =>
      have hi : Text.trimmed l = opening i := opens_eq_true.1 ha
      have hj : Text.trimmed l = opening j := opens_eq_true.1 hb
      exact congrArg some (opening_injective (hi.symm.trans hj))

theorem firstLine_cases (p : String → Bool) (ls : List String) :
    (∃ l, ls[ls.findIdx p]? = some l ∧ p l = true ∧ firstLine p ls = some (l, ls.findIdx p)) ∨
      (∀ l ∈ ls, p l = false) ∧ firstLine p ls = none := by
  by_cases h : ∃ l ∈ ls, p l = true
  · have hlt := List.findIdx_lt_length_of_exists h
    have hfound : p ls[ls.findIdx p] = true := List.findIdx_getElem
    have hbefore : ∀ x ∈ ls.take (ls.findIdx p), p x = false := by
      intro x hx
      obtain ⟨i, hi, rfl⟩ := List.mem_take_iff_getElem.1 hx
      exact List.not_of_lt_findIdx (Nat.lt_of_lt_of_le hi (Nat.min_le_left _ _))
    have hfirst : firstLine p (ls.take _ ++ ls[ls.findIdx p] :: ls.drop (ls.findIdx p + 1)) = _ :=
      firstLine_of_first hbefore hfound
    rw [List.getElem_cons_drop, List.take_append_drop, List.length_take, Nat.min_eq_left hlt.le]
      at hfirst
    exact .inl ⟨ls[ls.findIdx p], List.getElem?_eq_getElem hlt, hfound, hfirst⟩
  · have hnone : ∀ l ∈ ls, p l = false := by simpa using h
    refine .inr ⟨hnone, List.find?_eq_none.2 fun x hx => ?_⟩
    rw [hnone x.1 (List.fst_mem_of_mem_zipIdx hx)]
    exact Bool.false_ne_true

end Openings

section Places

variable {c : Chart} {ls : List String} {e : Option NodeId × NodeId} {i : Addition}
  {is : List Addition} {dot out : String}

/-- The number of the first line that opens a scope, counted from zero. -/
def openingIdx (ls : List String) (scope : Option NodeId) : Nat :=
  ls.findIdx (isOpening scope)

def insetOf : Option NodeId → String → String
  | none, _ => indentUnit
  | some _, l => margin l ++ indentUnit

def Puts (c : Chart) (ls : List String) (e : Option NodeId × NodeId) (i : Addition) : Prop :=
  ∃ l, ls[openingIdx ls e.1]? = some l ∧ isOpening e.1 l = true ∧
    i = ⟨openingIdx ls e.1, linesOfMarker c (insetOf e.1 l) e.1 e.2⟩

def addition (c : Chart) (ls : List String) (e : Option NodeId × NodeId) (cause : RenderCause) :
    Except RenderCause Addition :=
  match firstLine (isOpening e.1) ls with
  | none => .error cause
  | some (l, n) => .ok ⟨n, linesOfMarker c (insetOf e.1 l) e.1 e.2⟩

theorem topAddition_eq (c : Chart) (ls : List String) :
    topAddition c ls = addition c ls (none, c.initial) .noHeader :=
  rfl

theorem nestedAddition_eq (c : Chart) (ls : List String) (e : NodeId × NodeId) :
    nestedAddition c ls e = addition c ls (some e.1, e.2) (.noCluster e.1) :=
  rfl

theorem addition_ok {cause : RenderCause} : addition c ls e cause = .ok i ↔ Puts c ls e i := by
  unfold addition Puts openingIdx
  rcases firstLine_cases (isOpening e.1) ls with ⟨l, hl, hopen, hfirst⟩ | ⟨hnone, hfirst⟩
  · rw [hfirst]
    constructor
    · rintro ⟨⟩
      exact ⟨l, hl, hopen, rfl⟩
    · rintro ⟨l', hl', -, rfl⟩
      obtain rfl : l = l' := Option.some.inj (hl.symm.trans hl')
      rfl
  · rw [hfirst]
    constructor
    · rintro ⟨⟩
    · rintro ⟨l, hl, hopen, -⟩
      rw [hnone l (List.mem_of_getElem? hl)] at hopen
      cases hopen

theorem exists_puts_iff : (∃ i, Puts c ls e i) ↔ ∃ l ∈ ls, isOpening e.1 l = true := by
  constructor
  · rintro ⟨i, l, hl, hopen, -⟩
    exact ⟨l, List.mem_of_getElem? hl, hopen⟩
  · rintro ⟨l, hl, hopen⟩
    rcases firstLine_cases (isOpening e.1) ls with ⟨l', hl', hopen', -⟩ | ⟨hnone, -⟩
    · exact ⟨_, l', hl', hopen', rfl⟩
    · rw [hnone l hl] at hopen
      cases hopen

theorem addAll_ne_nil (h : ls ≠ []) : addAll is 0 ls ≠ [] := by
  obtain ⟨l, ls, rfl⟩ := List.exists_cons_of_ne_nil h
  rw [addAll]
  exact List.cons_ne_nil _ _

theorem puts_of_additions {top : Addition} (htop : topAddition c ls = .ok top)
    (h : c.nested.mapM (nestedAddition c ls) = .ok is) :
    List.Forall₂ (Puts c ls) c.starts (top :: is) := by
  rw [topAddition_eq, addition_ok] at htop
  simp only [mapM_ok, nestedAddition_eq, addition_ok] at h
  exact .cons htop (List.forall₂_map_left_iff.2 h)

theorem mark_ok : mark dot c = .ok out ↔
    ∃ is, List.Forall₂ (Puts c (Text.linesOf dot)) c.starts is ∧
      out = feed (addAll is 0 (Text.linesOf dot)) := by
  have hfeed : ∀ {i is}, Puts c (Text.linesOf dot) (none, c.initial) i →
      Text.joined "\n" (addAll is 0 (Text.linesOf dot)) ++ "\n" =
        feed (addAll is 0 (Text.linesOf dot)) := by
    rintro i is ⟨l, hl, -, -⟩
    exact feed_joined (addAll_ne_nil (List.ne_nil_of_mem (List.mem_of_getElem? hl)))
  constructor
  · intro h
    obtain ⟨top, htop, h⟩ := bind_ok.1 h
    obtain ⟨nested, hnested, h⟩ := bind_ok.1 h
    cases h
    exact ⟨top :: nested, puts_of_additions htop hnested, hfeed (addition_ok.1 htop)⟩
  · rintro ⟨_, _ | ⟨htop, hnested⟩, rfl⟩
    have hnested : List.Forall₂ (fun e i => nestedAddition c (Text.linesOf dot) e = .ok i)
        c.nested _ := (List.forall₂_map_left_iff.1 hnested).imp fun _ _ => addition_ok.2
    refine bind_ok.2 ⟨_, addition_ok.2 htop, bind_ok.2 ⟨_, mapM_ok.2 hnested, ?_⟩⟩
    rw [← hfeed htop]
    rfl

theorem exists_mark_iff : (∃ out, mark dot c = .ok out) ↔
    ∀ e ∈ c.starts, ∃ l ∈ Text.linesOf dot, isOpening e.1 l = true := by
  simp only [mark_ok, ← exists_puts_iff (c := c)]
  constructor
  · rintro ⟨_, is, h, rfl⟩ e he
    obtain ⟨i, -, hi⟩ := mem_left_of_forall₂ h e he
    exact ⟨i, hi⟩
  · intro h
    obtain ⟨is, his⟩ := exists_forall₂ h
    exact ⟨_, is, his, rfl⟩

theorem forall_starts_opened : (∀ e ∈ c.starts, ∃ l ∈ ls, isOpening e.1 l = true) ↔
    (∃ l ∈ ls, isHeader l = true) ∧ ∀ e ∈ c.nested, ∃ l ∈ ls, Text.trimmed l = opening e.1 := by
  rw [Chart.starts, List.forall_mem_cons, List.forall_mem_map]
  simp only [isOpening, opens_eq_true]

theorem places_of_puts (h : List.Forall₂ (Puts c ls) c.starts is) :
    is.map Addition.after = c.starts.map fun e => openingIdx ls e.1 := by
  have hsame : List.Forall₂ (fun e i => i.after = openingIdx ls e.1) c.starts is := by
    refine h.imp fun e i hi => ?_
    obtain ⟨l, -, -, rfl⟩ := hi
    rfl
  rw [← List.forall₂_eq_eq_eq, List.forall₂_map_left_iff, List.forall₂_map_right_iff]
  exact hsame.flip

theorem after_lt (h : List.Forall₂ (Puts c ls) c.starts is) (hi : i ∈ is) :
    i.after < ls.length := by
  obtain ⟨e, -, l, hl, -, rfl⟩ := mem_right_of_forall₂ h i hi
  exact (List.getElem?_eq_some_iff.1 hl).1

theorem nodup_openings (hkeys : (c.nested.map Prod.fst).Nodup)
    (h : List.Forall₂ (Puts c ls) c.starts is) :
    (c.starts.map fun e => openingIdx ls e.1).Nodup := by
  have hscopes := Chart.nodup_scopes_starts hkeys
  refine (List.Nodup.of_map _ hscopes).map_on fun a ha b hb hab => ?_
  obtain ⟨_, -, l, hl, hopen, -⟩ := mem_left_of_forall₂ h a ha
  obtain ⟨_, -, m, hm, hopen', -⟩ := mem_left_of_forall₂ h b hb
  obtain rfl : l = m := Option.some.inj (hl.symm.trans (hab ▸ hm))
  exact List.inj_on_of_nodup_map hscopes ha hb (isOpening_unique hopen hopen')

end Places

section Splices

variable {c : Chart} {ls : List String} {i : Addition} {is js : List Addition} {n : Nat}

def splice (ls : List String) (i : Addition) : List String :=
  ls.take (i.after + 1) ++ i.lines ++ ls.drop (i.after + 1)

/-- The last place first: what is put in moves the lines after it only, so that the places before
    it stay where they are. -/
def spliceAll (is : List Addition) (ls : List String) : List String :=
  (is.mergeSort fun i j => j.after ≤ i.after).foldl splice ls

def markBottomUp (dot : String) (c : Chart) : Except RenderCause String := do
  let lines := Text.linesOf dot
  let top ← topAddition c lines
  let nested ← c.nested.mapM (nestedAddition c lines)
  return Text.joined "\n" (spliceAll (top :: nested) lines) ++ "\n"

theorem addAll_append (is : List Addition) (n : Nat) (ls ms : List String) :
    addAll is n (ls ++ ms) = addAll is n ls ++ addAll is (n + ls.length) ms := by
  rw [addAll_eq, addAll_eq, addAll_eq, List.zipIdx_append, List.flatMap_append]

theorem addAll_of_forall_lt (h : ∀ i ∈ is, i.after < n) (ls : List String) :
    addAll is n ls = ls := by
  induction ls generalizing n with
  | nil => rfl
  | cons l ls ih =>
    have hnone : (is.filter fun i => i.after = n) = [] :=
      List.filter_eq_nil_iff.2 fun i hi => by simpa using (h i hi).ne
    rw [addAll, hnone, ih fun i hi => Nat.lt_succ_of_lt (h i hi)]
    rfl

theorem addAll_perm (hp : is.Perm js) (hd : (is.map Addition.after).Nodup) (n : Nat)
    (ls : List String) : addAll is n ls = addAll js n ls := by
  have hfilter : ∀ k, (is.filter fun i => i.after = k) = js.filter fun i => i.after = k := by
    intro k
    have hdj := (hp.map Addition.after).nodup hd
    by_cases hk : ∃ i ∈ is, i.after = k
    · obtain ⟨i, hi, rfl⟩ := hk
      rw [filter_key_eq hd hi, filter_key_eq hdj (hp.mem_iff.1 hi)]
    · have hnone : ∀ {xs : List Addition}, is.Perm xs → (xs.filter fun i => i.after = k) = [] :=
        fun hx => List.filter_eq_nil_iff.2 fun i hi he =>
          hk ⟨i, hx.mem_iff.2 hi, of_decide_eq_true he⟩
      rw [hnone (.refl is), hnone hp]
  simp only [addAll_eq, hfilter]

theorem addAll_splice (hlt : i.after < ls.length) (his : ∀ j ∈ is, j.after < i.after) :
    addAll is 0 (splice ls i) = addAll (i :: is) 0 ls := by
  have hlater : ∀ j ∈ is, j.after < i.after + 1 := fun j hj => Nat.lt_succ_of_lt (his j hj)
  have hfront : (ls.take i.after).length = i.after := List.length_take_of_le hlt.le
  have hhead : (ls.take (i.after + 1)).length = i.after + 1 := List.length_take_of_le hlt
  have hplace : addAll (i :: is) 0 (ls.take (i.after + 1)) =
      addAll is 0 (ls.take (i.after + 1)) ++ i.lines := by
    have hnone : (is.filter fun j => j.after = i.after) = [] :=
      List.filter_eq_nil_iff.2 fun j hj => by simpa using (his j hj).ne
    rw [← List.take_append_getElem hlt, addAll_append, addAll_append, hfront, Nat.zero_add,
      addAll_outside (.inr (by rw [hfront, Nat.zero_add])), addAll_of_forall_lt his, addAll,
      List.filter_cons_of_pos (by simp), hnone]
    simp [addAll]
  calc addAll is 0 (splice ls i)
    _ = addAll is 0 (ls.take (i.after + 1)) ++ (i.lines ++ ls.drop (i.after + 1)) := by
      rw [splice, List.append_assoc, addAll_append, hhead, Nat.zero_add, addAll_of_forall_lt hlater]
    _ = addAll (i :: is) 0 (ls.take (i.after + 1)) ++
        addAll (i :: is) (i.after + 1) (ls.drop (i.after + 1)) := by
      rw [hplace, List.append_assoc, addAll_outside (.inl (Nat.lt_succ_self _)),
        addAll_of_forall_lt hlater]
    _ = addAll (i :: is) 0 (ls.take (i.after + 1) ++ ls.drop (i.after + 1)) := by
      rw [addAll_append, hhead, Nat.zero_add]
    _ = addAll (i :: is) 0 ls := by rw [List.take_append_drop]

theorem foldl_splice (hd : is.Pairwise fun i j => j.after < i.after)
    (hlt : ∀ i ∈ is, i.after < ls.length) : is.foldl splice ls = addAll is 0 ls := by
  induction is generalizing ls with
  | nil => exact (addAll_of_forall_lt (by simp) ls).symm
  | cons i is ih =>
    obtain ⟨hi, hd⟩ := List.pairwise_cons.1 hd
    obtain ⟨hilt, hlt⟩ := List.forall_mem_cons.1 hlt
    have hgrows : ls.length ≤ (splice ls i).length := by
      simp only [splice, List.length_append, List.length_take, List.length_drop]
      omega
    rw [List.foldl_cons, ih hd fun j hj => (hlt j hj).trans_le hgrows, addAll_splice hilt hi]

theorem spliceAll_eq (hd : (is.map Addition.after).Nodup) (hlt : ∀ i ∈ is, i.after < ls.length) :
    spliceAll is ls = addAll is 0 ls := by
  let later (i j : Addition) : Bool := j.after ≤ i.after
  have hperm : (is.mergeSort later).Perm is := List.mergeSort_perm is later
  have htrans : ∀ i j k, later i j → later j k → later i k := by
    simp only [later, decide_eq_true_eq]
    omega
  have htotal : ∀ i j, later i j || later j i := by
    simp only [later, Bool.or_eq_true, decide_eq_true_eq]
    omega
  have hsorted : (is.mergeSort later).Pairwise fun i j => j.after ≤ i.after :=
    (List.pairwise_mergeSort htrans htotal is).imp of_decide_eq_true
  have hdistinct := List.pairwise_map.1 ((hperm.map Addition.after).nodup_iff.2 hd)
  rw [spliceAll, foldl_splice _ fun i hi => hlt i (hperm.mem_iff.1 hi)]
  · exact (addAll_perm hperm.symm hd 0 ls).symm
  · exact hsorted.imp₂ (fun i j hle hne => lt_of_le_of_ne hle hne.symm) hdistinct

theorem markBottomUp_eq (hkeys : (c.nested.map Prod.fst).Nodup) (dot : String) :
    markBottomUp dot c = mark dot c := by
  cases htop : topAddition c (Text.linesOf dot) with
  | error e => simp only [markBottomUp, mark, htop, bind, Except.bind]
  | ok top =>
    cases hnested : c.nested.mapM (nestedAddition c (Text.linesOf dot)) with
    | error e => simp only [markBottomUp, mark, htop, hnested, bind, Except.bind]
    | ok is =>
      have hputs := puts_of_additions htop hnested
      have hplaces : ((top :: is).map Addition.after).Nodup := by
        rw [places_of_puts hputs]
        exact nodup_openings hkeys hputs
      have hsame := spliceAll_eq hplaces fun i hi => after_lt hputs hi
      simp only [markBottomUp, mark, htop, hnested, hsame, bind, Except.bind]

end Splices

section Inserted

variable {c : Chart} {ls : List String} {is : List Addition} {extra : Nat → List String}

def interleave (extra : Nat → List String) (ls : List String) : List String :=
  ls.zipIdx.flatMap fun l => l.1 :: extra l.2

theorem interleave_perm (extra : Nat → List String) (ls : List String) :
    (interleave extra ls).Perm (ls ++ (List.range ls.length).flatMap extra) := by
  have hlines : (ls.zipIdx.flatMap fun l => [l.1]) = ls := by
    rw [← List.map_eq_flatMap, List.zipIdx_map_fst]
  have hextra : (ls.zipIdx.flatMap fun l => extra l.2) = (List.range ls.length).flatMap extra := by
    rw [← List.flatMap_map Prod.snd, List.zipIdx_map_snd, List.range_eq_range']
  have hperm := List.flatMap_append_perm ls.zipIdx (fun l => [l.1]) fun l => extra l.2
  rw [hlines, hextra] at hperm
  exact hperm.symm

structure Marks (c : Chart) (ls : List String) (extra : Nat → List String) : Prop where
  marker : ∀ e ∈ c.starts, ∃ l, ls[openingIdx ls e.1]? = some l ∧ isOpening e.1 l = true ∧
    extra (openingIdx ls e.1) =
      [markerPoint (insetOf e.1 l) e.1, markerEdge c (insetOf e.1 l) e.1 e.2] ∧
    ∀ m ∈ extra (openingIdx ls e.1), margin m = insetOf e.1 l
  distinct : (c.starts.map fun e => openingIdx ls e.1).Nodup
  elsewhere : ∀ n, n ∉ c.starts.map (fun e => openingIdx ls e.1) → extra n = []

theorem isBlank_margin (l : String) : ∀ x ∈ (margin l).toList, Text.isBlank x := by
  rw [margin, String.toList_ofList]
  exact fun x hx => List.mem_takeWhile_imp hx

theorem isBlank_insetOf (scope : Option NodeId) (l : String) :
    ∀ x ∈ (insetOf scope l).toList, Text.isBlank x := by
  cases scope with
  | none => exact isBlank_indentUnit
  | some id =>
    rw [insetOf, String.toList_append]
    exact List.forall_mem_append.2 ⟨isBlank_margin l, isBlank_indentUnit⟩

theorem margin_quoted {m : String} (hm : ∀ x ∈ m.toList, Text.isBlank x) (s t : String) :
    margin (m ++ quote s ++ t) = m := by
  have htext : (m ++ quote s ++ t).toList =
      m.toList ++ '"' :: (escape s.toList ++ '"' :: t.toList) := by
    simp [toList_quote]
  rw [margin, htext, List.takeWhile_append_of_pos hm, List.takeWhile_cons_of_neg (by decide),
    List.append_nil, String.ofList_toList]

theorem margin_linesOfMarker {m : String} (hm : ∀ x ∈ m.toList, Text.isBlank x)
    (scope : Option NodeId) (target : NodeId) :
    ∀ l ∈ linesOfMarker c m scope target, margin l = m := by
  have hedge := margin_quoted hm (markerNode scope) (" -> " ++ quote target.path ++
    (if c.nests target then " [lhead=" ++ quote (clusterId target) ++ "]" else "") ++ ";")
  rw [← String.append_assoc, ← String.append_assoc, ← String.append_assoc] at hedge
  exact List.forall_mem_cons.2 ⟨margin_quoted hm _ _, List.forall_mem_singleton.2 hedge⟩

theorem marks_of_puts (hkeys : (c.nested.map Prod.fst).Nodup)
    (h : List.Forall₂ (Puts c ls) c.starts is) :
    Marks c ls fun n => (is.filter fun i => i.after = n).flatMap Addition.lines := by
  have hplaces := places_of_puts h
  have hdistinct := nodup_openings hkeys h
  refine ⟨fun e he => ?_, hdistinct, fun n hn => ?_⟩
  · obtain ⟨i, hi, l, hl, hopen, rfl⟩ := mem_left_of_forall₂ h e he
    have hone := filter_key_eq (hplaces ▸ hdistinct) hi
    refine ⟨l, hl, hopen, ?_⟩
    rw [hone, List.flatMap_singleton]
    exact ⟨rfl, margin_linesOfMarker (isBlank_insetOf e.1 l) e.1 e.2⟩
  · have hnone : (is.filter fun i => i.after = n) = [] := by
      refine List.filter_eq_nil_iff.2 fun i hi hn' => hn ?_
      rw [← hplaces, ← of_decide_eq_true hn']
      exact List.mem_map_of_mem hi
    rw [hnone, List.flatMap_nil]

theorem length_interleave (h : List.Forall₂ (Puts c ls) c.starts is) :
    (interleave (fun n => (is.filter fun i => i.after = n).flatMap Addition.lines) ls).length =
      ls.length + 2 * (1 + c.nested.length) := by
  have hlines : ∀ i ∈ is, i.lines.length = 2 := by
    intro i hi
    obtain ⟨e, -, l, -, -, rfl⟩ := mem_right_of_forall₂ h i hi
    rfl
  have hall := flatMap_filter_perm Addition.after List.nodup_range fun i hi =>
    List.mem_range.2 (after_lt h hi)
  have htwo : (is.flatMap Addition.lines).length = 2 * is.length := by
    rw [List.length_flatMap, List.map_congr_left hlines]
    simp [Nat.mul_comm]
  have hstarts : is.length = 1 + c.nested.length := by
    rw [← h.length_eq]
    simp [Chart.starts, Nat.add_comm]
  calc (interleave _ ls).length
    _ = ls.length + ((List.range ls.length).flatMap fun n =>
        (is.filter fun i => i.after = n).flatMap Addition.lines).length := by
      rw [(interleave_perm _ ls).length_eq, List.length_append]
    _ = ls.length + (is.flatMap Addition.lines).length := by
      rw [← List.flatMap_assoc, (hall.flatMap_right _).length_eq]
    _ = ls.length + 2 * (1 + c.nested.length) := by rw [htwo, hstarts]

theorem oneLine_of_opens {l : String} (hl : OneLine l) {id : NodeId} (h : opens id l = true) :
    OneLine id.path := by
  have htrimmed : Text.trimmed l = opening id := opens_eq_true.1 h
  have hopening : OneLine (opening id) := by
    rw [OneLine, ← htrimmed, Text.trimmed, String.toList_ofList]
    exact fun hn => hl ((Text.trim_isInfix _).subset hn)
  simpa +decide [opening, Statement.text, clusterId] using hopening

theorem oneLine_insetOf (scope : Option NodeId) {l : String} (hl : OneLine l) :
    OneLine (insetOf scope l) := by
  cases scope with
  | none => exact (by decide : OneLine indentUnit)
  | some id =>
    have hmargin : OneLine (margin l) := by
      rw [OneLine, margin, String.toList_ofList]
      exact fun hn => hl ((List.takeWhile_prefix _).subset hn)
    exact oneLine_append.2 ⟨hmargin, by decide⟩

theorem oneLine_interleave {dot : String} (h : Marks c (Text.linesOf dot) extra)
    (htargets : ∀ e ∈ c.starts, OneLine e.2.path) :
    ∀ l ∈ interleave extra (Text.linesOf dot), OneLine l := by
  have hmarker : ∀ n, ∀ l ∈ extra n, OneLine l := by
    intro n l hl
    by_cases hn : n ∈ c.starts.map fun e => openingIdx (Text.linesOf dot) e.1
    · obtain ⟨e, he, rfl⟩ := List.mem_map.1 hn
      obtain ⟨head, hhead, hopen, hlines, -⟩ := h.marker e he
      have hone : OneLine head := Text.oneLine_of_mem_linesOf (List.mem_of_getElem? hhead)
      rw [hlines] at hl
      refine oneLine_linesOfMarker (oneLine_insetOf e.1 hone) (fun id hid => ?_) (htargets e he)
        l hl
      rw [hid] at hopen
      exact oneLine_of_opens hone hopen
    · rw [h.elsewhere n hn] at hl
      cases hl
  intro l hl
  obtain ⟨x, hx, hl⟩ := List.mem_flatMap.1 hl
  rcases List.mem_cons.1 hl with rfl | hl
  · exact Text.oneLine_of_mem_linesOf (List.fst_mem_of_mem_zipIdx hx)
  · exact hmarker x.2 l hl

theorem split_feed {ss : List String} (h : ∀ s ∈ ss, OneLine s) :
    Text.split '\n' (feed ss).toList = ss.map String.toList ++ [[]] := by
  induction ss with
  | nil => rfl
  | cons s ss ih =>
    obtain ⟨hs, hss⟩ := List.forall_mem_cons.1 h
    rw [toList_feed_cons, Text.split_cut hs, ih hss]
    rfl

end Inserted

theorem mark_outcome {c : Chart} (hkeys : (c.nested.map Prod.fst).Nodup) (dot : String) :
    mark dot c = markBottomUp dot c ∧ ((∃ cause, mark dot c = .error cause) ↔
      (∀ l ∈ Text.linesOf dot, isHeader l = false) ∨
        ∃ e ∈ c.nested, ∀ l ∈ Text.linesOf dot, Text.trimmed l ≠ opening e.1) ∧
    ∀ out, mark dot c = .ok out → ∃ extra, Marks c (Text.linesOf dot) extra ∧
      out = feed (interleave extra (Text.linesOf dot)) ∧
      (interleave extra (Text.linesOf dot)).length =
        (Text.linesOf dot).length + 2 * (1 + c.nested.length) ∧
      ((∀ e ∈ c.starts, OneLine e.2.path) → Text.split '\n' out.toList =
        (interleave extra (Text.linesOf dot)).map String.toList ++ [[]]) := by
  refine ⟨(markBottomUp_eq hkeys dot).symm, ?_, fun out hout => ?_⟩
  · have hfails : (∃ cause, mark dot c = .error cause) ↔ ¬∃ out, mark dot c = .ok out := by
      cases mark dot c <;> simp
    rw [hfails, exists_mark_iff, forall_starts_opened, not_and_or]
    simp
  · obtain ⟨is, his, rfl⟩ := mark_ok.1 hout
    have hmarks := marks_of_puts hkeys his
    have hlines : addAll is 0 (Text.linesOf dot) = interleave
        (fun n => (is.filter fun i => i.after = n).flatMap Addition.lines) (Text.linesOf dot) :=
      addAll_eq is 0 _
    refine ⟨_, hmarks, congrArg feed hlines, length_interleave his, fun htargets => ?_⟩
    rw [hlines]
    exact split_feed (oneLine_interleave hmarks htargets)

/-- A text in which one cluster is opened twice and the last line ends in a carriage return. -/
def crowded : String :=
  "  digraph G \x7b\n\tsubgraph \"cluster_On\" \x7b\nsubgraph \"cluster_Two/region1\" \x7b\n" ++
    "subgraph \"cluster_On\" \x7b\n subgraph \"cluster_Two/region2\" \x7b\n\x7d\r"

def crowdedMarked : String :=
  "  digraph G \x7b\n  \"__initial__\" [shape=point, width=0.15, label=\"\"];\n" ++
    "  \"__initial__\" -> \"On\" [lhead=\"cluster_On\"];\n\tsubgraph \"cluster_On\" \x7b\n" ++
    "\t  \"__initial__On\" [shape=point, width=0.15, label=\"\"];\n" ++
    "\t  \"__initial__On\" -> \"On/A\";\nsubgraph \"cluster_Two/region1\" \x7b\n" ++
    "  \"__initial__Two/region1\" [shape=point, width=0.15, label=\"\"];\n" ++
    "  \"__initial__Two/region1\" -> \"Two/region1/A\";\nsubgraph \"cluster_On\" \x7b\n" ++
    " subgraph \"cluster_Two/region2\" \x7b\n" ++
    "   \"__initial__Two/region2\" [shape=point, width=0.15, label=\"\"];\n" ++
    "   \"__initial__Two/region2\" -> \"Two/region2/B\";\n\x7d\r\n"

theorem mark_crowded : mark crowded Sample.chart = .ok crowdedMarked := by
  decide +kernel

theorem mark_outcome_crowded : (Sample.chart.nested.map Prod.fst).Nodup ∧
    mark crowded Sample.chart = .ok crowdedMarked ∧
    markBottomUp crowded Sample.chart = .ok crowdedMarked ∧
    (∀ e ∈ Sample.chart.starts, OneLine e.2.path) ∧
    ∃ extra, Marks Sample.chart (Text.linesOf crowded) extra ∧
      crowdedMarked = feed (interleave extra (Text.linesOf crowded)) ∧
      (interleave extra (Text.linesOf crowded)).length = 6 + 2 * (1 + 3) ∧
      Text.split '\n' crowdedMarked.toList =
        (interleave extra (Text.linesOf crowded)).map String.toList ++ [[]] := by
  have hkeys : (Sample.chart.nested.map Prod.fst).Nodup := by decide
  have htargets : ∀ e ∈ Sample.chart.starts, OneLine e.2.path := by decide
  have hcount : (Text.linesOf crowded).length = 6 := by decide +kernel
  have hnested : Sample.chart.nested.length = 3 := rfl
  obtain ⟨hsame, -, hall⟩ := mark_outcome hkeys crowded
  obtain ⟨extra, hmarks, htext, hlength, hsplit⟩ := hall crowdedMarked mark_crowded
  rw [hcount, hnested] at hlength
  exact ⟨hkeys, mark_crowded, hsame.symm.trans mark_crowded, htargets, extra, hmarks, htext, hlength, hsplit htargets⟩

end Dot

end Statechart
