import Mathlib
import Statechart.Proofs.Decoration
import Statechart.Proofs.KeptLines
import Statechart.Proofs.NoteOrder

namespace Statechart

namespace Insertion

def shift (n k : Nat) : Nat :=
  if k < n then k else k + 1

theorem strictMono_shift (n : Nat) : StrictMono (shift n) := by
  intro a b hab
  unfold shift
  split <;> split <;> omega

theorem shift_ne (n k : Nat) : shift n k ≠ n := by
  unfold shift
  split <;> omega

def moved (n : Nat) : Relocation :=
  .moving (shift n) (strictMono_shift n)

section Lines

variable {input other text : String} {before after : List String} {x : Located Event}
  {es : List (Located Event)}

theorem scan_inserted (hinput : (Text.linesOf input).map Text.trimmed = before ++ after)
    (hother : (Text.linesOf other).map Text.trimmed = before ++ text :: after)
    (hout : Event.within before = false)
    (hx : Event.Takes (before.length + 1) text none none [x]) (hes : Event.scan input = .ok es) :
    ∃ es₁ es₂, es.map (moved (before.length + 1)).located = es₁ ++ es₂ ∧
      Event.scan other = .ok (es₁ ++ x :: es₂) := by
  rw [Event.scan, hinput] at hes
  obtain ⟨note, es₁, es₂, rfl, hsome, hlow, hbefore, hafter⟩ := Event.exists_run (by simp) hes
  obtain rfl : note = none := by simpa using hsome.trans hout
  obtain ⟨_, ls, -, -, rfl⟩ := List.map_eq_append_iff.1 hinput
  have hline : ∀ k, (moved (before.length + 1)).line (1 + before.length + k) =
      before.length + 1 + 1 + id k := by
    intro k
    have hk : ¬1 + before.length + k < before.length + 1 := by omega
    show shift _ _ = _
    rw [shift, if_neg hk, id]
    omega
  have hrest := Layout.ofLines_relaid none (Layout.relaid_of_trimmed rfl false) rfl hline hafter
  have hstay : es₁.map (moved (before.length + 1)).located = es₁ := by
    refine (List.map_congr_left fun e he => ?_).trans (List.map_id es₁)
    have hlt : e.line < before.length + 1 := by
      have := hlow e he
      omega
    show (⟨e.item, shift _ e.line, e.text⟩ : Located Event) = e
    rw [shift, if_pos hlt]
  refine ⟨es₁, _, by rw [List.map_append, hstay], ?_⟩
  rw [Event.scan, hother]
  refine Event.ofLines_append (hbefore rfl) ?_
  rw [Nat.add_comm 1]
  exact Event.ofLines_of_takes hx hrest

end Lines

end Insertion

namespace BlockTree

variable {n : Nat}

mutual

def itemWithout (n : Nat) : Item → List Item
  | .clause c => if c.line = n then [] else [.clause c]
  | .composite head first more => [.composite head (blockWithout n first) (blocksWithout n more)]

def blockWithout (n : Nat) : List Item → List Item
  | [] => []
  | i :: is => itemWithout n i ++ blockWithout n is

def blocksWithout (n : Nat) : List (List Item) → List (List Item)
  | [] => []
  | b :: bs => blockWithout n b :: blocksWithout n bs

end

theorem blockWithout_append (n : Nat) (b c : Block) :
    blockWithout n (b ++ c) = blockWithout n b ++ blockWithout n c := by
  induction b with
  | nil => rfl
  | cons i b ih => rw [List.cons_append, blockWithout, blockWithout, ih, List.append_assoc]

theorem blockWithout_concat (n : Nat) (b : Block) (i : Item) :
    blockWithout n (b ++ [i]) = blockWithout n b ++ itemWithout n i := by
  rw [blockWithout_append, blockWithout, blockWithout, List.append_nil]

theorem blocksWithout_concat (n : Nat) (bs : List Block) (b : Block) :
    blocksWithout n (bs ++ [b]) = blocksWithout n bs ++ [blockWithout n b] := by
  induction bs with
  | nil => rfl
  | cons c bs ih => rw [List.cons_append, blocksWithout, blocksWithout, ih, List.cons_append]

def OpenBody.without (n : Nat) (o : OpenBody) : OpenBody where
  head := o.head
  regions := blocksWithout n o.regions
  current := blockWithout n o.current

theorem itemWithout_close (n : Nat) (o : OpenBody) :
    itemWithout n o.close = [(o.without n).close] := by
  obtain ⟨head, regions, current⟩ := o
  cases regions with
  | nil => rfl
  | cons r rs =>
    show [Item.composite _ _ (blocksWithout n (rs ++ [current]))] = _
    rw [blocksWithout_concat]
    rfl

def Progress.without (n : Nat) (p : Progress) : Progress where
  body := blockWithout n p.body
  direction := p.direction
  stack := p.stack.map (OpenBody.without n)

theorem itemWithout_eq (n : Nat) (i : Item) :
    itemWithout n i = [] ∨ ∃ j, itemWithout n i = [j] := by
  cases i with
  | clause c => exact (em (c.line = n)).imp (fun h => if_pos h) fun h => ⟨_, if_neg h⟩
  | composite head first more => exact .inr ⟨_, rfl⟩

theorem Progress.without_add (p : Progress) (i : Item) :
    (p.add i).without n = (itemWithout n i).foldl add (p.without n) := by
  obtain ⟨body, direction, _ | ⟨o, os⟩⟩ := p <;>
    rcases itemWithout_eq n i with h | ⟨j, h⟩ <;>
    simp [add, without, OpenBody.without, blockWithout_concat, h]

theorem Progress.step_without {p q : Progress} {e : Located Event} (he : e.line ≠ n)
    (h : p.step e = .ok q) : (p.without n).step e = .ok (q.without n) := by
  cases step_ok.1 h with
  | clause c k text =>
    have hkeep : itemWithout n (.clause ⟨c, k, text⟩) = [.clause ⟨c, k, text⟩] := if_neg he
    rw [step, without_add, hkeep]
    rfl
  | opening => rfl
  | separator hs =>
    have hstack := congrArg (List.map (OpenBody.without n)) hs
    refine step_ok.2 ?_
    convert Takes.separator (p := p.without n) hstack _ _ using 1
    simp [without, OpenBody.without, blocksWithout_concat]
    rfl
  | @close o os hs =>
    have hstack := congrArg (List.map (OpenBody.without n)) hs
    refine step_ok.2 ?_
    convert Takes.close (p := p.without n) hstack _ _ using 1
    rw [without_add, itemWithout_close]
    rfl
  | direction d =>
    obtain ⟨body, direction, stack⟩ := p
    cases stack <;> rfl

theorem Progress.without_of_step {p q : Progress} {e : Located Event} (he : e.line = n)
    (hc : ∃ c, e.item = .clause c) (h : p.step e = .ok q) : q.without n = p.without n := by
  obtain ⟨item, k, text⟩ := e
  obtain ⟨c, rfl⟩ := hc
  cases h
  have hgone : itemWithout n (.clause ⟨c, k, text⟩) = [] := if_pos he
  rw [without_add, hgone]
  rfl

def without (n : Nat) (t : BlockTree) : BlockTree where
  body := blockWithout n t.body
  direction := t.direction

theorem ofEvents_without {es : List (Located Event)} {t : BlockTree} (h : ofEvents es = .ok t)
    (hc : ∀ e ∈ es, e.line = n → ∃ c, e.item = .clause c) :
    ofEvents (es.filter fun e => e.line ≠ n) = .ok (t.without n) := by
  refine ofEvents_ok.2 (foldlM_filter_ok (φ := Progress.without n)
    (fun e _ he p q hs => Progress.step_without (by simpa using he) hs)
    (fun e hmem he p q hs => ?_) (ofEvents_ok.1 h))
  have hline : e.line = n := by simpa using he
  exact Progress.without_of_step hline (hc e hmem hline) hs

end BlockTree

def Entry.isOn (n : Nat) : Entry → Bool
  | .clause _ c => c.line = n
  | .head _ _ _ | .region _ _ _ => false

section Entries

open BlockTree

variable {n : Nat}

mutual

theorem entriesOf_itemWithout (n : Nat) (p : Place) : ∀ i : Item,
    entriesOf p (itemWithout n i) = (i.entries p).filter fun x => !x.isOn n
  | .clause c => by
    by_cases hc : c.line = n <;> simp [itemWithout, entriesOf, Item.entries, Entry.isOn, hc]
  | .composite head first [] => by
    simp [itemWithout, blocksWithout, entriesOf, Item.entries, Entry.isOn,
      entriesOf_blockWithout n _ first]
  | .composite head first (b :: bs) => by
    have hmore := entriesOf_blocksWithout n p head.item.name 1 (b :: bs)
    rw [blocksWithout] at hmore
    simp [itemWithout, blocksWithout, entriesOf, Item.entries, Entry.isOn, hmore,
      entriesOf_blockWithout n _ first]

theorem entriesOf_blockWithout (n : Nat) (p : Place) : ∀ b : List Item,
    entriesOf p (blockWithout n b) = (entriesOf p b).filter fun x => !x.isOn n
  | [] => rfl
  | i :: is => by
    rw [blockWithout, entriesOf_append, entriesOf, List.filter_append, entriesOf_itemWithout n p i,
      entriesOf_blockWithout n p is]

theorem entriesOf_blocksWithout (n : Nat) (p : Place) (name : String) (index : Nat) :
    ∀ bs : List (List Item), entriesOfRegions p name index (blocksWithout n bs) =
      (entriesOfRegions p name index bs).filter fun x => !x.isOn n
  | [] => rfl
  | b :: bs => by
    simp [blocksWithout, entriesOfRegions, Entry.isOn, entriesOf_blockWithout n _ b,
      entriesOf_blocksWithout n p name (index + 1) bs]

end

end Entries

def Located.IsNoteOn (n : Nat) (c : Located Clause) : Prop :=
  c.line = n ∧ ∃ name side text, c.item = .note name side text

namespace Registry

variable {n : Nat} {r r' : Registry} {x : Entry}

def without (n : Nat) (r : Registry) : Registry :=
  { r with references := r.references.filter fun ref => ref.2.line ≠ n }

theorem enter_without (hx : x.isOn n = false) (h : r.enter x = .ok r') :
    (r.without n).enter x = .ok (r'.without n) := by
  obtain ⟨bs, hbs, rfl⟩ := enter_ok.1 h
  have hline : ∀ q c, x.reference? = some (q, c) → c.line ≠ n := by
    intro q c href
    obtain rfl := Entry.eq_clause href
    simpa [Entry.isOn] using hx
  exact enter_ok.2 ⟨bs, hbs, by simpa [without] using hline⟩

theorem without_of_enter (hx : x.isOn n) (hc : ∀ p c, x = .clause p c → c.IsNoteOn n)
    (h : r.enter x = .ok r') : r'.without n = r.without n := by
  cases x with
  | head | region => cases hx
  | clause p c =>
    obtain ⟨hline, name, side, text, hi⟩ := hc p c rfl
    simp only [enter, addClause, hi] at h
    cases h
    simp [without, hline]

theorem ofBlock_without {b : Block} (h : ofBlock b = .ok r)
    (hc : ∀ p c, .clause p c ∈ entriesOf [] b → c.line = n → c.IsNoteOn n) :
    ofBlock (BlockTree.blockWithout n b) = .ok (r.without n) := by
  rw [ofBlock, addBlock_ok] at h ⊢
  rw [entriesOf_blockWithout]
  refine foldlM_filter_ok (φ := without n) (fun x _ hx q q' hs => enter_without (by simpa using hx) hs)
    (fun x hmem hx q q' hs => ?_) h
  refine without_of_enter (by simpa using hx) (fun p c hxc => ?_) hs
  subst hxc
  exact hc p c hmem (by simpa [Entry.isOn] using hx)

end Registry

namespace Bindings

section Map

variable {bs : List Binding} {p : Place} {name : String} {e : Binding} {f : Binding → Binding}
  (hf : ∀ e, (f e).key = e.key)
include hf

theorem find?_map (q : Place) : find? (bs.map f) q name = (find? bs q name).map f := by
  have hat : (Binding.isAt q name ∘ f) = Binding.isAt q name := by
    funext d
    obtain ⟨hplace, hname⟩ := Prod.mk.inj (hf d)
    simp [Binding.isAt, hplace, hname]
  rw [find?, List.find?_map, hat, find?]

theorem inside_map : inside (bs.map f) p name = (inside bs p name).map f := by
  rw [inside, List.filter_map, inside]
  congr 2
  funext d
  obtain ⟨hplace, hname⟩ := Prod.mk.inj (hf d)
  simp [hplace, hname]

theorem findSome?_map (qs : List Place) :
    (qs.findSome? fun q => find? (bs.map f) q name) =
      (qs.findSome? fun q => find? bs q name).map f := by
  simp only [find?_map hf]
  induction qs with
  | nil => rfl
  | cons q qs ih =>
    rw [List.findSome?_cons, List.findSome?_cons, ih]
    cases find? bs q name <;> rfl

theorem lookup_map (h : lookup bs p name = .ok (some e)) :
    lookup (bs.map f) p name = .ok (some (f e)) := by
  rw [lookup_eq_ok, findSome?_map hf, inside_map hf]
  obtain ⟨d, hd, he⟩ | ⟨hnone, hin⟩ := lookup_eq_ok.1 h
  · obtain rfl := Option.some.inj he
    exact .inl ⟨f e, by rw [hd, Option.map_some], rfl⟩
  · exact .inr ⟨by rw [hnone, Option.map_none], by rw [hin]; rfl⟩

end Map

def unlined (e : Binding) : Binding :=
  { e with line := 0 }

theorem map_unlined_mention (bs : List Binding) (e : Binding) (line : Nat) :
    (mention bs e line).map unlined = bs.map unlined := by
  rw [mention, update, List.map_map]
  refine List.map_congr_left fun d _ => ?_
  rw [Function.comp_apply]
  split <;> rfl

theorem mention_unlined (bs : List Binding) (e : Binding) (line : Nat) :
    mention (bs.map unlined) e line = bs.map unlined := by
  rw [mention, update, List.map_map]
  refine List.map_congr_left fun d _ => ?_
  rw [Function.comp_apply]
  split
  · simp [Binding.seenAt, unlined]
  · rfl

end Bindings

namespace Resolution

open Bindings

variable {n : Nat} {r r' : Resolution} {ref : Place × Located Clause}

/-- A resolution without the notes on line `n`, and without the lines of first mentions. -/
def without (n : Nat) (r : Resolution) : Resolution :=
  { r with
    bindings := r.bindings.map unlined
    notes := r.notes.filter fun m => m.line ≠ n }

theorem stepNote_without (hline : ref.2.line ≠ n) (h : stepNote r ref = .ok r') :
    stepNote (r.without n) ref = .ok (r'.without n) := by
  rcases stepNote_eq_ok.1 h with ⟨hi, rfl⟩ | ⟨name, side, text, e, hi, he, rfl⟩
  · exact stepNote_eq_ok.2 (.inl ⟨hi, rfl⟩)
  · have hfound := lookup_map (f := unlined) (fun _ => rfl) he
    refine stepNote_eq_ok.2 (.inr ⟨name, side, text, unlined e, hi, hfound, ?_⟩)
    simp [without, map_unlined_mention, mention_unlined, hline]
    rfl

theorem without_of_stepNote (hline : ref.2.line = n) (h : stepNote r ref = .ok r') :
    r'.without n = r.without n := by
  rcases stepNote_eq_ok.1 h with ⟨hi, rfl⟩ | ⟨name, side, text, e, hi, he, rfl⟩
  · rfl
  · simp [without, map_unlined_mention, hline]

theorem foldlM_stepNote_without {refs : List (Place × Located Clause)}
    (h : refs.foldlM stepNote r = .ok r') :
    (refs.filter fun ref => ref.2.line ≠ n).foldlM stepNote (r.without n) = .ok (r'.without n) :=
  foldlM_filter_ok (φ := without n) (fun _ _ href _ _ hs => stepNote_without (by simpa using href) hs)
    (fun _ _ href _ _ hs => without_of_stepNote (by simpa using href) hs) h

theorem ofRegistry_without {g : Registry} {s s' : Resolution} (h' : ofRegistry g = .ok s')
    (h : ofRegistry (g.without n) = .ok s)
    (hc : ∀ ref ∈ g.references, ref.2.line = n → ref.2.IsNoteOn n) :
    s'.transitions = s.transitions ∧ s'.without n = s.without n := by
  obtain ⟨t', ht', hs'⟩ := ofRegistry_ok.1 h'
  obtain ⟨t, ht, hs⟩ := ofRegistry_ok.1 h
  -- a note is passed over before the others are resolved
  have hsame : (g.references.filter fun ref => ref.2.line ≠ n).foldlM step _ = .ok _ :=
    foldlM_filter_ok (φ := id) (fun _ _ _ _ _ hstep => hstep)
      (fun ref href hline q q' hstep => by
        obtain ⟨-, name, side, text, hi⟩ := hc ref href (by simpa using hline)
        simp only [step, hi] at hstep
        exact (Except.ok.inj hstep).symm) ht'
  obtain rfl : t = t' := Except.ok.inj (ht.symm.trans hsame)
  have hrun' := foldlM_stepNote_without (n := n) hs'
  have hrun := foldlM_stepNote_without (n := n) hs
  have hfilter : ((g.without n).references.filter fun ref => ref.2.line ≠ n) =
      g.references.filter fun ref => ref.2.line ≠ n := by
    simp [Registry.without]
  rw [hfilter] at hrun
  have heq : s'.without n = s.without n := Except.ok.inj (hrun'.symm.trans hrun)
  have htransitions : (s'.without n).transitions = (s.without n).transitions := by rw [heq]
  exact ⟨htransitions, heq⟩

end Resolution

open History

/-- One chart is the other with a note among the others. Its states may come in another order and
    be mentioned on other lines. -/
structure FlatChart.Noted (f f' : FlatChart) (n : Note) : Prop where
  states : (f'.states.map unplaced).Perm (f.states.map unplaced)
  transitions : f'.transitions = f.transitions
  notes : ∃ before after, f.notes = before ++ after ∧ f'.notes = before ++ n :: after

theorem map_unplaced_sortByLine (bs : List Binding) :
    (((Bindings.sortByLine bs).map Binding.toState).map unplaced).Perm
      ((bs.map Bindings.unlined).map Binding.toState) := by
  have hsame : (bs.map Binding.toState).map unplaced =
      (bs.map Bindings.unlined).map Binding.toState := by
    rw [List.map_map, List.map_map]
    rfl
  exact hsame ▸ ((Bindings.sortByLine_perm bs).map Binding.toState).map unplaced

namespace Drawn

variable {b : Block} {home : Place → String → Place} {f : FlatChart} {n : Note}

theorem exists_reference (h : Drawn b home f) (hn : n ∈ f.notes) :
    ∃ p c, .clause p c ∈ entriesOf [] b ∧ Resolution.note? home (p, c) = some n := by
  rw [h.notes] at hn
  obtain ⟨⟨p, c⟩, href, hc⟩ := List.mem_filterMap.1 hn
  exact ⟨p, c, (mem_references href).1, hc⟩

theorem line_of_note? {ref : Place × Located Clause} (h : Resolution.note? home ref = some n) :
    ref.2.line = n.line := by
  obtain ⟨-, -, -, -, rfl⟩ := Resolution.note?_eq_some.1 h
  rfl

theorem pairwise_notes (h : Drawn b home f)
    (hlines : ((entriesOf [] b).filterMap Entry.line?).Pairwise (· < ·)) :
    f.notes.Pairwise fun m n => m.line < n.line := by
  have hline : ∀ {x : Entry} {m : Note},
      (x.reference?.bind (Resolution.note? home)) = some m → x.line? = some m.line := by
    intro x m hm
    obtain ⟨⟨p, c⟩, href, hc⟩ := Option.bind_eq_some_iff.1 hm
    have hmem : (p, c) ∈ [x].filterMap Entry.reference? := by simp [href]
    obtain rfl := List.mem_singleton.1 (mem_references hmem).1
    exact congrArg some (line_of_note? hc)
  rw [h.notes, references, List.filterMap_filterMap, List.pairwise_filterMap]
  rw [List.pairwise_filterMap] at hlines
  refine hlines.imp fun {x y} hlt => ?_
  intro m hm m' hm'
  exact hlt m.line (hline hm) m'.line (hline hm')

end Drawn

theorem filter_append_cons {α : Type} {p : α → Bool} {x : α} {xs ys : List α} (hx : p x = false)
    (h : ∀ y ∈ xs ++ ys, p y) : (xs ++ x :: ys).filter p = xs ++ ys := by
  rw [List.filter_append, List.filter_cons_of_neg (by simp [hx]), ← List.filter_append,
    List.filter_eq_self.2 h]

theorem exists_filter_note {ns : List Note} {n : Note} {k : Nat}
    (hlines : ns.Pairwise fun m m' => m.line < m'.line) (hn : n ∈ ns) (hk : n.line = k) :
    ∃ before after, (ns.filter fun m => m.line ≠ k) = before ++ after ∧
      ns = before ++ n :: after := by
  obtain ⟨before, after, rfl⟩ := List.append_of_mem hn
  obtain ⟨-, hlater, hearlier⟩ := List.pairwise_append.1 hlines
  refine ⟨before, after, filter_append_cons (by simpa using hk) fun m hm => ?_, rfl⟩
  refine decide_eq_true ?_
  subst hk
  rcases List.mem_append.1 hm with hm | hm
  · exact (hearlier m hm n List.mem_cons_self).ne
  · exact ((List.pairwise_cons.1 hlater).1 m hm).ne'

theorem FlatChart.noted_of_without {t : BlockTree} {f f' : FlatChart} {n : Note} {k : Nat}
    (h' : FlatChart.ofBlocks t = .ok f') (h : FlatChart.ofBlocks (t.without k) = .ok f)
    (hc : ∀ p c, .clause p c ∈ entriesOf [] t.body → c.line = k → c.IsNoteOn k)
    (hold : ∀ m ∈ f.notes, m.line ≠ k)
    (hlines : f'.notes.Pairwise fun m m' => m.line < m'.line) (hn : n ∈ f'.notes)
    (hk : n.line = k) : f.Noted f' n := by
  obtain ⟨g', s', hg', hs', rfl⟩ := FlatChart.ofBlocks_ok.1 h'
  obtain ⟨g, s, hg, hs, rfl⟩ := FlatChart.ofBlocks_ok.1 h
  obtain rfl := Except.ok.inj (hg.symm.trans (Registry.ofBlock_without hg' hc))
  have hnotes : ∀ ref ∈ g'.references, ref.2.line = k → ref.2.IsNoteOn k := by
    intro ref href
    rw [(registered_ofBlock hg').references] at href
    exact hc ref.1 ref.2 (mem_references href).1
  obtain ⟨htransitions, hsame⟩ := Resolution.ofRegistry_without hs' hs hnotes
  refine ⟨?_, htransitions, ?_⟩
  · have hbindings : s'.bindings.map Bindings.unlined = s.bindings.map Bindings.unlined :=
      congrArg Resolution.bindings hsame
    exact (map_unplaced_sortByLine _).trans (hbindings ▸ (map_unplaced_sortByLine _).symm)
  · obtain ⟨before, after, hrest, hall⟩ := exists_filter_note hlines hn hk
    have hfilter : (s'.notes.filter fun m => m.line ≠ k) = s.notes.filter fun m => m.line ≠ k :=
      congrArg Resolution.notes hsame
    have hself : (s.notes.filter fun m => m.line ≠ k) = s.notes :=
      List.filter_eq_self.2 fun m hm => decide_eq_true (hold m hm)
    exact ⟨before, after, hself.symm.trans (hfilter.symm.trans hrest), hall⟩

namespace Insertion

section Events

variable {es es₁ es₂ : List (Located Event)} {e x : Located Event} {c : Clause} {text : String}
  {k : Nat} {t t' : BlockTree}

theorem eq_of_mem_inserted (hoff : ∀ e ∈ es₁ ++ es₂, e.line ≠ k) (he : e ∈ es₁ ++ x :: es₂)
    (hk : e.line = k) : e = x := by
  rcases List.mem_cons.1 (List.perm_middle.mem_iff.1 he) with heq | hold
  · exact heq
  · exact absurd hk (hoff e hold)

theorem clause_of_inserted (hoff : ∀ e ∈ es₁ ++ es₂, e.line ≠ k)
    (ht' : BlockTree.ofEvents (es₁ ++ ⟨.clause c, k, text⟩ :: es₂) = .ok t') {p : Place}
    {d : Located Clause} (hd : .clause p d ∈ entriesOf [] t'.body) (hk : d.line = k) :
    d = ⟨c, k, text⟩ := by
  have hfrom := (BlockTree.grows_comesFrom _).of_ofEvents ht' [] _ hd _ rfl
  obtain ⟨item, line, source⟩ := d
  cases eq_of_mem_inserted hoff hfrom hk
  rfl

theorem tree_of_inserted (hoff : ∀ e ∈ es₁ ++ es₂, e.line ≠ k)
    (hmoved : es.map (moved k).located = es₁ ++ es₂) (ht : BlockTree.ofEvents es = .ok t)
    (ht' : BlockTree.ofEvents (es₁ ++ ⟨.clause c, k, text⟩ :: es₂) = .ok t') :
    t'.without k = (moved k).tree t := by
  have hwithout := BlockTree.ofEvents_without ht' fun e he hk =>
    ⟨c, congrArg Located.item (eq_of_mem_inserted hoff he hk)⟩
  have hothers : ((es₁ ++ ⟨.clause c, k, text⟩ :: es₂).filter fun e => e.line ≠ k) = es₁ ++ es₂ :=
    filter_append_cons (by simp) fun e he => decide_eq_true (hoff e he)
  have hold := Relocation.ofEvents_events (m := moved k) ht 0
  rw [hothers, ← hmoved] at hwithout
  exact Except.ok.inj (hwithout.symm.trans hold)

end Events

variable {input other text name words : String} {before after : List String} {side : NoteSide}
  {f f' : FlatChart} {n : Note}

theorem noted_of_text (hinput : (Text.linesOf input).map Text.trimmed = before ++ after)
    (hother : (Text.linesOf other).map Text.trimmed = before ++ text :: after)
    (hout : Event.within before = false)
    (hx : Event.Takes (before.length + 1) text none none
      [⟨.clause (.note name side words), before.length + 1, text⟩])
    (hf : FlatChart.ofText input = .ok f) (hf' : FlatChart.ofText other = .ok f')
    (hn : n ∈ f'.notes) (hline : n.line = before.length + 1) :
    n.text = words ∧ ((moved (before.length + 1)).flat f).Noted f' n := by
  obtain ⟨es, t, hes, ht, hb⟩ := ofText_ok hf
  obtain ⟨es', t', hes', ht', hb'⟩ := ofText_ok hf'
  obtain ⟨es₁, es₂, hmoved, hscan⟩ := scan_inserted hinput hother hout hx hes
  obtain rfl := Except.ok.inj (hes'.symm.trans hscan)
  have hoff : ∀ e ∈ es₁ ++ es₂, e.line ≠ before.length + 1 := by
    rw [← hmoved, List.forall_mem_map]
    exact fun e _ => shift_ne _ _
  have hflat : FlatChart.ofBlocks (t'.without (before.length + 1)) =
      .ok ((moved (before.length + 1)).flat f) :=
    tree_of_inserted hoff hmoved ht ht' ▸ Relocation.ofBlocks_flat hb fun s _ w hw => nomatch hw
  obtain ⟨home, hdrawn⟩ := drawn_ofBlocks (wellNamed_of_text hes' ht') hb'
  constructor
  · obtain ⟨p, c, hmem, hc⟩ := hdrawn.exists_reference hn
    obtain rfl := clause_of_inserted hoff ht' hmem ((Drawn.line_of_note? hc).trans hline)
    cases hc
    rfl
  · refine FlatChart.noted_of_without hb' hflat (fun p c hmem hc => ?_) ?_ ?_ hn hline
    · exact ⟨hc, name, side, words, by rw [clause_of_inserted hoff ht' hmem hc]⟩
    · exact List.forall_mem_map.2 fun m _ => shift_ne _ _
    · exact hdrawn.pairwise_notes (increasing_lines_of_text hes' ht')

end Insertion

end Statechart
