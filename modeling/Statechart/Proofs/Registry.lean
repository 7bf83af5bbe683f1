import Mathlib
import Statechart.Proofs.Entry

namespace Statechart

def Binding.key (e : Binding) : Place × String :=
  (e.place, e.name)

theorem Binding.isAt_iff {p : Place} {name : String} {e : Binding} :
    e.isAt p name ↔ e.key = (p, name) := by
  simp [isAt, key]

namespace Bindings

variable {bs : List Binding} {p : Place} {name : String} {f : Binding → Binding} {e : Binding}

theorem find?_eq_none : find? bs p name = none ↔ (p, name) ∉ bs.map Binding.key := by
  simp only [find?, List.find?_eq_none, Binding.isAt_iff, List.mem_map, not_exists, not_and]

theorem find?_eq_some (h : find? bs p name = some e) : e ∈ bs ∧ e.key = (p, name) :=
  ⟨List.mem_of_find?_eq_some h, Binding.isAt_iff.1 (List.find?_some h)⟩

theorem map_key_update (hf : ∀ e, (f e).key = e.key) :
    (update bs p name f).map Binding.key = bs.map Binding.key := by
  rw [update, List.map_map]
  refine List.map_congr_left fun e _ => ?_
  by_cases h : e.isAt p name <;> simp [h, hf]

theorem mem_update : e ∈ update bs p name f ↔
    ∃ d ∈ bs, (d.key = (p, name) ∧ e = f d) ∨ (d.key ≠ (p, name) ∧ e = d) := by
  simp only [update, List.mem_map]
  refine exists_congr fun d => and_congr_right fun _ => ?_
  by_cases h : d.isAt p name
  · have hk := Binding.isAt_iff.1 h
    simp [h, hk, eq_comm]
  · have hk := Binding.isAt_iff.not.1 h
    simp [h, hk, eq_comm]

theorem declare_ok {kind : StateKind} {label : Option String} {line : Nat} {text : String}
    {bs' : List Binding} (h : declare bs p name kind label line text = .ok bs') :
    ((p, name) ∉ bs.map Binding.key ∧ bs' = bs ++ [⟨p, name, kind, label, line⟩]) ∨
      ∃ e ∈ bs, e.key = (p, name) ∧ ¬(kind.nests ∧ e.kind.nests) ∧
        bs' = update bs p name (merge kind label line) := by
  unfold declare at h
  split at h
  · rename_i hf
    cases h
    exact .inl ⟨find?_eq_none.1 hf, rfl⟩
  · rename_i e hf
    obtain ⟨he, hk⟩ := find?_eq_some hf
    split at h
    · cases h
    · rename_i hn
      cases h
      exact .inr ⟨e, he, hk, by simpa using hn, rfl⟩

end Bindings

structure Declaration where
  place : Place
  name : String
  kind : StateKind
  label : Option String
  line : Nat
  text : String

namespace Entry

def key? : Entry → Option (Place × String)
  | clause p c =>
    match c.item with
    | .declare name _ | .initial name => some (p, name)
    | _ => none
  | head p h _ => some (p, h.item.name)
  | region _ _ _ => none

def slot? : Entry → Option RegionSlot
  | region p name index =>
    some ⟨.child p.id? name, index, regionId (.child p.id? name) index⟩
  | _ => none

def initial? : Entry → Option Initial
  | clause p c =>
    match c.item with
    | .initial target => some ⟨p.scope, .child p.id? target, c.line⟩
    | _ => none
  | _ => none

def reference? : Entry → Option (Place × Located Clause)
  | clause p c =>
    match c.item with
    | .declare _ _ | .initial _ => none
    | _ => some (p, c)
  | _ => none

theorem eq_clause {x : Entry} {ref : Place × Located Clause} (h : x.reference? = some ref) :
    x = clause ref.1 ref.2 := by
  cases x with
  | clause p c =>
    cases hi : c.item <;> simp only [reference?, hi, Option.some.injEq, reduceCtorEq] at h <;> rw [← h]
  | head | region => cases h

def declares? : Entry → Option Declaration
  | clause p c =>
    match c.item with
    | .declare name label => some ⟨p, name, .simple, label, c.line, c.text⟩
    | .initial target => some ⟨p, target, .simple, none, c.line, c.text⟩
    | _ => none
  | head p h kind => some ⟨p, h.item.name, kind, h.item.label, h.line, h.text⟩
  | region _ _ _ => none

theorem key?_eq (x : Entry) : x.key? = x.declares?.map fun d => (d.place, d.name) := by
  cases x with
  | clause p c => cases hi : c.item <;> simp [key?, declares?, hi]
  | head | region => rfl

theorem kind_of_clause {p : Place} {c : Located Clause} {d : Declaration}
    (h : (clause p c).declares? = some d) : d.kind = .simple := by
  cases hi : c.item <;> simp only [declares?, hi, Option.some.injEq, reduceCtorEq] at h <;> rw [← h]

theorem exists_head {x : Entry} {d : Declaration} (h : x.declares? = some d) (hn : d.kind.nests) :
    ∃ p o kind, x = head p o kind := by
  cases x with
  | clause p c => simp [kind_of_clause h, StateKind.nests] at hn
  | head p o kind => exact ⟨p, o, kind, rfl⟩
  | region => cases h

end Entry

def Bindings.enter (bs : List Binding) : Option Declaration → Except Fault (List Binding)
  | none => .ok bs
  | some d => declare bs d.place d.name d.kind d.label d.line d.text

namespace Registry

/-- An entry declares at most one name, and what else it says comes after what was said before. -/
theorem enter_eq (r : Registry) (x : Entry) :
    r.enter x = (Bindings.enter r.bindings x.declares?).map fun bs =>
      ⟨bs, r.regions ++ x.slot?.toList, r.initials ++ x.initial?.toList,
        r.references ++ x.reference?.toList⟩ := by
  cases x with
  | clause p c =>
    rw [enter, addClause]
    cases hi : c.item with
    | declare name label =>
      simp only [Registry.declare, Entry.declares?, Entry.slot?, Entry.initial?, Entry.reference?,
        hi, Bindings.enter, Option.toList_none, List.append_nil]
      cases Bindings.declare r.bindings p name .simple label c.line c.text <;> rfl
    | initial target =>
      simp only [Registry.declare, Entry.declares?, Entry.slot?, Entry.initial?, Entry.reference?,
        hi, Bindings.enter, Option.toList_none, Option.toList_some, List.append_nil]
      cases Bindings.declare r.bindings p target .simple none c.line c.text <;> rfl
    | final | transition | description | note =>
      simp [Entry.declares?, Entry.slot?, Entry.initial?, Entry.reference?, hi, Bindings.enter,
        Except.map]
  | head p o kind =>
    rw [enter, Registry.declare]
    simp only [Entry.declares?, Entry.slot?, Entry.initial?, Entry.reference?, Bindings.enter,
      Option.toList_none, List.append_nil]
    cases Bindings.declare r.bindings p o.item.name kind o.item.label o.line o.text <;> rfl
  | region p name k =>
    simp [enter, addRegion, Entry.declares?, Entry.slot?, Entry.initial?, Entry.reference?,
      Bindings.enter, Except.map]

theorem enter_ok {r r' : Registry} {x : Entry} : r.enter x = .ok r' ↔
    ∃ bs, Bindings.enter r.bindings x.declares? = .ok bs ∧
      r' = ⟨bs, r.regions ++ x.slot?.toList, r.initials ++ x.initial?.toList,
        r.references ++ x.reference?.toList⟩ := by
  rw [enter_eq]
  cases Bindings.enter r.bindings x.declares? <;> simp [Except.map, eq_comm]

theorem enter_eq_error {r : Registry} {x : Entry} {f : Fault} (h : r.enter x = .error f) :
    ∃ d, x.declares? = some d ∧
      Bindings.declare r.bindings d.place d.name d.kind d.label d.line d.text = .error f := by
  rw [enter_eq] at h
  cases hd : x.declares? with
  | none => simp [hd, Bindings.enter, Except.map] at h
  | some d =>
    refine ⟨d, rfl, ?_⟩
    rw [hd, Bindings.enter] at h
    cases hbs : Bindings.declare r.bindings d.place d.name d.kind d.label d.line d.text with
    | ok bs => simp [hbs, Except.map] at h
    | error g => simpa [hbs, Except.map] using h

end Registry

theorem kindsAt_of_notMem {p : Place} {name : String} {es : List Entry}
    (h : (p, name) ∉ es.filterMap Entry.key?) : kindsAt p name es = [] := by
  refine List.filterMap_eq_nil_iff.2 fun e he => ?_
  cases e with
  | head q o kind =>
    refine if_neg fun hq => h (List.mem_filterMap.2 ⟨_, he, ?_⟩)
    rw [Entry.key?, hq.1, hq.2]
  | clause | region => rfl

structure Declared (es : List Entry) (bs : List Binding) : Prop where
  keys : (bs.map Binding.key).Nodup
  mem_keys : ∀ k, k ∈ bs.map Binding.key ↔ k ∈ es.filterMap Entry.key?
  kinds : ∀ e ∈ bs, kindsAt e.place e.name es = if e.kind.nests then [e.kind] else []
  leaf : ∀ e ∈ bs, e.kind ≠ .history

namespace Declared

variable {es : List Entry} {bs bs' : List Binding} {x : Entry}

theorem pass (h : Declared es bs) (hx : x.key? = none) : Declared (es ++ [x]) bs := by
  refine ⟨h.keys, fun k => ?_, fun e he => ?_, h.leaf⟩
  · rw [h.mem_keys, List.filterMap_append]
    simp [hx]
  · have hnil : kindsAt e.place e.name [x] = [] := kindsAt_of_notMem (by simp [hx])
    rw [kindsAt_append, h.kinds e he, hnil, List.append_nil]

section Declaration

variable {p : Place} {name : String} {kind : StateKind}

theorem keys_concat (hx : x.key? = some (p, name)) :
    (es ++ [x]).filterMap Entry.key? = es.filterMap Entry.key? ++ [(p, name)] := by
  simp [hx]

theorem kindsAt_other (hx : x.key? = some (p, name)) {e : Binding} (he : e.key ≠ (p, name)) :
    kindsAt e.place e.name [x] = [] := by
  refine kindsAt_of_notMem ?_
  simp only [List.filterMap_cons, hx, List.filterMap_nil, List.mem_singleton]
  exact he

theorem concat (h : Declared es bs) (hx : x.key? = some (p, name))
    (hk : kindsAt p name [x] = if kind.nests then [kind] else []) (hl : kind ≠ .history)
    (hnew : (p, name) ∉ bs.map Binding.key) (label : Option String) (line : Nat) :
    Declared (es ++ [x]) (bs ++ [⟨p, name, kind, label, line⟩]) := by
  refine ⟨?_, fun k => ?_, fun e he => ?_, fun e he => ?_⟩
  · rw [List.map_append, List.nodup_append]
    refine ⟨h.keys, by simp, ?_⟩
    rintro a ha b hb rfl
    rw [List.map_singleton, List.mem_singleton] at hb
    subst hb
    exact hnew ha
  · rw [keys_concat hx, List.map_append, List.mem_append, List.mem_append, h.mem_keys]
    simp [Binding.key]
  · rw [kindsAt_append]
    rcases List.mem_append.1 he with he | he
    · have hne : e.key ≠ (p, name) := fun hk => hnew (hk ▸ List.mem_map_of_mem he)
      rw [h.kinds e he, kindsAt_other hx hne, List.append_nil]
    · obtain rfl := List.mem_singleton.1 he
      rw [kindsAt_of_notMem (fun hm => hnew ((h.mem_keys _).2 hm)), List.nil_append]
      exact hk
  · rcases List.mem_append.1 he with he | he
    · exact h.leaf e he
    · exact List.mem_singleton.1 he ▸ hl

theorem merge (h : Declared es bs) (hx : x.key? = some (p, name))
    (hk : kindsAt p name [x] = if kind.nests then [kind] else []) (hl : kind ≠ .history)
    {d : Binding} (hdm : d ∈ bs) (hdk : d.key = (p, name)) (hnot : ¬(kind.nests ∧ d.kind.nests))
    (label : Option String) (line : Nat) :
    Declared (es ++ [x]) (Bindings.update bs p name (Bindings.merge kind label line)) := by
  have hmap : (Bindings.update bs p name (Bindings.merge kind label line)).map Binding.key =
      bs.map Binding.key := Bindings.map_key_update fun _ => rfl
  refine ⟨hmap ▸ h.keys, fun k => ?_, fun e he => ?_, fun e he => ?_⟩
  · rw [hmap, keys_concat hx, h.mem_keys, List.mem_append]
    refine ⟨.inl, fun hm => hm.elim id fun hm => ?_⟩
    rw [List.mem_singleton.1 hm, ← hdk, ← h.mem_keys]
    exact List.mem_map_of_mem hdm
  · rw [kindsAt_append]
    obtain ⟨c, hc, ⟨hck, rfl⟩ | ⟨hck, rfl⟩⟩ := Bindings.mem_update.1 he
    · obtain rfl : c = d := List.inj_on_of_nodup_map h.keys hc hdm (hck.trans hdk.symm)
      obtain ⟨rfl, rfl⟩ := Prod.mk.inj hck
      have hkinds : kindsAt c.place c.name es = if c.kind.nests then [c.kind] else [] :=
        h.kinds c hc
      -- of the two declarations one at most has a body, and its kind is kept
      by_cases hn : kind.nests
      · have hcn : ¬c.kind.nests := fun hcn => hnot ⟨hn, hcn⟩
        simpa [Bindings.merge, hn, hcn, hkinds] using hk
      · simpa [Bindings.merge, hn, hkinds] using hk
    · rw [h.kinds e hc, kindsAt_other hx hck, List.append_nil]
  · obtain ⟨c, hc, ⟨hck, rfl⟩ | ⟨hck, rfl⟩⟩ := Bindings.mem_update.1 he
    · unfold Bindings.merge
      split
      · exact hl
      · exact h.leaf c hc
    · exact h.leaf e hc

theorem declare {label : Option String} {line : Nat} {text : String} (h : Declared es bs)
    (hx : x.key? = some (p, name)) (hk : kindsAt p name [x] = if kind.nests then [kind] else [])
    (hl : kind ≠ .history) (hd : Bindings.declare bs p name kind label line text = .ok bs') :
    Declared (es ++ [x]) bs' := by
  rcases Bindings.declare_ok hd with ⟨hnew, rfl⟩ | ⟨d, hdm, hdk, hnot, rfl⟩
  · exact h.concat hx hk hl hnew label line
  · exact h.merge hx hk hl hdm hdk hnot label line

end Declaration

end Declared

theorem nests_of_head_mem {q p : Place} {b : Block} {h : Located Opening} {kind : StateKind}
    (hm : .head p h kind ∈ entriesOf q b) : kind.nests := by
  have hall : ∀ e ∈ entriesOf q b, ∀ p h kind, e = .head p h kind → kind.nests := by
    refine entriesOf_induction
      (M := fun _ es => ∀ e ∈ es, ∀ p h kind, e = .head p h kind → kind.nests)
      ⟨?_, ?_, ?_, ?_, ?_⟩ q b
    · simp
    · intro _ es fs hes hfs e he
      exact (List.mem_append.1 he).elim (hes e) (hfs e)
    · simp
    · intro p h b ih
      refine List.forall_mem_cons.2 ⟨?_, ih⟩
      rintro _ _ _ ⟨⟩
      rfl
    · intro p h bs _ ih
      refine List.forall_mem_cons.2 ⟨?_, fun e he => ?_⟩
      · rintro _ _ _ ⟨⟩
        rfl
      · obtain ⟨k, b, hb, rfl | he⟩ := mem_entriesOfRegions.1 he
        · simp
        · exact ih b (List.mem_of_getElem? hb) k e he
  exact hall _ hm p h kind rfl

theorem Entry.kindsAt_declares {q : Place} {b : Block} {x : Entry} {d : Declaration}
    (hx : x ∈ entriesOf q b) (hd : x.declares? = some d) :
    kindsAt d.place d.name [x] = (if d.kind.nests then [d.kind] else []) ∧ d.kind ≠ .history := by
  cases x with
  | clause p c =>
    rw [kind_of_clause hd]
    exact ⟨rfl, by simp⟩
  | head p o kind =>
    obtain rfl := Option.some.inj hd
    have hn : kind.nests := nests_of_head_mem hx
    refine ⟨by simp [kindsAt, hn], ?_⟩
    rintro rfl
    cases hn
  | region => cases hd

theorem Declared.enter {q : Place} {b : Block} {es : List Entry} {bs bs' : List Binding} {x : Entry}
    (hx : x ∈ entriesOf q b) (h : Declared es bs) (he : Bindings.enter bs x.declares? = .ok bs') :
    Declared (es ++ [x]) bs' := by
  have hkey := x.key?_eq
  cases hd : x.declares? with
  | none =>
    rw [hd] at he hkey
    cases he
    exact h.pass hkey
  | some d =>
    rw [hd] at he hkey
    obtain ⟨hkinds, hleaf⟩ := Entry.kindsAt_declares hx hd
    exact h.declare hkey hkinds hleaf he

structure Registered (es : List Entry) (r : Registry) : Prop where
  declared : Declared es r.bindings
  regions : r.regions = es.filterMap Entry.slot?
  initials : r.initials = es.filterMap Entry.initial?
  references : r.references = es.filterMap Entry.reference?

theorem filterMap_concat {α β : Type} (f : α → Option β) (l : List α) (a : α) :
    (l ++ [a]).filterMap f = l.filterMap f ++ (f a).toList := by
  rw [List.filterMap_append]
  cases h : f a <;> simp [h]

theorem Registered.enter {q : Place} {b : Block} {es : List Entry} {r r' : Registry} {x : Entry}
    (hx : x ∈ entriesOf q b) (h : Registered es r) (he : r.enter x = .ok r') :
    Registered (es ++ [x]) r' := by
  obtain ⟨bs, hbs, rfl⟩ := Registry.enter_ok.1 he
  constructor
  case declared => exact h.declared.enter hx hbs
  all_goals simp only [filterMap_concat, h.regions, h.initials, h.references]

theorem registered_ofBlock {b : Block} {r : Registry} (h : Registry.ofBlock b = .ok r) :
    Registered (entriesOf [] b) r := by
  refine foldlM_invariant Registered (fun es x s m hx hs hm => hs.enter hx hm) ?_
    ((Registry.addBlock_ok [] b).1 h)
  exact ⟨⟨by simp [Registry.empty], by simp [Registry.empty], by simp [Registry.empty],
    by simp [Registry.empty]⟩, rfl, rfl, rfl⟩

end Statechart
