import Mathlib
import Statechart.Proofs.Relocation
import Statechart.Proofs.Resolution

namespace Statechart

namespace Relocation

variable {m : Relocation} {bs bs' : List Binding} {p : Place} {name : String}

def Free (m : Relocation) (name : String) : Prop :=
  ∀ w ∈ m.wrapper, name ≠ w

section Items

mutual

def item (m : Relocation) : Item → Item
  | .clause c => .clause (m.located c)
  | .composite head first more => .composite (m.located head) (block m first) (blocks m more)

def block (m : Relocation) : List Item → List Item
  | [] => []
  | i :: is => item m i :: block m is

def blocks (m : Relocation) : List (List Item) → List (List Item)
  | [] => []
  | b :: bs => block m b :: blocks m bs

end

theorem block_append (m : Relocation) (b c : Block) : m.block (b ++ c) = m.block b ++ m.block c := by
  induction b with
  | nil => rfl
  | cons i b ih => rw [List.cons_append, block, block, ih, List.cons_append]

theorem blocks_append (m : Relocation) (bs cs : List Block) :
    m.blocks (bs ++ cs) = m.blocks bs ++ m.blocks cs := by
  induction bs with
  | nil => rfl
  | cons b bs ih => rw [List.cons_append, blocks, blocks, ih, List.cons_append]

end Items

section Bindings

theorem isAt_binding (m : Relocation) (p : Place) (name : String) (e : Binding) :
    (m.binding e).isAt (m.place p) name = e.isAt p name := by
  show (decide (m.place e.place = m.place p) && decide (e.name = name)) = _
  rw [decide_eq_decide.2 place_inj]
  rfl

theorem place_ne_nil {w : String} (h : w ∈ m.wrapper) (p : Place) : m.place p ≠ [] := by
  rw [place, home_of_mem h]
  exact List.append_ne_nil_of_right_ne_nil p (List.cons_ne_nil _ _)

theorem mem_shell {e : Binding} :
    e ∈ m.shell ↔ ∃ w ∈ m.wrapper, e = ⟨[], w, .composite, none, 1⟩ := by
  simp [shell, eq_comm]

theorem isAt_shell {e : Binding} (he : e ∈ m.shell) (p : Place) (name : String) :
    e.isAt (m.place p) name = false := by
  obtain ⟨w, hw, rfl⟩ := mem_shell.1 he
  have hne : [] ≠ m.place p := (place_ne_nil hw p).symm
  simp [Binding.isAt, hne]

theorem find?_bindings (m : Relocation) (bs : List Binding) (p : Place) (name : String) :
    Bindings.find? (m.bindings bs) (m.place p) name = (Bindings.find? bs p name).map m.binding := by
  have hshell : m.shell.find? (Binding.isAt (m.place p) name) = none :=
    List.find?_eq_none.2 fun e he => by simp [isAt_shell he]
  have hsame : Binding.isAt (m.place p) name ∘ m.binding = Binding.isAt p name :=
    funext fun e => m.isAt_binding p name e
  rw [Bindings.find?, bindings, List.find?_append, hshell, Option.none_or, List.find?_map, hsame]
  rfl

theorem update_bindings {f f' : Binding → Binding} (hf : ∀ e, f' (m.binding e) = m.binding (f e))
    (bs : List Binding) (p : Place) (name : String) :
    Bindings.update (m.bindings bs) (m.place p) name f' =
      m.bindings (Bindings.update bs p name f) := by
  have hshell : ∀ e ∈ m.shell, (if e.isAt (m.place p) name then f' e else e) = e := by
    intro e he
    rw [isAt_shell he]
    rfl
  rw [Bindings.update, bindings, List.map_append, List.map_congr_left hshell, List.map_id', bindings,
    Bindings.update, List.map_map, List.map_map]
  refine congrArg _ (List.map_congr_left fun e _ => ?_)
  simp only [Function.comp_apply, isAt_binding, hf]
  split <;> rfl

theorem merge_binding (m : Relocation) (kind : StateKind) (label : Option String) (line : Nat)
    (e : Binding) : Bindings.merge kind label (m.line line) (m.binding e) =
      m.binding (Bindings.merge kind label line e) := by
  simp only [Bindings.merge, binding, m.increasing.monotone.map_min]

theorem seenAt_binding (m : Relocation) (line : Nat) (e : Binding) :
    (m.binding e).seenAt (m.line line) = m.binding (e.seenAt line) := by
  simp only [Binding.seenAt, binding, m.increasing.monotone.map_min]

theorem bindings_concat (m : Relocation) (bs : List Binding) (e : Binding) :
    m.bindings (bs ++ [e]) = m.bindings bs ++ [m.binding e] := by
  rw [bindings, bindings, List.map_append, List.append_assoc]
  rfl

theorem declare_bindings {kind : StateKind} {label : Option String} {line : Nat} {text : String}
    (h : Bindings.declare bs p name kind label line text = .ok bs') :
    Bindings.declare (m.bindings bs) (m.place p) name kind label (m.line line) text =
      .ok (m.bindings bs') := by
  unfold Bindings.declare at h ⊢
  rw [find?_bindings]
  split at h
  · rename_i hf
    cases h
    rw [hf, bindings_concat]
    rfl
  · rename_i e hf
    rw [hf]
    split at h
    · cases h
    · rename_i hn
      cases h
      simp only [Option.map_some]
      rw [if_neg (show ¬(kind.nests && (m.binding e).kind.nests) from hn),
        update_bindings (m.merge_binding kind label line)]

end Bindings

section Registry

variable {r r' : Registry}

def reference (m : Relocation) (ref : Place × Located Clause) : Place × Located Clause :=
  (m.place ref.1, m.located ref.2)

def registry (m : Relocation) (r : Registry) : Registry where
  bindings := m.bindings r.bindings
  regions := r.regions.map m.slot
  initials := m.initials r.initials
  references := r.references.map m.reference

def entry (m : Relocation) : Entry → Entry
  | .clause p c => .clause (m.place p) (m.located c)
  | .head p o kind => .head (m.place p) (m.located o) kind
  | .region p name index => .region (m.place p) name index

def declaration (m : Relocation) (d : Declaration) : Declaration :=
  { d with
    place := m.place d.place
    line := m.line d.line }

theorem declares?_entry (m : Relocation) (x : Entry) :
    (m.entry x).declares? = x.declares?.map m.declaration := by
  cases x with
  | clause p c => cases hi : c.item <;> simp [entry, Entry.declares?, located, hi, declaration]
  | head | region => rfl

theorem slot?_entry (m : Relocation) (x : Entry) : (m.entry x).slot? = x.slot?.map m.slot := by
  cases x with
  | clause | head => rfl
  | region p name index =>
    simp only [entry, Entry.slot?, Option.map_some, slot, regionId, id?_place, child_around,
      child_under]

theorem initial?_entry (m : Relocation) (x : Entry) :
    (m.entry x).initial? = x.initial?.map m.initial := by
  cases x with
  | clause p c =>
    cases hi : c.item <;>
      simp [entry, Entry.initial?, located, hi, initial, scope_place, id?_place, child_around]
  | head | region => rfl

theorem reference?_entry (m : Relocation) (x : Entry) :
    (m.entry x).reference? = x.reference?.map m.reference := by
  cases x with
  | clause p c => cases hi : c.item <;> simp [entry, Entry.reference?, located, hi, reference]
  | head | region => rfl

theorem enter_bindings {d : Option Declaration} (h : Bindings.enter bs d = .ok bs') :
    Bindings.enter (m.bindings bs) (d.map m.declaration) = .ok (m.bindings bs') := by
  cases d with
  | none =>
    cases h
    rfl
  | some d => exact declare_bindings h

theorem initials_append (m : Relocation) (is js : List Initial) :
    m.initials (is ++ js) = m.initials is ++ js.map m.initial := by
  rw [initials, initials, List.map_append, List.append_assoc]

theorem enter_registry {x : Entry} (h : r.enter x = .ok r') :
    (m.registry r).enter (m.entry x) = .ok (m.registry r') := by
  obtain ⟨bs, hbs, rfl⟩ := Registry.enter_ok.1 h
  have hmoved := enter_bindings (m := m) hbs
  refine Registry.enter_ok.2 ⟨m.bindings bs, by rwa [declares?_entry], ?_⟩
  simp only [registry, slot?_entry, initial?_entry, reference?_entry, Option.toList_map,
    List.map_append, initials_append]

mutual

theorem entries_item (m : Relocation) (p : Place) : ∀ i : Item,
    (m.item i).entries (m.place p) = (i.entries p).map m.entry
  | .clause c => rfl
  | .composite head first [] => by
    rw [item, blocks, Item.entries, Item.entries, List.map_cons,
      ← entriesOf_block m (.body head.item.name :: p) first]
    rfl
  | .composite head first (b :: bs) => by
    have hmore := entriesOf_blocks m p head.item.name 1 (b :: bs)
    rw [blocks] at hmore
    rw [item, blocks, Item.entries, Item.entries, List.map_cons, List.map_cons, List.map_append,
      ← entriesOf_block m (.region head.item.name 0 :: p) first, ← hmore]
    rfl

theorem entriesOf_block (m : Relocation) (p : Place) : ∀ b : List Item,
    entriesOf (m.place p) (m.block b) = (entriesOf p b).map m.entry
  | [] => rfl
  | i :: is => by
    rw [block, entriesOf, entriesOf, List.map_append, entries_item m p i, entriesOf_block m p is]

theorem entriesOf_blocks (m : Relocation) (p : Place) (name : String) (index : Nat) :
    ∀ bs : List (List Item), entriesOfRegions (m.place p) name index (m.blocks bs) =
      (entriesOfRegions p name index bs).map m.entry
  | [] => rfl
  | b :: bs => by
    rw [blocks, entriesOfRegions, entriesOfRegions, List.map_cons, List.map_append,
      ← entriesOf_block m (.region name index :: p) b, entriesOf_blocks m p name (index + 1) bs]
    rfl

end

theorem addBlock_registry {b : Block} (h : Registry.addBlock p r b = .ok r') :
    Registry.addBlock (m.place p) (m.registry r) (m.block b) = .ok (m.registry r') := by
  rw [Registry.addBlock_ok] at h ⊢
  rw [entriesOf_block]
  exact (foldlM_map_ok (fun _ => True) (fun x _ s q hx _ => ⟨trivial, enter_registry hx⟩) h trivial).2

end Registry

section Lookup

variable {e : Binding} {c : Located Clause} {id : NodeId}

theorem find?_outermost (hname : m.Free name) {w : String} (hw : w ∈ m.wrapper) :
    Bindings.find? (m.bindings bs) [] name = none := by
  rw [Bindings.find?, List.find?_eq_none]
  intro e he
  rcases List.mem_append.1 he with he | he
  · obtain ⟨v, hv, rfl⟩ := mem_shell.1 he
    have hne : v ≠ name := (hname v hv).symm
    simp [Binding.isAt, hne]
  · obtain ⟨d, -, rfl⟩ := List.mem_map.1 he
    have hne : (m.binding d).place ≠ [] := place_ne_nil hw d.place
    simp [Binding.isAt, hne]

theorem findSome?_place (hname : m.Free name) (p : Place) :
    ((m.place p).outward.findSome? fun q => Bindings.find? (m.bindings bs) q name) =
      (p.outward.findSome? fun q => Bindings.find? bs q name).map m.binding := by
  have hinside : (p.outward.map m.place).findSome?
      (fun q => Bindings.find? (m.bindings bs) q name) =
      (p.outward.findSome? fun q => Bindings.find? bs q name).map m.binding := by
    induction p.outward with
    | nil => rfl
    | cons q qs ih =>
      rw [List.map_cons, List.findSome?_cons, List.findSome?_cons, find?_bindings, ih]
      cases Bindings.find? bs q name <;> rfl
  have houtside : (m.wrapper.toList.map fun _ => ([] : Place)).findSome?
      (fun q => Bindings.find? (m.bindings bs) q name) = none := by
    rw [List.findSome?_eq_none_iff]
    intro q hq
    obtain ⟨w, hw, rfl⟩ := List.mem_map.1 hq
    exact find?_outermost hname (Option.mem_toList.1 hw)
  rw [outward_place, List.findSome?_append, hinside, houtside, Option.or_none]

theorem within_place (m : Relocation) (q p : Place) :
    (m.place q).within (m.place p) = q.within p := by
  have houter : m.place p ∉ m.wrapper.toList.map fun _ => ([] : Place) := by
    intro h
    obtain ⟨w, hw, he⟩ := List.mem_map.1 h
    exact place_ne_nil (Option.mem_toList.1 hw) p he.symm
  have hinj : Function.Injective m.place := fun _ _ h => place_inj.1 h
  rw [Place.within, outward_place, Bool.eq_iff_iff, decide_eq_true_iff, List.mem_append,
    or_iff_left houter, List.mem_map_of_injective hinj, Place.within, decide_eq_true_iff]

theorem inside_bindings (hname : m.Free name) (p : Place) :
    Bindings.inside (m.bindings bs) (m.place p) name = (Bindings.inside bs p name).map m.binding := by
  have hshell : m.shell.filter (fun e => e.name = name && e.place.within (m.place p)) = [] := by
    rw [List.filter_eq_nil_iff]
    intro e he
    obtain ⟨w, hw, rfl⟩ := mem_shell.1 he
    have hne : w ≠ name := (hname w hw).symm
    simp [hne]
  have hsame : (fun e : Binding => e.name = name && e.place.within (m.place p)) ∘ m.binding =
      fun e => e.name = name && e.place.within p := by
    funext e
    exact congrArg (decide (e.name = name) && ·) (m.within_place e.place p)
  rw [Bindings.inside, bindings, List.filter_append, hshell, List.nil_append, List.filter_map, hsame]
  rfl

theorem lookup_bindings {found : Option Binding} (hname : m.Free name)
    (h : Bindings.lookup bs p name = .ok found) :
    Bindings.lookup (m.bindings bs) (m.place p) name = .ok (found.map m.binding) := by
  rw [Bindings.lookup_eq_ok, findSome?_place hname, inside_bindings hname]
  obtain ⟨e, he, rfl⟩ | ⟨hnone, hin⟩ := Bindings.lookup_eq_ok.1 h
  · exact .inl ⟨m.binding e, by rw [he, Option.map_some], rfl⟩
  · exact .inr ⟨by rw [hnone, Option.map_none], by rw [hin, Option.toList_map]⟩

theorem mention_bindings (m : Relocation) (bs : List Binding) (e : Binding) (line : Nat) :
    Bindings.mention (m.bindings bs) (m.binding e) (m.line line) =
      m.bindings (Bindings.mention bs e line) :=
  update_bindings (m.seenAt_binding line) bs e.place e.name

def FreeIn (m : Relocation) (bs : List Binding) : Prop :=
  ∀ k ∈ bs.map Binding.key, m.Free k.2

theorem free_of_lookup (h : Bindings.lookup bs p name = .ok (some e)) (hfree : m.FreeIn bs) :
    m.Free name := by
  obtain ⟨he, rfl, -⟩ := Bindings.lookup_some h
  exact hfree e.key (List.mem_map_of_mem he)

theorem freeIn_of_refer (h : Bindings.refer bs p name c = .ok (bs', id)) (hfree : m.FreeIn bs') :
    m.FreeIn bs ∧ m.Free name := by
  rcases Bindings.refer_ok h with ⟨e, he, rfl, -⟩ | ⟨-, rfl, -⟩
  · have hold : m.FreeIn bs := by rwa [FreeIn, Bindings.map_key_mention] at hfree
    exact ⟨hold, free_of_lookup he hold⟩
  · rw [FreeIn, List.map_append, List.forall_mem_append] at hfree
    exact ⟨hfree.1, hfree.2 (p, name) (List.mem_singleton_self _)⟩

theorem refer_bindings (h : Bindings.refer bs p name c = .ok (bs', id)) (hname : m.Free name) :
    Bindings.refer (m.bindings bs) (m.place p) name (m.located c) =
      .ok (m.bindings bs', m.under id) := by
  rcases Bindings.refer_ok h with ⟨e, he, rfl, rfl⟩ | ⟨he, rfl, rfl⟩
  · have hmoved := lookup_bindings hname he
    simp only [Bindings.refer, hmoved, Option.map_some, id_binding]
    exact congrArg (fun ds => Except.ok (ds, m.under e.id)) (m.mention_bindings bs e c.line)
  · have hmoved := lookup_bindings hname he
    simp only [Bindings.refer, hmoved, Option.map_none, id?_place, child_around, bindings_concat]
    rfl

end Lookup

section Resolution

variable {r r' : Resolution} {c : Located Clause} {ref : Place × Located Clause}

def resolution (m : Relocation) (r : Resolution) : Resolution where
  bindings := m.bindings r.bindings
  transitions := r.transitions.map m.transition
  finals := r.finals.map m.under
  remarks := r.remarks.map m.remark
  notes := r.notes.map m.note

theorem step_resolution (h : r.step ref = .ok r') (hfree : m.FreeIn r'.bindings) :
    m.FreeIn r.bindings ∧ (m.resolution r).step (m.reference ref) = .ok (m.resolution r') := by
  obtain ⟨p, c⟩ := ref
  cases Resolution.step_eq_ok.1 h with
  | transition hi hs ht =>
    obtain ⟨hmid, htarget⟩ := freeIn_of_refer ht hfree
    obtain ⟨hold, hsource⟩ := freeIn_of_refer hs hmid
    refine ⟨hold, Resolution.step_eq_ok.2 ?_⟩
    convert Resolution.Stepped.transition (r := m.resolution r) (c := m.located c) hi
      (refer_bindings hs hsource) (refer_bindings ht htarget) using 1
    simp only [resolution, List.map_append, List.map_singleton]
    rfl
  | @final _ _ s hi hs =>
    obtain ⟨hold, hsource⟩ := freeIn_of_refer hs hfree
    refine ⟨hold, Resolution.step_eq_ok.2 ?_⟩
    have hmem : m.under s ∈ r.finals.map m.under ↔ s ∈ r.finals :=
      List.mem_map_of_injective m.under_injective
    convert Resolution.Stepped.final (r := m.resolution r) (c := m.located c) hi
      (refer_bindings hs hsource) using 1
    simp only [resolution, hmem]
    split <;> simp
  | description hi hs =>
    obtain ⟨hold, hname⟩ := freeIn_of_refer hs hfree
    refine ⟨hold, Resolution.step_eq_ok.2 ?_⟩
    convert Resolution.Stepped.description (r := m.resolution r) (c := m.located c) hi
      (refer_bindings hs hname) using 1
    simp only [resolution, List.map_append, List.map_singleton]
    rfl
  | pass hi => exact ⟨hfree, Resolution.step_eq_ok.2 (.pass hi)⟩

theorem stepNote_resolution (h : r.stepNote ref = .ok r') (hfree : m.FreeIn r'.bindings) :
    m.FreeIn r.bindings ∧ (m.resolution r).stepNote (m.reference ref) = .ok (m.resolution r') := by
  rcases Resolution.stepNote_eq_ok.1 h with ⟨hi, rfl⟩ | ⟨name, side, text, e, hi, he, rfl⟩
  · exact ⟨hfree, Resolution.stepNote_eq_ok.2 (.inl ⟨hi, rfl⟩)⟩
  · have hold : m.FreeIn r.bindings := by rwa [FreeIn, Bindings.map_key_mention] at hfree
    have hmoved := lookup_bindings (free_of_lookup he hold) he
    refine ⟨hold, Resolution.stepNote_eq_ok.2 (.inr ⟨name, side, text, m.binding e, hi, hmoved, ?_⟩)⟩
    have hmention := m.mention_bindings r.bindings e ref.2.line
    simp only [resolution, ← hmention, List.map_append, List.map_singleton, id_binding]
    rfl

theorem ofRegistry_resolution {g : Registry} (h : Resolution.ofRegistry g = .ok r)
    (hfree : m.FreeIn r.bindings) :
    Resolution.ofRegistry (m.registry g) = .ok (m.resolution r) := by
  obtain ⟨q, hq, h⟩ := Resolution.ofRegistry_ok.1 h
  obtain ⟨hmid, hnotes⟩ := foldlM_map_ok (fun r : Resolution => m.FreeIn r.bindings)
    (fun ref _ s t hst hft => stepNote_resolution hst hft) h hfree
  obtain ⟨-, hsteps⟩ := foldlM_map_ok (fun r : Resolution => m.FreeIn r.bindings)
    (fun ref _ s t hst hft => step_resolution hst hft) hq hmid
  exact Resolution.ofRegistry_ok.2 ⟨_, hsteps, hnotes⟩

end Resolution

section Order

theorem insertByLine_binding (m : Relocation) (e : Binding) (bs : List Binding) :
    Bindings.insertByLine (m.binding e) (bs.map m.binding) =
      (Bindings.insertByLine e bs).map m.binding := by
  induction bs with
  | nil => rfl
  | cons d bs ih =>
    have hle : (m.binding e).line ≤ (m.binding d).line ↔ e.line ≤ d.line := m.increasing.le_iff_le
    rw [List.map_cons, Bindings.insertByLine, Bindings.insertByLine, ih]
    simp only [hle]
    split <;> rfl

theorem insertByLine_shell {e : Binding} (he : e ∈ m.shell) (bs : List Binding) :
    Bindings.insertByLine e (bs.map m.binding) = e :: bs.map m.binding := by
  obtain ⟨w, hw, rfl⟩ := mem_shell.1 he
  cases bs with
  | nil => rfl
  | cons d bs => exact if_pos (m.after w hw d.line)

theorem sortByLine_bindings (m : Relocation) (bs : List Binding) :
    Bindings.sortByLine (m.bindings bs) = m.bindings (Bindings.sortByLine bs) := by
  have hmoved : (bs.map m.binding).foldr Bindings.insertByLine [] =
      (bs.foldr Bindings.insertByLine []).map m.binding := by
    induction bs with
    | nil => rfl
    | cons e bs ih => rw [List.map_cons, List.foldr_cons, List.foldr_cons, ih, insertByLine_binding]
  rw [Bindings.sortByLine, bindings, List.foldr_append, hmoved, bindings, Bindings.sortByLine]
  unfold shell
  rcases m.cases_wrapper with h | ⟨w, h⟩
  · rw [h]
    rfl
  · rw [Option.mem_def.1 h]
    exact insertByLine_shell (mem_shell.2 ⟨w, h, rfl⟩) _

end Order

section Tree

def arrow (w : String) : Located Clause :=
  ⟨.initial w, 1, "[*] --> " ++ w⟩

def head (w : String) : Located Opening :=
  ⟨⟨w, none⟩, 2, "state " ++ w ++ " \x7b"⟩

def body (m : Relocation) (b : Block) : Block :=
  match m.wrapper with
  | none => m.block b
  | some w => [.clause (arrow w), .composite (head w) (m.block b) []]

def tree (m : Relocation) (t : BlockTree) : BlockTree where
  body := m.body t.body
  direction := m.direction t.direction

theorem ofBlock_registry {b : Block} {r : Registry} (h : Registry.ofBlock b = .ok r) :
    Registry.ofBlock (m.body b) = .ok (m.registry r) := by
  have hinside := addBlock_registry (m := m) h
  rcases m.cases_wrapper with hw | ⟨w, hw⟩
  · have hempty : m.registry .empty = .empty := by
      simp [registry, Registry.empty, bindings, shell, initials, hw]
    have houter : m.place [] = [] := home_of_none hw
    rw [hempty, houter] at hinside
    rw [body, hw]
    exact hinside
  · have hdeclared : m.registry .empty =
        ⟨[⟨[], w, .composite, none, 1⟩], [], [⟨.top, ⟨w⟩, 1⟩], []⟩ := by
      simp [registry, Registry.empty, bindings, shell, initials, Option.mem_def.1 hw]
    have hplace : m.place [] = [.body w] := home_of_mem hw
    rw [hdeclared, hplace] at hinside
    have hhead : Registry.enter
        ⟨[⟨[], w, .simple, none, 1⟩], [], [⟨.top, ⟨w⟩, 1⟩], []⟩ (.head [] (head w) .composite) =
          .ok ⟨[⟨[], w, .composite, none, 1⟩], [], [⟨.top, ⟨w⟩, 1⟩], []⟩ := by
      simp [head, Registry.enter, Registry.declare, Bindings.declare, Bindings.find?, Binding.isAt,
        Bindings.update, Bindings.merge, StateKind.nests]
    rw [body, Option.mem_def.1 hw, Registry.ofBlock, Registry.addBlock_ok, entriesOf, entriesOf,
      entriesOf, List.append_nil]
    rw [Registry.addBlock_ok] at hinside
    -- the arrow declares the wrapper, and the head of its body makes it a composite
    exact foldlM_cons_ok.2 ⟨_, rfl, foldlM_cons_ok.2 ⟨_, hhead, hinside⟩⟩

theorem ofBlocks_flat {t : BlockTree} {f : FlatChart} (h : FlatChart.ofBlocks t = .ok f)
    (hfree : ∀ s ∈ f.states, m.Free s.name) : FlatChart.ofBlocks (m.tree t) = .ok (m.flat f) := by
  obtain ⟨g, r, hg, hr, rfl⟩ := FlatChart.ofBlocks_ok.1 h
  have hnames : m.FreeIn r.bindings := by
    refine List.forall_mem_map.2 fun e he => ?_
    have hsorted := (Bindings.sortByLine_perm r.bindings).mem_iff.2 he
    exact hfree e.toState (List.mem_map_of_mem hsorted)
  have hregistry := ofBlock_registry (m := m) hg
  refine FlatChart.ofBlocks_ok.2 ⟨_, _, hregistry, ofRegistry_resolution hr hnames, ?_⟩
  simp only [tree, flat, resolution, registry, sortByLine_bindings, states_map_toState]

end Tree

end Relocation

end Statechart
