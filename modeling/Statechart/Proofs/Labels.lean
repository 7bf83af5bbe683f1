import Mathlib
import Statechart.Proofs.Drawing
import Statechart.Proofs.FaultLines
import Statechart.Proofs.Grammar
import Statechart.Proofs.Repetition

namespace Statechart

namespace Statement

def labels : Statement → List String
  | state _ label _ | transition _ _ label => label.toList
  | description _ text => [text]
  | direction _ | close | separator | note _ _ _ => []

theorem Tail.subset {label : Option String} {tail : List Char} (h : Tail label tail) :
    ∀ l ∈ label, l.toList ⊆ tail := by
  cases h with
  | absent => simp
  | text cs =>
    rintro _ ⟨⟩
    rw [String.toList_ofList]
    exact List.Subset.trans (Text.trim_isInfix cs).subset (List.subset_cons_self ':' cs)

theorem Subject.subset {x : String} {label : Option String} {cs : List Char}
    (h : Subject x label cs) : ∀ l ∈ label, l.toList ⊆ cs := by
  cases h with
  | plain => simp
  | labelled =>
    rintro _ ⟨⟩ c hc
    exact List.mem_cons_of_mem _ (List.mem_append_left _ hc)

theorem Written.subset {k : Form} {s : Statement} {cs : List Char} (h : Written k s cs) :
    ∀ l ∈ s.labels, l.toList ⊆ cs := by
  cases h with
  | state _ hsubject _ _ =>
    intro l hl c hc
    have hmem := hsubject.subset l (Option.mem_toList.1 hl) hc
    simp [hmem]
  | transition _ _ _ _ _ htail =>
    intro l hl c hc
    obtain ⟨hl, -⟩ := Option.mem_filter_iff.1 (Option.mem_toList.1 hl)
    have hmem := htail.subset l hl hc
    simp [hmem]
  | description _ _ htail =>
    intro l hl c hc
    have hmem := htail.subset l (by simpa [labels, eq_comm] using hl) hc
    simp [hmem]
  | note | direction | close | separator => simp [labels]

theorem oneLine_labels {text : String} {s : Statement} (h : read text.toList = .ok s)
    (ht : OneLine text) : ∀ l ∈ s.labels, OneLine l := by
  obtain ⟨k, hk⟩ := read_ok_iff.1 h
  exact fun l hl hfeed => ht (hk.subset l hl hfeed)

end Statement

def Clause.labels : Clause → List String
  | declare _ label | transition _ _ label => label.toList
  | description _ text => [text]
  | initial _ | final _ | note _ _ _ => []

namespace Event

variable {line : Nat} {text : String} {note note' : Option (Located OpenNote)}
  {es out : List (Located Event)} {ls : List String}

def labels : Event → List String
  | opening o => o.label.toList
  | clause c => c.labels
  | direction _ | close | separator => []

theorem labels_subset {s : Statement} {e : Event} (h : ofStatement s = .ok (.inl e)) :
    e.labels ⊆ s.labels := by
  cases s with
  | direction code =>
    simp only [ofStatement] at h
    split at h <;> cases h
    exact List.nil_subset _
  | state name label opens => cases opens <;> cases h <;> exact List.Subset.refl _
  | close | separator => cases h; exact List.nil_subset _
  | transition source target label =>
    cases source <;> cases target <;> cases h <;> simp [labels, Clause.labels, Statement.labels]
  | description name text => cases h; exact List.Subset.refl _
  | note side name body => cases body <;> cases h; exact List.nil_subset _

theorem Takes.oneLine (h : Takes line text note note' out) (ht : OneLine text) :
    ∀ e ∈ out, ∀ l ∈ e.item.labels, OneLine l := by
  cases h with
  | noteEnd n _ => simp [ofNote, labels, Clause.labels]
  | noteLine | silence | noteHead => simp
  | event e _ hread =>
    obtain ⟨s, hs, hof⟩ := (read_eq text line).1 hread
    refine List.forall_mem_singleton.2 fun l hl => ?_
    exact Statement.oneLine_labels hs ht l (labels_subset hof hl)

theorem oneLine_of_ofLines (hls : ∀ l ∈ ls, OneLine l) (h : ofLines line note ls = .ok es) :
    ∀ e ∈ es, ∀ l ∈ e.item.labels, OneLine l := by
  induction ls generalizing line note es with
  | nil => cases note <;> cases h; simp
  | cons text ls ih =>
    obtain ⟨htext, hls⟩ := List.forall_mem_cons.1 hls
    obtain ⟨note', out, es', ht, hes, rfl⟩ := takes_of_ofLines h
    exact List.forall_mem_append.2 ⟨ht.oneLine htext, ih hls hes⟩

theorem oneLine_of_scan {input : String} (h : scan input = .ok es) :
    ∀ e ∈ es, ∀ l ∈ e.item.labels, OneLine l := by
  rw [scan_eq] at h
  refine oneLine_of_ofLines (List.forall_mem_map.2 fun p hp hfeed => ?_) h
  rw [Text.trimmed, String.toList_ofList] at hfeed
  exact Text.notMem_of_mem_pieces hp ((Text.trim_isInfix p.toList).subset hfeed)

end Event

def Entry.labels : Entry → List String
  | clause _ c => c.item.labels
  | head _ h _ => h.item.label.toList
  | region _ _ _ => []

theorem Entry.mem_labels_of_declares {x : Entry} {d : Declaration} {l : String}
    (h : x.declares? = some d) (hl : l ∈ d.label) : l ∈ x.labels := by
  cases x with
  | clause p c =>
    cases hi : c.item with
    | declare name label =>
      rw [declares?, hi] at h
      obtain rfl := Option.some.inj h
      simpa [labels, hi, Clause.labels] using hl
    | initial target =>
      rw [declares?, hi] at h
      obtain rfl := Option.some.inj h
      cases hl
    | final | transition | description | note => simp [declares?, hi] at h
  | head p o kind =>
    obtain rfl := Option.some.inj h
    exact Option.mem_toList.2 hl
  | region => cases h

theorem oneLine_of_entries {input : String} {es : List (Located Event)} {t : BlockTree}
    (hs : Event.scan input = .ok es) (ht : BlockTree.ofEvents es = .ok t) :
    ∀ x ∈ entriesOf [] t.body, ∀ l ∈ x.labels, OneLine l := by
  have hfrom := (BlockTree.grows_comesFrom es).of_ofEvents ht
  intro x hx
  cases x with
  | clause p c => exact Event.oneLine_of_scan hs _ (hfrom _ _ hx _ rfl)
  | head p h kind => exact Event.oneLine_of_scan hs _ (hfrom _ _ hx _ rfl)
  | region => simp [Entry.labels]

def Captioned (bs : List Binding) : Prop :=
  ∀ e ∈ bs, ∀ l ∈ e.label, OneLine l

namespace Captioned

variable {bs bs' : List Binding} {p : Place} {name : String}

theorem concat (h : Captioned bs) {e : Binding} (he : ∀ l ∈ e.label, OneLine l) :
    Captioned (bs ++ [e]) :=
  List.forall_mem_append.2 ⟨h, List.forall_mem_singleton.2 he⟩

theorem update (h : Captioned bs) {f : Binding → Binding}
    (hf : ∀ e ∈ bs, ∀ l ∈ (f e).label, OneLine l) : Captioned (Bindings.update bs p name f) := by
  intro e he
  obtain ⟨d, hd, ⟨-, rfl⟩ | ⟨-, rfl⟩⟩ := Bindings.mem_update.1 he
  · exact hf d hd
  · exact h e hd

theorem declare {kind : StateKind} {label : Option String} {line : Nat} {text : String}
    (h : Captioned bs) (hl : ∀ l ∈ label, OneLine l)
    (hd : Bindings.declare bs p name kind label line text = .ok bs') : Captioned bs' := by
  rcases Bindings.declare_ok hd with ⟨-, rfl⟩ | ⟨-, -, -, -, rfl⟩
  · exact h.concat hl
  · refine h.update fun e he l hm => ?_
    rcases Option.or_eq_some_iff.1 hm with hm | ⟨-, hm⟩
    · exact hl l hm
    · exact h e he l hm

theorem enter {r r' : Registry} {x : Entry} (h : Captioned r.bindings)
    (hx : ∀ l ∈ x.labels, OneLine l) (he : r.enter x = .ok r') : Captioned r'.bindings := by
  obtain ⟨bs, hbs, rfl⟩ := Registry.enter_ok.1 he
  cases hd : x.declares? with
  | none =>
    rw [hd] at hbs
    cases hbs
    exact h
  | some d =>
    rw [hd] at hbs
    exact h.declare (fun l hl => hx l (Entry.mem_labels_of_declares hd hl)) hbs

theorem mention (h : Captioned bs) (e : Binding) (line : Nat) :
    Captioned (Bindings.mention bs e line) :=
  h.update h

theorem refer {c : Located Clause} {id : NodeId} (h : Captioned bs)
    (hr : Bindings.refer bs p name c = .ok (bs', id)) : Captioned bs' := by
  rcases Bindings.refer_ok hr with ⟨e, -, rfl, -⟩ | ⟨-, rfl, -⟩
  · exact h.mention e c.line
  · exact h.concat (by simp)

theorem step {r r' : Resolution} {ref : Place × Located Clause} (h : Captioned r.bindings)
    (hs : r.step ref = .ok r') : Captioned r'.bindings :=
  (Resolution.step_eq_ok.1 hs).bindings h fun _ hb hrefer => hb.refer hrefer

theorem stepNote {r r' : Resolution} {ref : Place × Located Clause} (h : Captioned r.bindings)
    (hs : r.stepNote ref = .ok r') : Captioned r'.bindings := by
  rcases Resolution.stepNote_eq_ok.1 hs with ⟨-, rfl⟩ | ⟨_, _, _, e, -, -, rfl⟩
  · exact h
  · exact h.mention e ref.2.line

theorem ofRegistry {r : Registry} {s : Resolution} (h : Captioned r.bindings)
    (hs : Resolution.ofRegistry r = .ok s) : Captioned s.bindings := by
  obtain ⟨t, ht, hs⟩ := Resolution.ofRegistry_ok.1 hs
  have hmid := foldlM_invariant (fun _ u => Captioned u.bindings)
    (fun _ _ _ _ _ hu hstep => hu.step hstep) h ht
  exact foldlM_invariant (fun _ u => Captioned u.bindings)
    (fun _ _ _ _ _ hu hstep => hu.stepNote hstep) hmid hs

end Captioned

namespace Label

variable {cs before inside after : List Char} {d : Nat} {s : String}

theorem cutAtSlash_subset (h : cutAtSlash d cs = some (before, after)) :
    before ⊆ cs ∧ after ⊆ cs := by
  induction cs generalizing d before after with
  | nil => cases h
  | cons c cs ih =>
    rw [cutAtSlash] at h
    split at h
    · rename_i b a hcut
      cases h
      obtain ⟨hb, ha⟩ := ih hcut
      exact ⟨List.cons_subset_cons c hb, List.subset_cons_of_subset c ha⟩
    · split at h
      · cases h
        exact ⟨List.nil_subset _, List.subset_cons_self c cs⟩
      · cases h

theorem cutAtClose_subset (h : cutAtClose d cs = some (before, after)) :
    before ⊆ cs ∧ after ⊆ cs := by
  have hcons : ∀ {c : Char} {cs : List Char} {k : Nat},
      (∀ {b a}, cutAtClose k cs = some (b, a) → b ⊆ cs ∧ a ⊆ cs) → ∀ {b a},
      ((cutAtClose k cs).map fun r => (c :: r.1, r.2)) = some (b, a) →
        b ⊆ c :: cs ∧ a ⊆ c :: cs := by
    intro c cs k ih b a h
    obtain ⟨⟨b', a'⟩, hcut, heq⟩ := Option.map_eq_some_iff.1 h
    cases heq
    obtain ⟨hb, ha⟩ := ih hcut
    exact ⟨List.cons_subset_cons c hb, List.subset_cons_of_subset c ha⟩
  induction cs generalizing d before after with
  | nil => cases h
  | cons c cs ih =>
    rw [cutAtClose.eq_def] at h
    dsimp only at h
    split at h
    · exact hcons ih h
    · split at h
      · cases d with
        | zero =>
          cases h
          exact ⟨List.nil_subset _, List.subset_cons_self c cs⟩
        | succ d => exact hcons ih h
      · exact hcons ih h

theorem cutAtBrackets_subset (h : cutAtBrackets cs = some (before, inside, after)) :
    before ⊆ cs ∧ inside ⊆ cs ∧ after ⊆ cs := by
  unfold cutAtBrackets at h
  split at h
  · cases h
  · rename_i b c rest hspan
    obtain ⟨⟨i, a⟩, hcut, heq⟩ := Option.map_eq_some_iff.1 h
    cases heq
    obtain ⟨hi, ha⟩ := cutAtClose_subset hcut
    have hcs : before ++ c :: rest = cs := by
      rw [List.span_eq_takeWhile_dropWhile] at hspan
      obtain ⟨rfl, hrest⟩ := Prod.mk.inj hspan
      rw [← hrest, List.takeWhile_append_dropWhile]
    have hrest : rest ⊆ cs := by
      rw [← hcs]
      exact List.subset_append_of_subset_right _ (List.subset_cons_self c rest)
    refine ⟨?_, List.Subset.trans hi hrest, List.Subset.trans ha hrest⟩
    rw [← hcs]
    exact List.subset_append_left _ _

theorem unbrace_subset (cs : List Char) : unbrace cs ⊆ cs := by
  refine List.Subset.trans ?_ (Text.trim_isInfix cs).subset
  unfold unbrace
  split
  · exact List.nil_subset _
  · rename_i c inner htrim
    rw [htrim]
    split
    · exact List.subset_cons_of_subset c inner.dropLast_subset
    · exact List.Subset.refl _

theorem part_subset (h : part cs = some s) : s.toList ⊆ cs := by
  unfold part at h
  split at h
  · cases h
  · rename_i c r htrim
    cases h
    rw [String.toList_ofList, ← htrim]
    exact (Text.trim_isInfix cs).subset

def parts (l : Label) : List String :=
  l.trigger.toList ++ l.guard.toList ++ l.action.toList

theorem oneLine_text {l : Label} (h : ∀ p ∈ l.parts, OneLine p) : OneLine l.text := by
  refine oneLine_joined (by decide) fun p hp => ?_
  simp only [List.mem_append, Option.mem_toList, Option.map_eq_some_iff] at hp
  rcases hp with (hp | ⟨g, hg, rfl⟩) | ⟨a, ha, rfl⟩
  · exact h p (by simp [parts, hp])
  · have hone := h g (by simp [parts, hg])
    simpa +decide using hone
  · have hone := h a (by simp [parts, ha])
    simpa +decide using hone

theorem oneLine_part (hcs : '\n' ∉ cs) : ∀ p ∈ part cs, OneLine p :=
  fun _ hp hfeed => hcs (part_subset hp hfeed)

theorem oneLine_ofUnslashed (hcs : '\n' ∉ cs) {action : Option String}
    (ha : ∀ p ∈ action, OneLine p) : ∀ p ∈ (ofUnslashed cs action).parts, OneLine p := by
  have hmem : ∀ {l : Label}, (∀ p ∈ l.trigger, OneLine p) → (∀ p ∈ l.guard, OneLine p) →
      (∀ p ∈ l.action, OneLine p) → ∀ p ∈ l.parts, OneLine p := by
    intro l ht hg ha p hp
    simp only [parts, List.mem_append, Option.mem_toList] at hp
    rcases hp with (hp | hp) | hp
    · exact ht p hp
    · exact hg p hp
    · exact ha p hp
  unfold ofUnslashed
  split
  · exact hmem (oneLine_part hcs) (by simp) ha
  · rename_i b i a hcut
    obtain ⟨hb, hi, haft⟩ := cutAtBrackets_subset hcut
    refine hmem (oneLine_part ?_) (oneLine_part fun hfeed => hcs (hi hfeed)) ha
    simp only [List.mem_append, List.mem_cons, not_or]
    exact ⟨fun hfeed => hcs (hb hfeed), by decide, fun hfeed => hcs (haft hfeed)⟩

theorem oneLine_ofText? {label : Option String} (h : ∀ l ∈ label, OneLine l) :
    OneLine (ofText? label).text := by
  cases label with
  | none => exact (by decide : OneLine empty.text)
  | some s =>
    have hs : OneLine s := h s rfl
    refine oneLine_text ?_
    rw [ofText?, ofText]
    split
    · exact oneLine_ofUnslashed hs (by simp)
    · rename_i b a hcut
      obtain ⟨hb, ha⟩ := cutAtSlash_subset hcut
      refine oneLine_ofUnslashed (fun hfeed => hs (hb hfeed)) (oneLine_part fun hfeed => ?_)
      exact hs (ha (unbrace_subset a hfeed))

end Label

namespace Remark

theorem bodyAfter_subset {word : String} {cs body : List Char} (h : bodyAfter word cs = some body) :
    body ⊆ cs := by
  unfold bodyAfter at h
  dsimp only at h
  split at h
  · split at h
    · cases h
    · rename_i c b htrim
      split at h
      · cases h
        have hsuffix : c :: b <:+ cs := by
          rw [← htrim]
          exact (List.dropWhile_suffix Text.isBlank).trans (List.drop_suffix _ cs)
        exact List.Subset.trans (Text.trim_isInfix b).subset
          (List.Subset.trans (List.subset_cons_self c b) hsuffix.subset)
      · cases h
  · cases h

theorem oneLine_ofLine? {line : String} {r : RemarkKind × String} (h : ofLine? line = some r)
    (hl : OneLine line) : OneLine r.2 := by
  obtain ⟨k, -, hk⟩ := List.exists_of_findSome?_eq_some h
  obtain ⟨body, hbody, rfl⟩ := Option.map_eq_some_iff.1 hk
  intro hfeed
  rw [String.toList_ofList] at hfeed
  exact hl ((Text.trim_isInfix _).subset (bodyAfter_subset hbody hfeed))

end Remark

theorem History.mem_placedLines {n : Nat} {ls : List (List Char)} {l : List Char × Text.Span}
    (h : l ∈ placedLines n ls) : l.1 ∈ ls := by
  induction ls generalizing n with
  | nil => cases h
  | cons x ls ih =>
    rcases List.mem_cons.1 h with rfl | h
    · exact List.mem_cons_self
    · exact List.mem_cons_of_mem x (ih h)

theorem History.oneLine_freeLines {text : String} : ∀ l ∈ freeLines text, OneLine l := by
  intro l hl
  obtain ⟨p, hp, rfl⟩ := List.mem_map.1 (List.mem_of_mem_filter hl)
  have hpiece := Text.notMem_of_mem_split (mem_placedLines (List.mem_of_mem_filter hp))
  intro hfeed
  rw [String.toList_ofList] at hfeed
  exact hpiece ((Text.trim_isInfix p.1).subset hfeed)

def Remark.Lined (r : Remark) : Prop :=
  r.kind = .note ∨ OneLine r.text

theorem History.lined_remarksOf (n : Note) : ∀ r ∈ remarksOf n, r.Lined := by
  have htyped : ∀ r ∈ ((freeLines n.text).filterMap Remark.ofLine?).map fun r =>
      Remark.mk n.state r.1 r.2 n.line, r.Lined := by
    intro r hr
    obtain ⟨x, hx, rfl⟩ := List.mem_map.1 hr
    obtain ⟨l, hl, hlx⟩ := List.mem_filterMap.1 hx
    exact .inr (Remark.oneLine_ofLine? hlx (oneLine_freeLines l hl))
  unfold remarksOf
  dsimp only
  split
  · exact htyped
  · exact List.forall_mem_append.2 ⟨htyped, List.forall_mem_singleton.2 (.inl rfl)⟩

structure FlatChart.Lined (f : FlatChart) : Prop where
  captions : ∀ s ∈ f.states, ∀ l ∈ s.label, OneLine l
  labels : ∀ t ∈ f.transitions, OneLine t.label.text
  remarks : ∀ r ∈ f.remarks, r.Lined

theorem FlatChart.captioned_of_blocks {t : BlockTree} {f : FlatChart}
    (hl : ∀ x ∈ entriesOf [] t.body, ∀ l ∈ x.labels, OneLine l)
    (h : FlatChart.ofBlocks t = .ok f) : ∀ s ∈ f.states, ∀ l ∈ s.label, OneLine l := by
  obtain ⟨r, u, hr, hu, rfl⟩ := ofBlocks_ok.1 h
  have hregistry : Captioned r.bindings := by
    refine foldlM_invariant (fun _ m => Captioned m.bindings)
      (fun _ x _ _ hx hm hstep => hm.enter (hl x hx) hstep) ?_
      ((Registry.addBlock_ok [] t.body).1 hr)
    simp [Captioned, Registry.empty]
  have hbindings := hregistry.ofRegistry hu
  refine List.forall_mem_map.2 fun e he l hel => ?_
  exact hbindings e ((Bindings.sortByLine_perm u.bindings).mem_iff.1 he) l hel

theorem FlatChart.lined_of_text {input : String} {f : FlatChart} (h : ofText input = .ok f) :
    f.Lined := by
  obtain ⟨es, t, hs, ht, hf⟩ := ofText_ok h
  obtain ⟨home, hdrawn⟩ := drawn_ofBlocks (wellNamed_of_text hs ht) hf
  have hlabels := oneLine_of_entries hs ht
  have hclause : ∀ ref ∈ references t.body, ∀ l ∈ ref.2.item.labels, OneLine l :=
    fun ref href => hlabels _ (mem_references href).1
  constructor
  case captions => exact captioned_of_blocks hlabels hf
  case labels =>
    rw [hdrawn.transitions]
    intro a ha
    obtain ⟨ref, href, hra⟩ := List.mem_filterMap.1 ha
    obtain ⟨source, target, label, hi, rfl⟩ := Resolution.transition?_eq_some.1 hra
    refine Label.oneLine_ofText? fun l hl => hclause ref href l ?_
    rw [hi]
    exact Option.mem_toList.2 hl
  case remarks =>
    rw [hdrawn.remarks]
    intro r hr
    obtain ⟨ref, href, hrr⟩ := List.mem_filterMap.1 hr
    obtain ⟨name, text, hi, rfl⟩ := Resolution.remark?_eq_some.1 hrr
    have htext : OneLine text := hclause ref href text (by simp [hi, Clause.labels])
    refine .inr ?_
    cases ho : Remark.ofLine? text with
    | none => exact htext
    | some x => exact Remark.oneLine_ofLine? ho htext

theorem FlatChart.Lined.withHistory {f g : FlatChart} (h : f.Lined) (hf : f.Sound)
    (hg : f.withHistory = .ok g) : g.Lined := by
  obtain ⟨o, ho, rfl⟩ := withHistory_ok hg
  constructor
  case captions =>
    intro s hs
    rw [show (f.withOutcome o).states = o.states from rfl, hf.states_eq ho] at hs
    rcases List.mem_append.1 hs with hs | hs
    · exact h.captions s hs
    · obtain ⟨c, line, rfl, -⟩ := History.exists_of_mem_newcomers hs
      simp [History.stateOf]
  case labels =>
    rw [show (f.withOutcome o).transitions = o.transitions from rfl,
      History.transitions_of_carryOut hf.nested.distinct ho]
    refine List.forall_mem_map.2 fun t ht => ?_
    have hlabel : (History.recalled f.states f.notes t).label = t.label := by
      rcases History.recalled_cases f.states f.notes t with heq | ⟨k, -, -, -, heq⟩ <;> rw [heq]
    exact hlabel ▸ h.labels t ht
  case remarks =>
    refine List.forall_mem_append.2 ⟨h.remarks, fun r hr => ?_⟩
    rw [History.remarks_foldlM ho] at hr
    obtain ⟨task, -, hr⟩ :=
      List.mem_flatMap.1 ((List.mem_append.1 hr).resolve_left List.not_mem_nil)
    cases task with
    | keep n => exact History.lined_remarksOf n r hr
    | review | attach => cases hr

end Statechart
