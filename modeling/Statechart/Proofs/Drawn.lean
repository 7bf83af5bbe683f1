import Mathlib
import Statechart.Proofs.WellNested

namespace Statechart

abbrev declarations (b : Block) : List (Place × String) :=
  (entriesOf [] b).filterMap Entry.key?

abbrev references (b : Block) : List (Place × Located Clause) :=
  (entriesOf [] b).filterMap Entry.reference?

structure Drawn (b : Block) (home : Place → String → Place) (f : FlatChart) : Prop where
  coherent : Coherent (entriesOf [] b)
  states : ∃ bs, Charted (entriesOf [] b) bs ∧ f.states = bs.map Binding.toState ∧
    ∀ ref ∈ references b, ∀ x ∈ ref.2.item.names,
      Bindings.Reached (bs.map Binding.key) ref.1 x (home ref.1 x)
  regions : f.regions = (entriesOf [] b).filterMap Entry.slot?
  initials : f.initials = (entriesOf [] b).filterMap Entry.initial?
  transitions : f.transitions = (references b).filterMap (Resolution.transition? home)
  finals : f.finals =
    ((references b).filterMap (Resolution.final? home)).foldl Resolution.addOnce []
  remarks : f.remarks = (references b).filterMap (Resolution.remark? home)
  notes : f.notes = (references b).filterMap (Resolution.note? home)
  order : ∃ bs, Bindings.Traced (Resolution.trace home (entriesOf [] b)) bs ∧
    f.states = (Bindings.sortByLine bs).map Binding.toState

theorem drawn_ofBlocks {t : BlockTree} {f : FlatChart} (hw : BlockTree.WellNamed t.body)
    (h : FlatChart.ofBlocks t = .ok f) : ∃ home, Drawn t.body home f := by
  obtain ⟨r, s, hr, hs, rfl⟩ := FlatChart.ofBlocks_ok.1 h
  have hreg := registered_ofBlock hr
  have hc := charted_ofRegistry hreg hs
  obtain ⟨m, hm, hall, hpart⟩ := exists_meaning_ofRegistry hreg hs
  have hperm := Bindings.sortByLine_perm s.bindings
  obtain ⟨ht, hf, hrem, hn, htrace⟩ := hpart m.home fun _ _ _ hq => Meaning.home_eq hq
  have htraced := htrace _ (Registry.traced_ofBlock hr)
  rw [hreg.references] at hall ht hf hrem hn htraced
  refine ⟨_, coherent_ofBlock hw hreg, ⟨_, hc.perm hperm, rfl, ?_⟩, hreg.regions, hreg.initials,
    ht, hf, hrem, hn, ⟨_, htraced, rfl⟩⟩
  intro ref href x hx
  obtain ⟨q, hq⟩ := hall ref href x hx
  have hreach := hm _ _ _ hq
  rw [Meaning.home_eq hq]
  exact ⟨(hperm.map Binding.key).mem_iff.2 hreach.1, by
    simpa only [(hperm.map Binding.key).mem_iff] using hreach.2⟩

theorem wellNamed_of_text {input : String} {es : List (Located Event)} {t : BlockTree}
    (hs : Event.scan input = .ok es) (ht : BlockTree.ofEvents es = .ok t) :
    BlockTree.WellNamed t.body :=
  BlockTree.wellNamed_of_ofEvents (Event.wellNamed_of_scan hs) ht

theorem ofText_ok {input : String} {f : FlatChart} (h : FlatChart.ofText input = .ok f) :
    ∃ es t, Event.scan input = .ok es ∧ BlockTree.ofEvents es = .ok t ∧
      FlatChart.ofBlocks t = .ok f := by
  obtain ⟨es, hs, h⟩ := bind_ok.1 h
  obtain ⟨t, ht, hf⟩ := bind_ok.1 h
  exact ⟨es, t, hs, ht, hf⟩

theorem exists_drawn {input : String} {f : FlatChart} (h : FlatChart.ofText input = .ok f) :
    ∃ b home, Drawn b home f := by
  obtain ⟨es, t, hs, ht, hf⟩ := ofText_ok h
  exact ⟨t.body, drawn_ofBlocks (wellNamed_of_text hs ht) hf⟩

namespace Drawn

variable {b : Block} {home : Place → String → Place} {f : FlatChart}

theorem wellNested (h : Drawn b home f) : WellNested f.states f.regions := by
  obtain ⟨bs, hc, hs, -⟩ := h.states
  rw [hs, h.regions]
  exact hc.wellNested h.coherent

theorem leaf (h : Drawn b home f) : ∀ s ∈ f.states, s.kind ≠ .history := by
  obtain ⟨bs, hc, hs, -⟩ := h.states
  rw [hs]
  intro s hm
  obtain ⟨e, he, rfl⟩ := List.mem_map.1 hm
  exact hc.leaf e he

theorem isName (h : Drawn b home f) : ∀ s ∈ f.states, IsName s.name := by
  obtain ⟨bs, hc, hs, -⟩ := h.states
  rw [hs]
  intro s hm
  obtain ⟨e, he, rfl⟩ := List.mem_map.1 hm
  exact (hc.place_and_name h.coherent he).2

theorem exists_declared (h : Drawn b home f) {p : Place} {x : String}
    (hk : (p, x) ∈ declarations b) :
    ∃ s ∈ f.states, s.id = .child p.id? x ∧ s.name = x ∧ s.scope = p.scope := by
  obtain ⟨bs, hc, hs, -⟩ := h.states
  obtain ⟨e, he, hkey⟩ := List.mem_map.1 (hc.declared _ hk)
  obtain ⟨rfl, rfl⟩ := Prod.mk.inj hkey
  exact ⟨e.toState, hs ▸ List.mem_map_of_mem he, rfl, rfl, e.scope_toState⟩

theorem exists_referred (h : Drawn b home f) {ref : Place × Located Clause}
    (href : ref ∈ references b) {x : String}
    (hx : x ∈ ref.2.item.names) :
    ∃ s ∈ f.states, s.id = Resolution.idAt home ref.1 x ∧ s.name = x ∧
      s.scope = (home ref.1 x).scope := by
  obtain ⟨bs, hc, hs, hm⟩ := h.states
  obtain ⟨e, he, hkey⟩ := List.mem_map.1 (hm ref href x hx).1
  obtain ⟨hp, rfl⟩ := Prod.mk.inj hkey
  refine ⟨e.toState, hs ▸ List.mem_map_of_mem he, ?_, rfl, hp ▸ e.scope_toState⟩
  rw [Binding.id_toState, hp, Resolution.idAt]

theorem exists_about (h : Drawn b home f) {α : Type} {read : Place × Located Clause → Option α}
    {a : α} (ha : a ∈ (references b).filterMap read) {id : NodeId}
    (hread : ∀ ref, read ref = some a → ∃ x ∈ ref.2.item.names, id = Resolution.idAt home ref.1 x) :
    ∃ s ∈ f.states, s.id = id := by
  obtain ⟨ref, href, hr⟩ := List.mem_filterMap.1 ha
  obtain ⟨x, hx, rfl⟩ := hread ref hr
  obtain ⟨s, hs, hid, -⟩ := h.exists_referred href hx
  exact ⟨s, hs, hid⟩

end Drawn

namespace Sample

/-- A text in which `Off`, `A` and `B` are referred to before anything declares them. -/
def text : String :=
  "[*] --> On\nOff --> On\nstate On \x7b\nA --> B\n\x7d\nstate Two \x7b\n[*] --> A\n--\n" ++
    "[*] --> B\n\x7d\nnote left of Off : goes to On history"

def events : List (Located Event) :=
  [⟨.clause (.initial "On"), 1, "[*] --> On"⟩,
    ⟨.clause (.transition "Off" "On" none), 2, "Off --> On"⟩,
    ⟨.opening ⟨"On", none⟩, 3, "state On \x7b"⟩,
    ⟨.clause (.transition "A" "B" none), 4, "A --> B"⟩,
    ⟨.close, 5, "\x7d"⟩,
    ⟨.opening ⟨"Two", none⟩, 6, "state Two \x7b"⟩,
    ⟨.clause (.initial "A"), 7, "[*] --> A"⟩,
    ⟨.separator, 8, "--"⟩,
    ⟨.clause (.initial "B"), 9, "[*] --> B"⟩,
    ⟨.close, 10, "\x7d"⟩,
    ⟨.clause (.note "Off" .left "goes to On history"), 11,
      "note left of Off : goes to On history"⟩]

def tree : BlockTree where
  body :=
    [.clause ⟨.initial "On", 1, "[*] --> On"⟩,
      .clause ⟨.transition "Off" "On" none, 2, "Off --> On"⟩,
      .composite ⟨⟨"On", none⟩, 3, "state On \x7b"⟩
        [.clause ⟨.transition "A" "B" none, 4, "A --> B"⟩] [],
      .composite ⟨⟨"Two", none⟩, 6, "state Two \x7b"⟩
        [.clause ⟨.initial "A", 7, "[*] --> A"⟩] [[.clause ⟨.initial "B", 9, "[*] --> B"⟩]],
      .clause ⟨.note "Off" .left "goes to On history", 11,
        "note left of Off : goes to On history"⟩]
  direction := none

def flat : FlatChart where
  states :=
    [⟨"On", ⟨"On"⟩, none, none, .composite, none, 1⟩,
      ⟨"Off", ⟨"Off"⟩, none, none, .simple, none, 2⟩,
      ⟨"A", ⟨"On/A"⟩, some ⟨"On"⟩, none, .simple, none, 4⟩,
      ⟨"B", ⟨"On/B"⟩, some ⟨"On"⟩, none, .simple, none, 4⟩,
      ⟨"Two", ⟨"Two"⟩, none, none, .concurrent, none, 6⟩,
      ⟨"A", ⟨"Two/region1/A"⟩, some ⟨"Two"⟩, some 0, .simple, none, 7⟩,
      ⟨"B", ⟨"Two/region2/B"⟩, some ⟨"Two"⟩, some 1, .simple, none, 9⟩]
  regions := [⟨⟨"Two"⟩, 0, ⟨"Two/region1"⟩⟩, ⟨⟨"Two"⟩, 1, ⟨"Two/region2"⟩⟩]
  transitions := [⟨⟨"Off"⟩, ⟨"On"⟩, .empty, 2⟩, ⟨⟨"On/A"⟩, ⟨"On/B"⟩, .empty, 4⟩]
  initials :=
    [⟨.top, ⟨"On"⟩, 1⟩, ⟨.region ⟨"Two"⟩ 0, ⟨"Two/region1/A"⟩, 7⟩,
      ⟨.region ⟨"Two"⟩ 1, ⟨"Two/region2/B"⟩, 9⟩]
  finals := []
  notes := [⟨⟨"Off"⟩, .left, "goes to On history", 11, "note left of Off : goes to On history"⟩]
  remarks := []
  direction := none

theorem lines_text : (Text.linesOf text).map Text.trimmed = events.map Located.text :=
  Text.map_trimmed_linesOf (by decide +kernel) (by decide +kernel) (by decide +kernel)

theorem scan_text : Event.scan text = .ok events := by
  rw [Event.scan, lines_text]
  exact Event.ofLines_of_reads rfl (by decide +kernel)

theorem ofEvents_events : BlockTree.ofEvents events = .ok tree := by
  rfl

theorem ofBlocks_tree : FlatChart.ofBlocks tree = .ok flat := by
  decide +kernel

end Sample

end Statechart
