import Mathlib
import Statechart.Block
import Statechart.Proofs.Lines
import Statechart.Proofs.Run
import Statechart.Proofs.Scan

namespace Statechart

def IsName (name : String) : Prop :=
  name ≠ "" ∧ ∀ c ∈ name.toList, Text.isNameChar c

theorem IsName.isSegment {name : String} (h : IsName name) : IsSegment name :=
  fun hs => absurd (h.2 _ hs) (by decide)

theorem IsName.oneLine {name : String} (h : IsName name) : OneLine name :=
  fun hm => absurd (h.2 _ hm) (by decide)

theorem IsName.exists_cons {name : String} (h : IsName name) :
    ∃ c cs, name.toList = c :: cs ∧ Text.isNameChar c := by
  obtain ⟨c, cs, hcs⟩ :=
    List.exists_cons_of_ne_nil fun hnil => h.1 (String.toList_eq_nil_iff.1 hnil)
  exact ⟨c, cs, hcs, h.2 c (hcs ▸ List.mem_cons_self)⟩

namespace Reader

variable {α β : Type} {P : α → Prop} {Q : β → Prop}

def Yields (p : Reader α) (P : α → Prop) : Prop :=
  ∀ cs a rest, (p cs).read? = some (a, rest) → P a

theorem yields_true (p : Reader α) : Yields p fun _ => True :=
  fun _ _ _ _ => trivial

theorem yields_pure {a : α} (h : P a) : Yields (pure a) P := by
  intro cs b rest hb
  cases hb
  exact h

theorem Yields.bind {p : Reader α} {f : α → Reader β} (hp : Yields p P)
    (hf : ∀ a, P a → Yields (f a) Q) : Yields (p >>= f) Q := by
  intro cs b rest hb
  change ((Reader.bind p f) cs).read? = _ at hb
  unfold Reader.bind at hb
  split at hb
  · cases hb
  · rename_i a rest' ms hpa
    exact hf a (hp cs a rest' (by rw [hpa])) rest' b rest hb

theorem Yields.either {p q : Reader α} (hp : Yields p P) (hq : Yields q P) :
    Yields (either p q) P := by
  intro cs a rest ha
  unfold Reader.either at ha
  split at ha
  · rename_i r ms hpr
    exact hp cs a rest (by rw [hpr]; exact ha)
  · exact hq cs a rest ha

theorem yields_oneOf {ps : List (Reader α)} (h : ∀ p ∈ ps, Yields p P) : Yields (oneOf ps) P := by
  induction ps with
  | nil => exact fun cs a rest ha => by cases ha
  | cons p ps ih => exact (h p (by simp)).either (ih fun q hq => h q (by simp [hq]))

theorem yields_name : Yields name IsName := by
  intro cs a rest ha
  unfold name at ha
  split at ha
  · cases ha
  · rename_i c r hcs
    cases ha
    refine ⟨by simp, fun d hd => ?_⟩
    rw [String.toList_ofList, ← hcs] at hd
    exact List.mem_takeWhile_imp hd

end Reader

namespace Endpoint

def names : Endpoint → List String
  | pseudo => []
  | named name => [name]

end Endpoint

namespace Statement

open Reader

def names : Statement → List String
  | direction _ | close | separator => []
  | state name _ _ | description name _ | note _ name _ => [name]
  | transition source target _ => source.names ++ target.names

def WellNamed (s : Statement) : Prop :=
  ∀ x ∈ s.names, IsName x

theorem yields_endpoint : Yields endpoint fun e => ∀ x ∈ e.names, IsName x := by
  refine ((yields_true _).bind fun _ _ => yields_pure (by simp [Endpoint.names])).either ?_
  exact yields_name.bind fun x hx => yields_pure (by simpa [Endpoint.names] using hx)

theorem yields_stateForm : Yields stateForm WellNamed := by
  have hhead : Yields (either
      (do
        let label ← quoted
        someSpaces
        keyword "as"
        pure (some label, ← name))
      (do pure (none, ← name))) fun r => IsName r.2 := by
    have hpair : ∀ (l : Option String) (x : String), IsName x →
        Yields (pure (l, x)) fun r => IsName r.2 := fun _ _ hx => yields_pure hx
    refine .either ?_ (yields_name.bind (hpair none))
    exact (yields_true _).bind fun l _ => (yields_true _).bind fun _ _ =>
      (yields_true _).bind fun _ _ => yields_name.bind (hpair (some l))
  refine (yields_true _).bind fun _ _ => hhead.bind fun r hr => ?_
  refine (yields_true _).bind fun _ _ => (yields_true _).bind fun _ _ =>
    (yields_true _).bind fun _ _ => (yields_true _).bind fun _ _ => yields_pure ?_
  simpa [WellNamed, names] using hr

theorem yields_noteForm : Yields noteForm WellNamed := by
  refine (yields_true _).bind fun _ _ => (yields_true _).bind fun _ _ =>
    (yields_true _).bind fun _ _ => (yields_true _).bind fun _ _ => yields_name.bind fun x hx => ?_
  refine (yields_true _).bind fun _ _ => (yields_true _).bind fun _ _ =>
    (yields_true _).bind fun _ _ => yields_pure ?_
  simpa [WellNamed, names] using hx

theorem yields_transitionForm : Yields transitionForm WellNamed := by
  refine yields_endpoint.bind fun a ha => (yields_true _).bind fun _ _ =>
    (yields_true _).bind fun _ _ => (yields_true _).bind fun _ _ =>
    yields_endpoint.bind fun b hb => ?_
  refine (yields_true _).bind fun _ _ => (yields_true _).bind fun _ _ =>
    (yields_true _).bind fun _ _ => yields_pure ?_
  simp only [WellNamed, names, List.mem_append]
  rintro x (hx | hx)
  · exact ha x hx
  · exact hb x hx

theorem yields_descriptionForm : Yields descriptionForm WellNamed := by
  refine yields_name.bind fun x hx => (yields_true _).bind fun _ _ =>
    (yields_true _).bind fun _ _ => (yields_true _).bind fun _ _ => yields_pure ?_
  simpa [WellNamed, names] using hx

theorem yields_form : Yields form WellNamed := by
  have hsilent : ∀ s : Statement, s.names = [] → s.WellNamed := by
    intro s hs
    simp [WellNamed, hs]
  refine yields_oneOf fun p hp => ?_
  simp only [List.mem_cons, List.not_mem_nil, or_false] at hp
  rcases hp with rfl | rfl | rfl | rfl | rfl | rfl | rfl
  · exact yields_stateForm
  · exact yields_noteForm
  · exact (yields_true _).bind fun _ _ => (yields_true _).bind fun _ _ =>
      (yields_true _).bind fun _ _ => (yields_true _).bind fun _ _ => yields_pure (hsilent _ rfl)
  · exact (yields_true _).bind fun _ _ => (yields_true _).bind fun _ _ =>
      (yields_true _).bind fun _ _ => yields_pure (hsilent _ rfl)
  · exact (yields_true _).bind fun _ _ => (yields_true _).bind fun _ _ =>
      (yields_true _).bind fun _ _ => yields_pure (hsilent _ rfl)
  · exact yields_transitionForm
  · exact yields_descriptionForm

theorem wellNamed_of_parse {text : String} {line : Nat} {s : Statement}
    (h : parse text line = .ok s) : s.WellNamed := by
  unfold parse at h
  split at h
  · rename_i t ht
    cases h
    unfold read at ht
    split at ht
    · rename_i rest ms hf
      cases ht
      exact yields_form _ _ _ (by rw [hf])
    · cases ht
  · cases h

end Statement

namespace Clause

def names : Clause → List String
  | declare name _ | initial name | final name | description name _ | note name _ _ => [name]
  | transition source target _ => [source, target]

end Clause

namespace Event

def names : Event → List String
  | opening o => [o.name]
  | clause c => c.names
  | direction _ | close | separator => []

def WellNamed (e : Event) : Prop :=
  ∀ x ∈ e.names, IsName x

def namesRead : Event ⊕ OpenNote → List String
  | .inl e => e.names
  | .inr n => [n.name]

theorem namesRead_subset {s : Statement} {r : Event ⊕ OpenNote} (h : ofStatement s = .ok r) :
    namesRead r ⊆ s.names := by
  cases s with
  | direction code =>
    simp only [ofStatement] at h
    split at h <;> cases h
    simp [namesRead, names]
  | state name label opens =>
    cases h
    cases opens <;> simp [namesRead, names, Clause.names, Statement.names]
  | close | separator =>
    cases h
    simp [namesRead, names]
  | transition source target label =>
    cases source <;> cases target <;> cases h <;>
      simp [namesRead, names, Clause.names, Statement.names, Endpoint.names]
  | description name text =>
    cases h
    simp [namesRead, names, Clause.names, Statement.names]
  | note side name text =>
    cases text <;> cases h <;> simp [namesRead, names, Clause.names, Statement.names]

theorem isName_of_read {text : String} {line : Nat} {r : Event ⊕ OpenNote}
    (h : read text line = .ok r) : ∀ x ∈ namesRead r, IsName x := by
  unfold read at h
  split at h
  · cases h
  · rename_i s hs
    split at h
    · cases h
    · rename_i r' hr
      cases h
      exact fun x hx => Statement.wellNamed_of_parse hs x (namesRead_subset hr hx)

theorem Takes.wellNamed {text : String} {line : Nat} {note note' : Option (Located OpenNote)}
    {out : List (Located Event)} (h : Takes line text note note' out)
    (hn : ∀ n ∈ note, IsName n.item.name) :
    (∀ n ∈ note', IsName n.item.name) ∧ ∀ e ∈ out, e.item.WellNamed := by
  cases h with
  | noteEnd n _ =>
    have hname : IsName n.item.name := hn n rfl
    simpa [WellNamed, names, ofNote, Clause.names] using hname
  | noteLine n _ =>
    have hname : IsName n.item.name := hn n rfl
    simpa [OpenNote.extend] using hname
  | silence => simp
  | noteHead n _ hread => simpa [namesRead] using isName_of_read hread
  | event e _ hread => exact ⟨by simp, List.forall_mem_singleton.2 (isName_of_read hread)⟩

theorem wellNamed_ofLines {lines : List String} {line : Nat} {note : Option (Located OpenNote)}
    {es : List (Located Event)} (hn : ∀ n ∈ note, IsName n.item.name)
    (h : ofLines line note lines = .ok es) : ∀ e ∈ es, e.item.WellNamed := by
  induction lines generalizing line note es with
  | nil => cases note <;> cases h; simp
  | cons text rest ih =>
    obtain ⟨note', out, es', ht, hes, rfl⟩ := takes_of_ofLines h
    obtain ⟨hnote, hout⟩ := ht.wellNamed hn
    exact List.forall_mem_append.2 ⟨hout, ih hnote hes⟩

theorem wellNamed_of_scan {input : String} {es : List (Located Event)}
    (h : scan input = .ok es) : ∀ e ∈ es, e.item.WellNamed :=
  wellNamed_ofLines (by simp) h

end Event

end Statechart
