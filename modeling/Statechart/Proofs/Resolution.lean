import Mathlib
import Statechart.Proofs.Trace

namespace Statechart

namespace Bindings

variable {bs bs' : List Binding} {p q r : Place} {name : String} {e : Binding}
  {ks : List (Place × String)}

/-- The name means at `p` what is declared at `q`: the nearest place on the way out that declares
    it, or a place further inside when there is none. -/
def Reached (ks : List (Place × String)) (p : Place) (name : String) (q : Place) : Prop :=
  (q, name) ∈ ks ∧ ((q <:+ p ∧ ∀ r, r <:+ p → (r, name) ∈ ks → r <:+ q) ∨
    (p <:+ q ∧ ∀ r, r <:+ p → (r, name) ∉ ks))

def Unheard (ks : List (Place × String)) (p : Place) (name : String) : Prop :=
  ∀ q, q <:+ p ∨ p <:+ q → (q, name) ∉ ks

theorem suffix_antisymm {α : Type} {l m : List α} (h : l <:+ m) (h' : m <:+ l) : l = m :=
  h.eq_of_length (Nat.le_antisymm h.length_le h'.length_le)

theorem Reached.extend {p' : Place} {name' : String} (h : Reached ks p name q)
    (hn : Unheard ks p' name') : Reached (ks ++ [(p', name')]) p name q := by
  obtain ⟨hq, h⟩ := h
  have hmem : ∀ r, (r, name) ∈ ks ++ [(p', name')] → (r, name) ∈ ks ∨ (r = p' ∧ name = name') := by
    intro r hr
    simpa using hr
  refine ⟨List.mem_append_left _ hq, ?_⟩
  rcases h with ⟨hqp, hmin⟩ | ⟨hpq, hnone⟩
  · refine .inl ⟨hqp, fun r hr hk => ?_⟩
    rcases hmem r hk with hk | ⟨rfl, rfl⟩
    · exact hmin r hr hk
    · rcases List.suffix_or_suffix_of_suffix hqp hr with hqr | hrq
      · exact absurd hq (hn q (.inl hqr))
      · exact hrq
  · refine .inr ⟨hpq, fun r hr hk => ?_⟩
    rcases hmem r hk with hk | ⟨rfl, rfl⟩
    · exact hnone r hr hk
    · exact hn q (.inr (hr.trans hpq)) hq

theorem Unheard.reached (h : Unheard ks p name) : Reached (ks ++ [(p, name)]) p name p := by
  refine ⟨by simp, .inl ⟨List.suffix_rfl, fun r hr hk => ?_⟩⟩
  rcases List.mem_append.1 hk with hk | hk
  · exact absurd hk (h r (.inl hr))
  · rw [(Prod.mk.inj (List.mem_singleton.1 hk)).1]

theorem outward_none
    (h : p.outward.findSome? (fun q => find? bs q name) = none) :
    ∀ q, q <:+ p → (q, name) ∉ bs.map Binding.key := by
  intro q hq
  exact find?_eq_none.1 (List.findSome?_eq_none_iff.1 h q (Place.mem_outward_iff.2 hq))

theorem outward_some (h : p.outward.findSome? (fun q => find? bs q name) = some e) :
    e ∈ bs ∧ e.name = name ∧ e.place <:+ p ∧
      ∀ r, r <:+ p → (r, name) ∈ bs.map Binding.key → r <:+ e.place := by
  induction p with
  | nil =>
    have hf : find? bs [] name = some e := by simpa [Place.outward] using h
    obtain ⟨he, hk⟩ := find?_eq_some hf
    obtain ⟨hp, hn⟩ := Prod.mk.inj hk
    exact ⟨he, hn, by simp [hp], fun r hr _ => by simp [List.suffix_nil.1 hr]⟩
  | cons x p ih =>
    rw [Place.outward, List.findSome?_cons] at h
    cases hf : find? bs (x :: p) name with
    | some d =>
      obtain rfl : d = e := by simpa [hf] using h
      obtain ⟨he, hk⟩ := find?_eq_some hf
      obtain ⟨hp, hn⟩ := Prod.mk.inj hk
      exact ⟨he, hn, by simp [hp], fun r hr _ => hp ▸ hr⟩
    | none =>
      obtain ⟨he, hn, hp, hmin⟩ := ih (by simpa [hf] using h)
      refine ⟨he, hn, hp.trans (List.suffix_cons x p), fun r hr hk => ?_⟩
      rcases List.suffix_cons_iff.1 hr with rfl | hr
      · exact absurd hk (find?_eq_none.1 hf)
      · exact hmin r hr hk

theorem mem_inside : e ∈ inside bs p name ↔ e ∈ bs ∧ e.name = name ∧ p <:+ e.place := by
  simp [inside, Place.within, Place.mem_outward_iff]

theorem lookup_eq_ok {found : Option Binding} : lookup bs p name = .ok found ↔
    (∃ e, p.outward.findSome? (fun q => find? bs q name) = some e ∧ found = some e) ∨
      p.outward.findSome? (fun q => find? bs q name) = none ∧ inside bs p name = found.toList := by
  unfold lookup
  cases p.outward.findSome? fun q => find? bs q name with
  | some e => simp [eq_comm]
  | none =>
    rcases inside bs p name with _ | ⟨d, _ | ⟨d', ds⟩⟩ <;> cases found <;> simp

theorem lookup_none (h : lookup bs p name = .ok none) : Unheard (bs.map Binding.key) p name := by
  obtain ⟨e, -, he⟩ | ⟨hout, hin⟩ := lookup_eq_ok.1 h
  · cases he
  · rintro q (hq | hq) hk
    · exact outward_none hout q hq hk
    · obtain ⟨e, he, hek⟩ := List.mem_map.1 hk
      obtain ⟨rfl, rfl⟩ := Prod.mk.inj hek
      have hmem := mem_inside.2 ⟨he, rfl, hq⟩
      rw [hin] at hmem
      cases hmem

theorem lookup_some (h : lookup bs p name = .ok (some e)) :
    e ∈ bs ∧ e.name = name ∧ Reached (bs.map Binding.key) p name e.place := by
  obtain ⟨d, hout, hd⟩ | ⟨hout, hin⟩ := lookup_eq_ok.1 h
  · obtain rfl := Option.some.inj hd
    obtain ⟨he, hn, hp, hmin⟩ := outward_some hout
    exact ⟨he, hn, hn ▸ List.mem_map_of_mem he, .inl ⟨hp, hmin⟩⟩
  · have hmem : e ∈ inside bs p name := by simp [hin]
    obtain ⟨he, hn, hp⟩ := mem_inside.1 hmem
    exact ⟨he, hn, hn ▸ List.mem_map_of_mem he, .inr ⟨hp, outward_none hout⟩⟩

theorem Reached.place_eq (hr : Reached (bs.map Binding.key) p name q)
    (h : lookup bs p name = .ok (some e)) : e.place = q := by
  obtain ⟨he, hn, hk, hd⟩ := lookup_some h
  obtain ⟨hqk, ⟨hqp, hqmin⟩ | ⟨hpq, hnone⟩⟩ := hr
  · rcases hd with ⟨hep, hmin⟩ | ⟨-, hnone⟩
    · exact suffix_antisymm (hqmin _ hep hk) (hmin q hqp hqk)
    · exact absurd hqk (hnone q hqp)
  · rcases hd with ⟨hep, -⟩ | -
    · exact absurd hk (hnone _ hep)
    · obtain ⟨d, hd, hdk⟩ := List.mem_map.1 hqk
      obtain ⟨rfl, rfl⟩ := Prod.mk.inj hdk
      have hmem : d ∈ inside bs p d.name := mem_inside.2 ⟨hd, rfl, hpq⟩
      obtain ⟨c, hout, -⟩ | ⟨-, hin⟩ := lookup_eq_ok.1 h
      · obtain ⟨hc, hcn, hcp, -⟩ := outward_some hout
        exact absurd (hcn ▸ List.mem_map_of_mem hc) (hnone _ hcp)
      · rw [hin, Option.toList_some, List.mem_singleton] at hmem
        rw [hmem]

theorem refer_ok {c : Located Clause} {id : NodeId} (h : refer bs p name c = .ok (bs', id)) :
    (∃ e, lookup bs p name = .ok (some e) ∧ bs' = mention bs e c.line ∧ id = e.id) ∨
      (lookup bs p name = .ok none ∧ bs' = bs ++ [⟨p, name, .simple, none, c.line⟩] ∧
        id = .child p.id? name) := by
  unfold refer at h
  split at h
  · cases h
  · rename_i e he
    cases h
    exact .inl ⟨e, he, rfl, rfl⟩
  · rename_i hn
    cases h
    exact .inr ⟨hn, rfl, rfl⟩

theorem map_key_mention (bs : List Binding) (e : Binding) (line : Nat) :
    (mention bs e line).map Binding.key = bs.map Binding.key :=
  map_key_update fun _ => rfl

end Bindings

abbrev Meaning := Place → String → Option Place

namespace Meaning

open Bindings

variable {m m' : Meaning} {bs bs' : List Binding} {p : Place} {name : String}

def Fits (m : Meaning) (bs : List Binding) : Prop :=
  ∀ p name q, m p name = some q → Reached (bs.map Binding.key) p name q

def Agrees (m : Meaning) (home : Place → String → Place) : Prop :=
  ∀ p name q, m p name = some q → home p name = q

def home (m : Meaning) (p : Place) (name : String) : Place :=
  (m p name).getD []

theorem home_eq {q : Place} (h : m p name = some q) : m.home p name = q := by
  rw [home, h, Option.getD_some]

def Within (m m' : Meaning) : Prop :=
  ∀ p name q, m p name = some q → m' p name = some q

theorem Within.trans {m'' : Meaning} (h : m.Within m') (h' : m'.Within m'') : m.Within m'' :=
  fun p name q hq => h' p name q (h p name q hq)

theorem Within.agrees {home : Place → String → Place} (h : m.Within m') (ha : m'.Agrees home) :
    m.Agrees home :=
  fun p name q hq => ha p name q (h p name q hq)

def learn (m : Meaning) (p : Place) (name : String) (q : Place) : Meaning :=
  fun p' name' => if p' = p ∧ name' = name then some q else m p' name'

theorem learn_self (m : Meaning) (p : Place) (name : String) (q : Place) :
    m.learn p name q p name = some q :=
  if_pos ⟨rfl, rfl⟩

theorem within_learn {q : Place} (h : ∀ r, m p name = some r → r = q) :
    m.Within (m.learn p name q) := by
  intro p' name' r hr
  unfold learn
  split
  · rename_i he
    obtain ⟨rfl, rfl⟩ := he
    rw [h r hr]
  · exact hr

theorem fits_learn {q : Place} (h : m.Fits bs) (hq : Reached (bs.map Binding.key) p name q) :
    (m.learn p name q).Fits bs := by
  intro p' name' r hr
  unfold learn at hr
  split at hr
  · rename_i he
    obtain ⟨rfl, rfl⟩ := he
    cases hr
    exact hq
  · exact h p' name' r hr

theorem Fits.mention (h : m.Fits bs) (e : Binding) (line : Nat) :
    m.Fits (mention bs e line) := by
  intro p name q hq
  rw [map_key_mention]
  exact h p name q hq

theorem Fits.lookup {e : Binding} (h : m.Fits bs) (hl : Bindings.lookup bs p name = .ok (some e)) :
    m.Within (m.learn p name e.place) ∧ (m.learn p name e.place).Fits bs := by
  refine ⟨within_learn fun r hr => ?_, fits_learn h (lookup_some hl).2.2⟩
  exact ((h p name r hr).place_eq hl).symm

theorem Fits.refer {c : Located Clause} {id : NodeId} (h : m.Fits bs)
    (hr : Bindings.refer bs p name c = .ok (bs', id)) :
    ∃ m' q, m.Within m' ∧ m'.Fits bs' ∧ m' p name = some q ∧ id = .child q.id? name ∧
      ∀ tr, Traced tr bs → Traced (tr ++ [((q, name), c.line)]) bs' := by
  rcases refer_ok hr with ⟨e, hl, rfl, rfl⟩ | ⟨hl, rfl, rfl⟩
  · obtain ⟨hw, hf⟩ := h.lookup hl
    obtain ⟨he, rfl, -⟩ := lookup_some hl
    exact ⟨m.learn p e.name e.place, e.place, hw, hf.mention e c.line, learn_self .., rfl,
      fun tr htr => htr.mention he c.line⟩
  · have hnone := lookup_none hl
    have hext : m.Fits (bs ++ [⟨p, name, .simple, none, c.line⟩]) := by
      intro p' name' q hq
      rw [List.map_append]
      exact (h p' name' q hq).extend hnone
    refine ⟨m.learn p name p, p, within_learn fun r hr => ?_, fits_learn hext ?_, learn_self ..,
      rfl, fun tr htr => htr.concat (hnone p (.inl List.suffix_rfl)) _ _ _⟩
    · obtain ⟨hk, ⟨hrp, -⟩ | ⟨hpr, -⟩⟩ := h p name r hr
      · exact absurd hk (hnone r (.inl hrp))
      · exact absurd hk (hnone r (.inr hpr))
    · rw [List.map_append]
      exact hnone.reached

end Meaning

namespace Resolution

def idAt (home : Place → String → Place) (p : Place) (name : String) : NodeId :=
  .child (home p name).id? name

section Readings

variable (home : Place → String → Place)

def transition? (ref : Place × Located Clause) : Option Transition :=
  match ref.2.item with
  | .transition source target label =>
    some ⟨idAt home ref.1 source, idAt home ref.1 target, Label.ofText? label, ref.2.line⟩
  | _ => none

def final? (ref : Place × Located Clause) : Option NodeId :=
  match ref.2.item with
  | .final source => some (idAt home ref.1 source)
  | _ => none

def remark? (ref : Place × Located Clause) : Option Remark :=
  match ref.2.item with
  | .description name text =>
    let (kind, body) := (Remark.ofLine? text).getD (.description, text)
    some ⟨idAt home ref.1 name, kind, body, ref.2.line⟩
  | _ => none

def note? (ref : Place × Located Clause) : Option Note :=
  match ref.2.item with
  | .note name side text => some ⟨idAt home ref.1 name, side, text, ref.2.line, ref.2.text⟩
  | _ => none

variable {home} {ref : Place × Located Clause}

theorem transition?_eq_some {t : Transition} : transition? home ref = some t ↔
    ∃ source target label, ref.2.item = .transition source target label ∧
      t = ⟨idAt home ref.1 source, idAt home ref.1 target, Label.ofText? label, ref.2.line⟩ := by
  unfold transition?
  cases ref.2.item <;> simp [eq_comm]

theorem final?_eq_some {id : NodeId} : final? home ref = some id ↔
    ∃ source, ref.2.item = .final source ∧ id = idAt home ref.1 source := by
  unfold final?
  cases ref.2.item <;> simp [eq_comm]

theorem remark?_eq_some {r : Remark} : remark? home ref = some r ↔
    ∃ name text, ref.2.item = .description name text ∧
      r = ⟨idAt home ref.1 name, ((Remark.ofLine? text).getD (.description, text)).1,
        ((Remark.ofLine? text).getD (.description, text)).2, ref.2.line⟩ := by
  unfold remark?
  cases ref.2.item <;> simp [eq_comm]

theorem note?_eq_some {n : Note} : note? home ref = some n ↔
    ∃ name side text, ref.2.item = .note name side text ∧
      n = ⟨idAt home ref.1 name, side, text, ref.2.line, ref.2.text⟩ := by
  unfold note?
  cases ref.2.item <;> simp [eq_comm]

end Readings

/-- The names in a line that are read with the lines before notes. -/
def reads : Clause → List String
  | .transition source target _ => [source, target]
  | .final name | .description name _ => [name]
  | .declare _ _ | .initial _ | .note _ _ _ => []

def noted : Clause → List String
  | .note name _ _ => [name]
  | _ => []

section Steps

open Bindings

variable {r r' : Resolution} {p : Place} {c : Located Clause}

/-- What a line makes of a resolution, when it is not yet the turn of notes. -/
inductive Stepped (r : Resolution) (p : Place) (c : Located Clause) : Resolution → Prop
  | transition {source target : String} {label : Option String} {bs bs' : List Binding}
      {s t : NodeId} (hi : c.item = .transition source target label)
      (hs : refer r.bindings p source c = .ok (bs, s)) (ht : refer bs p target c = .ok (bs', t)) :
      Stepped r p c { r with
        bindings := bs'
        transitions := r.transitions ++ [⟨s, t, Label.ofText? label, c.line⟩] }
  | final {source : String} {bs : List Binding} {s : NodeId} (hi : c.item = .final source)
      (hs : refer r.bindings p source c = .ok (bs, s)) :
      Stepped r p c { r with
        bindings := bs
        finals := if s ∈ r.finals then r.finals else r.finals ++ [s] }
  | description {name text : String} {bs : List Binding} {s : NodeId}
      (hi : c.item = .description name text) (hs : refer r.bindings p name c = .ok (bs, s)) :
      Stepped r p c { r with
        bindings := bs
        remarks := r.remarks ++ [⟨s, ((Remark.ofLine? text).getD (.description, text)).1,
          ((Remark.ofLine? text).getD (.description, text)).2, c.line⟩] }
  | pass (hi : reads c.item = []) : Stepped r p c r

theorem step_eq_ok : step r (p, c) = .ok r' ↔ Stepped r p c r' := by
  constructor
  · intro h
    unfold step at h
    cases hi : c.item with
    | transition source target label =>
      simp only [hi, addTransition] at h
      split at h
      · cases h
      · rename_i hs
        split at h
        · cases h
        · rename_i ht
          cases h
          exact .transition hi hs ht
    | final source =>
      simp only [hi, addFinal] at h
      split at h
      · cases h
      · rename_i hs
        cases h
        exact .final hi hs
    | description name text =>
      simp only [hi, addDescription] at h
      split at h
      · cases h
      · rename_i hs
        cases h
        exact .description hi hs
    | declare | initial | note =>
      simp only [hi] at h
      cases h
      exact .pass (by simp [hi, reads])
  · intro h
    cases h with
    | transition hi hs ht => simp only [step, hi, addTransition, hs, ht]
    | final hi hs => simp only [step, hi, addFinal, hs]
    | description hi hs => simp only [step, hi, addDescription, hs]
    | pass hi =>
      cases hc : c.item with
      | transition | final | description => simp [hc, reads] at hi
      | declare | initial | note => simp only [step, hc]

theorem Stepped.bindings {I : List Binding → Prop} (h : Stepped r p c r') (hr : I r.bindings)
    (hrefer : ∀ {bs bs' : List Binding} {name : String} {id : NodeId}, name ∈ reads c.item → I bs →
      refer bs p name c = .ok (bs', id) → I bs') : I r'.bindings := by
  cases h with
  | transition hi hs ht =>
    have hfirst := hrefer (by simp [hi, reads]) hr hs
    exact hrefer (by simp [hi, reads]) hfirst ht
  | final hi hs => exact hrefer (by simp [hi, reads]) hr hs
  | description hi hs => exact hrefer (by simp [hi, reads]) hr hs
  | pass => exact hr

end Steps

section Mentions

variable (home : Place → String → Place)

def readings (ref : Place × Located Clause) : List Mention :=
  (reads ref.2.item).map fun x => ((home ref.1 x, x), ref.2.line)

def notings (ref : Place × Located Clause) : List Mention :=
  (noted ref.2.item).map fun x => ((home ref.1 x, x), ref.2.line)

/-- The mentions in the entries in the order in which they are come upon: what is declared, then the
    lines before notes, then notes. -/
def trace (es : List Entry) : List Mention :=
  es.filterMap Entry.declaration? ++ (es.filterMap Entry.reference?).flatMap (readings home) ++
    (es.filterMap Entry.reference?).flatMap (notings home)

end Mentions

def addOnce (ids : List NodeId) (id : NodeId) : List NodeId :=
  if id ∈ ids then ids else ids ++ [id]

structure Told (home : Place → String → Place) (refs : List (Place × Located Clause))
    (r r' : Resolution) : Prop where
  transitions : r'.transitions = r.transitions ++ refs.filterMap (transition? home)
  finals : r'.finals = (refs.filterMap (final? home)).foldl addOnce r.finals
  remarks : r'.remarks = r.remarks ++ refs.filterMap (remark? home)
  notes : r'.notes = r.notes
  traced : ∀ tr, Bindings.Traced tr r.bindings →
    Bindings.Traced (tr ++ refs.flatMap (readings home)) r'.bindings

def Tells (m : Meaning) (p : Place) (c : Located Clause) (r r' : Resolution) : Prop :=
  ∃ m', m.Within m' ∧ m'.Fits r'.bindings ∧ (∀ x ∈ reads c.item, ∃ q, m' p x = some q) ∧
    ∀ home, m'.Agrees home → Told home [(p, c)] r r'

section Lines

variable {m : Meaning} {r r' : Resolution} {p : Place} {c : Located Clause}

theorem readings_none (home : Place → String → Place) (hi : reads c.item = []) :
    transition? home (p, c) = none ∧ final? home (p, c) = none ∧ remark? home (p, c) = none := by
  cases hc : c.item with
  | transition | final | description => simp [hc, reads] at hi
  | declare | initial | note => simp [transition?, final?, remark?, hc]

theorem step_told (hm : m.Fits r.bindings) (h : step r (p, c) = .ok r') : Tells m p c r r' := by
  cases step_eq_ok.1 h with
  | transition hi hs ht =>
    obtain ⟨m₁, q₁, hw₁, hf₁, hq₁, rfl, htr₁⟩ := hm.refer hs
    obtain ⟨m₂, q₂, hw₂, hf₂, hq₂, rfl, htr₂⟩ := hf₁.refer ht
    refine ⟨m₂, hw₁.trans hw₂, hf₂, ?_, fun home hh => ?_⟩
    · intro x hx
      simp only [hi, reads, List.mem_cons, List.not_mem_nil, or_false] at hx
      rcases hx with rfl | rfl
      · exact ⟨q₁, hw₂ _ _ _ hq₁⟩
      · exact ⟨q₂, hq₂⟩
    · have h₁ := hh _ _ _ (hw₂ _ _ _ hq₁)
      have h₂ := hh _ _ _ hq₂
      constructor
      case traced =>
        intro tr htr
        simpa [readings, reads, hi, h₁, h₂] using htr₂ _ (htr₁ tr htr)
      all_goals simp [transition?, final?, remark?, hi, idAt, h₁, h₂]
  | final hi hs =>
    obtain ⟨m₁, q₁, hw₁, hf₁, hq₁, rfl, htr₁⟩ := hm.refer hs
    refine ⟨m₁, hw₁, hf₁, by simp [hi, reads, hq₁], fun home hh => ?_⟩
    have h₁ := hh _ _ _ hq₁
    constructor
    case traced =>
      intro tr htr
      simpa [readings, reads, hi, h₁] using htr₁ tr htr
    all_goals simp [transition?, final?, remark?, addOnce, hi, idAt, h₁]
  | description hi hs =>
    obtain ⟨m₁, q₁, hw₁, hf₁, hq₁, rfl, htr₁⟩ := hm.refer hs
    refine ⟨m₁, hw₁, hf₁, by simp [hi, reads, hq₁], fun home hh => ?_⟩
    have h₁ := hh _ _ _ hq₁
    constructor
    case traced =>
      intro tr htr
      simpa [readings, reads, hi, h₁] using htr₁ tr htr
    all_goals simp [transition?, final?, remark?, hi, idAt, h₁]
  | pass hi =>
    refine ⟨m, fun _ _ _ => id, hm, by simp [hi], fun home _ => ?_⟩
    obtain ⟨htransition, hfinal, hremark⟩ := readings_none (p := p) home hi
    constructor <;> simp [readings, hi, htransition, hfinal, hremark]

end Lines

theorem Told.append {home : Place → String → Place} {refs refs' : List (Place × Located Clause)}
    {r s t : Resolution} (h : Told home refs r s) (h' : Told home refs' s t) :
    Told home (refs ++ refs') r t := by
  constructor
  · rw [h'.transitions, h.transitions, List.filterMap_append, List.append_assoc]
  · rw [h'.finals, h.finals, List.filterMap_append, List.foldl_append]
  · rw [h'.remarks, h.remarks, List.filterMap_append, List.append_assoc]
  · rw [h'.notes, h.notes]
  · intro tr htr
    rw [List.flatMap_append, ← List.append_assoc]
    exact h'.traced _ (h.traced tr htr)

theorem foldlM_step_told {refs : List (Place × Located Clause)} {m : Meaning} {r r' : Resolution}
    (hm : m.Fits r.bindings) (h : refs.foldlM step r = .ok r') :
    ∃ m', m.Within m' ∧ m'.Fits r'.bindings ∧
      (∀ ref ∈ refs, ∀ x ∈ reads ref.2.item, ∃ q, m' ref.1 x = some q) ∧
      ∀ home, m'.Agrees home → Told home refs r r' := by
  induction refs generalizing m r with
  | nil =>
    cases h
    refine ⟨m, fun _ _ _ => id, hm, by simp, fun home _ => ?_⟩
    constructor <;> simp
  | cons ref refs ih =>
    obtain ⟨s, hs, hrest⟩ := foldlM_cons_ok.1 h
    obtain ⟨m₁, hw₁, hf₁, hr₁, ht₁⟩ := step_told hm hs
    obtain ⟨m₂, hw₂, hf₂, hr₂, ht₂⟩ := ih hf₁ hrest
    refine ⟨m₂, hw₁.trans hw₂, hf₂, List.forall_mem_cons.2 ⟨fun x hx => ?_, hr₂⟩, fun home hh => ?_⟩
    · obtain ⟨q, hq⟩ := hr₁ x hx
      exact ⟨q, hw₂ _ _ _ hq⟩
    · exact (ht₁ home (hw₂.agrees hh)).append (ht₂ home hh)

structure Noted (home : Place → String → Place) (refs : List (Place × Located Clause))
    (r r' : Resolution) : Prop where
  transitions : r'.transitions = r.transitions
  finals : r'.finals = r.finals
  remarks : r'.remarks = r.remarks
  notes : r'.notes = r.notes ++ refs.filterMap (note? home)
  traced : ∀ tr, Bindings.Traced tr r.bindings →
    Bindings.Traced (tr ++ refs.flatMap (notings home)) r'.bindings

theorem stepNote_eq_ok {r r' : Resolution} {ref : Place × Located Clause} :
    stepNote r ref = .ok r' ↔
      ((∀ name side text, ref.2.item ≠ .note name side text) ∧ r' = r) ∨
      ∃ name side text e, ref.2.item = .note name side text ∧
        Bindings.lookup r.bindings ref.1 name = .ok (some e) ∧ r' = { r with
          bindings := Bindings.mention r.bindings e ref.2.line
          notes := r.notes ++ [⟨e.id, side, text, ref.2.line, ref.2.text⟩] } := by
  constructor
  · intro h
    unfold stepNote at h
    split at h
    · rename_i name side text hi
      split at h
      · cases h
      · cases h
      · rename_i e he
        cases h
        exact .inr ⟨name, side, text, e, hi, he, rfl⟩
    · rename_i hi
      cases h
      exact .inl ⟨hi, rfl⟩
  · rintro (⟨hi, rfl⟩ | ⟨name, side, text, e, hi, he, rfl⟩)
    · unfold stepNote
      split
      · rename_i name side text hnote
        exact absurd hnote (hi name side text)
      · rfl
    · simp only [stepNote, hi, he]

theorem notings_none {p : Place} {c : Located Clause}
    (hi : ∀ name side text, c.item ≠ .note name side text) :
    noted c.item = [] ∧ ∀ home, note? home (p, c) = none := by
  cases hc : c.item with
  | note name side text => exact absurd hc (hi name side text)
  | declare | initial | transition | final | description => simp [noted, note?, hc]

theorem stepNote_noted {m : Meaning} {r r' : Resolution} {p : Place} {c : Located Clause}
    (hm : m.Fits r.bindings) (h : stepNote r (p, c) = .ok r') :
    ∃ m', m.Within m' ∧ m'.Fits r'.bindings ∧
      (∀ x ∈ noted c.item, ∃ q, m' p x = some q) ∧
      ∀ home, m'.Agrees home → Noted home [(p, c)] r r' := by
  rcases stepNote_eq_ok.1 h with ⟨hi, rfl⟩ | ⟨name, side, text, e, hi, hl, rfl⟩
  · obtain ⟨hnoted, hnote⟩ := notings_none (p := p) hi
    refine ⟨m, fun _ _ _ => id, hm, by simp [hnoted], fun home _ => ?_⟩
    constructor <;> simp [notings, hnoted, hnote]
  · dsimp only at hi hl
    obtain ⟨hw, hf⟩ := hm.lookup hl
    have hself := Meaning.learn_self m p name e.place
    refine ⟨m.learn p name e.place, hw, hf.mention e c.line, ?_, fun home hh => ?_⟩
    · simp [noted, hi, hself]
    · have hhome := hh _ _ _ hself
      obtain ⟨he, rfl, -⟩ := Bindings.lookup_some hl
      have hid : e.id = idAt home p e.name := by
        rw [idAt, hhome, Binding.id]
      constructor
      case traced =>
        intro tr htr
        simpa [notings, noted, hi, hhome, Binding.key] using htr.mention he c.line
      all_goals simp [note?, hi, hid]

theorem foldlM_stepNote_noted {refs : List (Place × Located Clause)} {m : Meaning}
    {r r' : Resolution} (hm : m.Fits r.bindings) (h : refs.foldlM stepNote r = .ok r') :
    ∃ m', m.Within m' ∧ m'.Fits r'.bindings ∧
      (∀ ref ∈ refs, ∀ x ∈ noted ref.2.item, ∃ q, m' ref.1 x = some q) ∧
      ∀ home, m'.Agrees home → Noted home refs r r' := by
  induction refs generalizing m r with
  | nil =>
    cases h
    refine ⟨m, fun _ _ _ => id, hm, by simp, fun home _ => ?_⟩
    constructor <;> simp
  | cons ref refs ih =>
    obtain ⟨s, hs, hrest⟩ := foldlM_cons_ok.1 h
    obtain ⟨m₁, hw₁, hf₁, hr₁, ht₁⟩ := stepNote_noted hm hs
    obtain ⟨m₂, hw₂, hf₂, hr₂, ht₂⟩ := ih hf₁ hrest
    refine ⟨m₂, hw₁.trans hw₂, hf₂, List.forall_mem_cons.2 ⟨fun x hx => ?_, hr₂⟩, fun home hh => ?_⟩
    · obtain ⟨q, hq⟩ := hr₁ x hx
      exact ⟨q, hw₂ _ _ _ hq⟩
    · have h₁ := ht₁ home (hw₂.agrees hh)
      have h₂ := ht₂ home hh
      refine ⟨h₂.transitions.trans h₁.transitions, h₂.finals.trans h₁.finals,
        h₂.remarks.trans h₁.remarks, ?_, fun tr htr => ?_⟩
      · rw [h₂.notes, h₁.notes, List.append_assoc, ← List.filterMap_append, List.singleton_append]
      · have htraced := h₂.traced _ (h₁.traced tr htr)
        rwa [List.append_assoc, ← List.flatMap_append, List.singleton_append] at htraced

end Resolution

structure Charted (es : List Entry) (bs : List Binding) : Prop where
  keys : (bs.map Binding.key).Nodup
  declared : ∀ k ∈ es.filterMap Entry.key?, k ∈ bs.map Binding.key
  origin : ∀ e ∈ bs, e.key ∈ es.filterMap Entry.key? ∨
    (Bindings.Unheard (es.filterMap Entry.key?) e.place e.name ∧
      ∃ c, .clause e.place c ∈ es ∧ e.name ∈ Resolution.reads c.item)
  kinds : ∀ e ∈ bs, kindsAt e.place e.name es = if e.kind.nests then [e.kind] else []
  leaf : ∀ e ∈ bs, e.kind ≠ .history

theorem Declared.charted {es : List Entry} {bs : List Binding} (h : Declared es bs) :
    Charted es bs :=
  ⟨h.keys, fun k hk => (h.mem_keys k).2 hk,
    fun _ he => .inl ((h.mem_keys _).1 (List.mem_map_of_mem he)), h.kinds, h.leaf⟩

theorem mem_references {es : List Entry} {p : Place} {c : Located Clause}
    (h : (p, c) ∈ es.filterMap Entry.reference?) :
    .clause p c ∈ es ∧
      ∀ x ∈ c.item.names, x ∈ Resolution.reads c.item ∨ x ∈ Resolution.noted c.item := by
  obtain ⟨x, hx, hr⟩ := List.mem_filterMap.1 h
  obtain rfl := Entry.eq_clause hr
  refine ⟨hx, ?_⟩
  cases hi : c.item with
  | declare | initial => simp [Entry.reference?, hi] at hr
  | final | transition | description | note =>
    simp [Clause.names, Resolution.reads, Resolution.noted]

namespace Charted

variable {es : List Entry} {bs bs' : List Binding} {p : Place} {c : Located Clause}

theorem mention (h : Charted es bs) (e : Binding) (line : Nat) :
    Charted es (Bindings.mention bs e line) := by
  have hmem : ∀ d ∈ Bindings.mention bs e line, ∃ d' ∈ bs, d.key = d'.key ∧ d.kind = d'.kind := by
    intro d hd
    obtain ⟨d', hd', ⟨-, rfl⟩ | ⟨-, rfl⟩⟩ := Bindings.mem_update.1 hd
    · exact ⟨d', hd', rfl, rfl⟩
    · exact ⟨d, hd', rfl, rfl⟩
  refine ⟨?_, ?_, ?_, ?_, ?_⟩
  · rw [Bindings.map_key_mention]
    exact h.keys
  · rw [Bindings.map_key_mention]
    exact h.declared
  · intro d hd
    obtain ⟨d', hd', hk, -⟩ := hmem d hd
    obtain ⟨hp, hn⟩ := Prod.mk.inj hk
    rw [hk, hp, hn]
    exact h.origin d' hd'
  · intro d hd
    obtain ⟨d', hd', hk, hkind⟩ := hmem d hd
    obtain ⟨hp, hn⟩ := Prod.mk.inj hk
    rw [hp, hn, hkind]
    exact h.kinds d' hd'
  · intro d hd
    obtain ⟨d', hd', -, hkind⟩ := hmem d hd
    exact hkind ▸ h.leaf d' hd'

theorem refer {name : String} {id : NodeId} (h : Charted es bs) (hc : .clause p c ∈ es)
    (hn : name ∈ Resolution.reads c.item)
    (hr : Bindings.refer bs p name c = .ok (bs', id)) : Charted es bs' := by
  rcases Bindings.refer_ok hr with ⟨e, hl, rfl, rfl⟩ | ⟨hl, rfl, rfl⟩
  · exact h.mention e c.line
  · have hnone := Bindings.lookup_none hl
    have hunheard : Bindings.Unheard (es.filterMap Entry.key?) p name :=
      fun q hq hk => hnone q hq (h.declared _ hk)
    refine ⟨?_, ?_, ?_, ?_, ?_⟩
    · rw [List.map_append, List.nodup_append]
      refine ⟨h.keys, by simp, ?_⟩
      rintro a ha b hb rfl
      rw [List.map_singleton, List.mem_singleton] at hb
      subst hb
      exact hnone p (.inl List.suffix_rfl) ha
    · intro k hk
      rw [List.map_append]
      exact List.mem_append_left _ (h.declared k hk)
    · intro e he
      rcases List.mem_append.1 he with he | he
      · exact h.origin e he
      · rw [List.mem_singleton.1 he]
        exact .inr ⟨hunheard, c, hc, hn⟩
    · intro e he
      rcases List.mem_append.1 he with he | he
      · exact h.kinds e he
      · rw [List.mem_singleton.1 he]
        exact kindsAt_of_notMem (hunheard p (.inl List.suffix_rfl))
    · intro e he
      rcases List.mem_append.1 he with he | he
      · exact h.leaf e he
      · rw [List.mem_singleton.1 he]
        simp

theorem step {r r' : Resolution} (h : Charted es r.bindings) (hc : .clause p c ∈ es)
    (hs : Resolution.step r (p, c) = .ok r') : Charted es r'.bindings :=
  (Resolution.step_eq_ok.1 hs).bindings h fun hn hb hrefer => hb.refer hc hn hrefer

theorem stepNote {r r' : Resolution} (h : Charted es r.bindings)
    (hs : Resolution.stepNote r (p, c) = .ok r') : Charted es r'.bindings := by
  rcases Resolution.stepNote_eq_ok.1 hs with ⟨-, rfl⟩ | ⟨_, _, _, e, -, -, rfl⟩
  · exact h
  · exact h.mention e c.line

end Charted

theorem Resolution.ofRegistry_ok {r : Registry} {s : Resolution} :
    Resolution.ofRegistry r = .ok s ↔
      ∃ t, r.references.foldlM Resolution.step (Resolution.start r.bindings) = .ok t ∧
        r.references.foldlM Resolution.stepNote t = .ok s := by
  unfold Resolution.ofRegistry
  cases r.references.foldlM Resolution.step (Resolution.start r.bindings) <;> simp

theorem charted_ofRegistry {es : List Entry} {r : Registry} {s : Resolution}
    (hr : Registered es r) (hs : Resolution.ofRegistry r = .ok s) : Charted es s.bindings := by
  obtain ⟨t, ht, hs⟩ := Resolution.ofRegistry_ok.1 hs
  have hclause : ∀ ref ∈ r.references, Entry.clause ref.1 ref.2 ∈ es := by
    intro ref href
    exact (mem_references (hr.references ▸ href)).1
  have hmid : Charted es t.bindings := foldlM_invariant (fun _ u => Charted es u.bindings)
    (fun _ ref _ _ href hu hstep => hu.step (hclause ref href) hstep) hr.declared.charted ht
  exact foldlM_invariant (fun _ u => Charted es u.bindings)
    (fun _ _ _ _ _ hu hstep => hu.stepNote hstep) hmid hs

theorem exists_meaning_ofRegistry {es : List Entry} {r : Registry} {s : Resolution}
    (hr : Registered es r) (hs : Resolution.ofRegistry r = .ok s) :
    ∃ m : Meaning, m.Fits s.bindings ∧
      (∀ ref ∈ r.references, ∀ x ∈ ref.2.item.names, ∃ q, m ref.1 x = some q) ∧
      ∀ home, m.Agrees home →
        s.transitions = r.references.filterMap (Resolution.transition? home) ∧
        s.finals = (r.references.filterMap (Resolution.final? home)).foldl Resolution.addOnce [] ∧
        s.remarks = r.references.filterMap (Resolution.remark? home) ∧
        s.notes = r.references.filterMap (Resolution.note? home) ∧
        ∀ tr, Bindings.Traced tr r.bindings →
          Bindings.Traced (tr ++ r.references.flatMap (Resolution.readings home) ++
            r.references.flatMap (Resolution.notings home)) s.bindings := by
  obtain ⟨t, ht, hs⟩ := Resolution.ofRegistry_ok.1 hs
  have hempty : Meaning.Fits (fun _ _ => none) r.bindings := by
    intro p name q hq
    cases hq
  obtain ⟨m₁, -, hf₁, hr₁, ht₁⟩ := Resolution.foldlM_step_told hempty ht
  obtain ⟨m₂, hw₂, hf₂, hr₂, ht₂⟩ := Resolution.foldlM_stepNote_noted hf₁ hs
  refine ⟨m₂, hf₂, ?_, fun home hh => ?_⟩
  · intro ref href x hx
    rcases (mem_references (hr.references ▸ href)).2 x hx with hx | hx
    · obtain ⟨q, hq⟩ := hr₁ ref href x hx
      exact ⟨q, hw₂ _ _ _ hq⟩
    · exact hr₂ ref href x hx
  · have h₁ := ht₁ home (hw₂.agrees hh)
    have h₂ := ht₂ home hh
    refine ⟨?_, ?_, ?_, ?_, fun tr htr => h₂.traced _ (h₁.traced tr htr)⟩
    · rw [h₂.transitions, h₁.transitions]
      rfl
    · rw [h₂.finals, h₁.finals]
      rfl
    · rw [h₂.remarks, h₁.remarks]
      rfl
    · rw [h₂.notes, h₁.notes]
      rfl

theorem FlatChart.ofBlocks_ok {t : BlockTree} {f : FlatChart} : FlatChart.ofBlocks t = .ok f ↔
    ∃ r s, Registry.ofBlock t.body = .ok r ∧ Resolution.ofRegistry r = .ok s ∧ f = {
      states := (Bindings.sortByLine s.bindings).map Binding.toState
      regions := r.regions
      transitions := s.transitions
      initials := r.initials
      finals := s.finals
      notes := s.notes
      remarks := s.remarks
      direction := t.direction } := by
  unfold FlatChart.ofBlocks
  cases Registry.ofBlock t.body with
  | error e => simp
  | ok r => cases hs : Resolution.ofRegistry r <;> simp [hs, eq_comm]

end Statechart
