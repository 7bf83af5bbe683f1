import Mathlib

namespace Statechart

variable {ε ε' α α' β β' σ σ' τ τ' : Type}

theorem bind_ok {x : Except ε α} {f : α → Except ε β} {b : β} :
    (x >>= f) = .ok b ↔ ∃ a, x = .ok a ∧ f a = .ok b := by
  cases x <;> simp [bind, Except.bind]

theorem bind_error {x : Except ε α} {f : α → Except ε β} {e : ε} :
    (x >>= f) = .error e ↔ x = .error e ∨ ∃ a, x = .ok a ∧ f a = .error e := by
  cases x <;> simp [bind, Except.bind]

theorem forM_ok {f : α → Except ε Unit} {as : List α} :
    as.forM f = .ok () ↔ ∀ a ∈ as, f a = .ok () := by
  induction as with
  | nil => exact ⟨fun _ => by simp, fun _ => rfl⟩
  | cons a as ih =>
    have hbind : (a :: as).forM f = .ok () ↔ ∃ u, f a = .ok u ∧ as.forM f = .ok () := bind_ok
    rw [hbind, List.forall_mem_cons, ← ih]
    exact ⟨fun ⟨_, ha, has⟩ => ⟨ha, has⟩, fun ⟨ha, has⟩ => ⟨(), ha, has⟩⟩

theorem mapM_ok {f : α → Except ε β} {as : List α} {bs : List β} :
    as.mapM f = .ok bs ↔ List.Forall₂ (fun a b => f a = .ok b) as bs := by
  induction as generalizing bs with
  | nil => simp [pure, Except.pure, eq_comm]
  | cons a as ih =>
    rw [List.mapM_cons, bind_ok]
    constructor
    · rintro ⟨b, hb, h⟩
      obtain ⟨cs, hcs, h⟩ := bind_ok.1 h
      cases h
      exact .cons hb (ih.1 hcs)
    · rintro (_ | ⟨hb, hcs⟩)
      exact ⟨_, hb, bind_ok.2 ⟨_, ih.2 hcs, rfl⟩⟩

theorem mem_left_of_forall₂ {R : α → β → Prop} {as : List α} {bs : List β}
    (h : List.Forall₂ R as bs) : ∀ a ∈ as, ∃ b ∈ bs, R a b := by
  induction h with
  | nil => simp
  | cons hab _ ih =>
    refine List.forall_mem_cons.2 ⟨⟨_, List.mem_cons_self, hab⟩, fun a ha => ?_⟩
    obtain ⟨b, hb, hR⟩ := ih a ha
    exact ⟨b, List.mem_cons_of_mem _ hb, hR⟩

theorem mem_right_of_forall₂ {R : α → β → Prop} {as : List α} {bs : List β}
    (h : List.Forall₂ R as bs) : ∀ b ∈ bs, ∃ a ∈ as, R a b :=
  mem_left_of_forall₂ h.flip

theorem exists_forall₂ {R : α → β → Prop} {as : List α} (h : ∀ a ∈ as, ∃ b, R a b) :
    ∃ bs, List.Forall₂ R as bs := by
  induction as with
  | nil => exact ⟨[], .nil⟩
  | cons a as ih =>
    obtain ⟨⟨b, hb⟩, has⟩ := List.forall_mem_cons.1 h
    obtain ⟨bs, hbs⟩ := ih has
    exact ⟨b :: bs, .cons hb hbs⟩

theorem map_eq_of_forall₂ {R : α → β → Prop} {g : β → α} {as : List α} {bs : List β}
    (h : List.Forall₂ R as bs) (hg : ∀ a b, R a b → g b = a) : bs.map g = as := by
  induction h with
  | nil => rfl
  | cons hab _ ih => rw [List.map_cons, hg _ _ hab, ih]

theorem mapM_error {f : α → Except ε β} {as : List α} {e : ε} (h : as.mapM f = .error e) :
    ∃ a ∈ as, f a = .error e := by
  induction as with
  | nil => cases h
  | cons a as ih =>
    rw [List.mapM_cons] at h
    rcases bind_error.1 h with ha | ⟨b, -, h⟩
    · exact ⟨a, List.mem_cons_self, ha⟩
    · rcases bind_error.1 h with has | ⟨bs, -, h⟩
      · obtain ⟨d, hd, he⟩ := ih has
        exact ⟨d, List.mem_cons_of_mem _ hd, he⟩
      · cases h

theorem mapM_congr {f g : α → Except ε β} {as : List α} (h : ∀ a ∈ as, f a = g a) :
    as.mapM f = as.mapM g := by
  induction as with
  | nil => rfl
  | cons a as ih =>
    obtain ⟨ha, has⟩ := List.forall_mem_cons.1 h
    rw [List.mapM_cons, List.mapM_cons, ha, ih has]

theorem exists_mapM_ok {f : α → Except ε β} {as : List α} {P : α → β → Prop}
    (h : ∀ a ∈ as, ∃ b, f a = .ok b ∧ P a b) :
    ∃ bs, as.mapM f = .ok bs ∧ List.Forall₂ P as bs := by
  induction as with
  | nil => exact ⟨[], rfl, .nil⟩
  | cons a as ih =>
    obtain ⟨b, hb, hP⟩ := h a List.mem_cons_self
    obtain ⟨bs, hbs, hall⟩ := ih fun a ha => h a (List.mem_cons_of_mem _ ha)
    exact ⟨b :: bs, mapM_ok.2 (.cons hb (mapM_ok.1 hbs)), .cons hP hall⟩

theorem foldlM_cons_ok {step : σ → τ → Except ε σ} {s r : σ} {t : τ} {ts : List τ} :
    (t :: ts).foldlM step s = .ok r ↔ ∃ m, step s t = .ok m ∧ ts.foldlM step m = .ok r := by
  rw [List.foldlM_cons]
  cases h : step s t <;> simp [bind, Except.bind]

theorem foldlM_append_ok {step : σ → τ → Except ε σ} {s r : σ} {ts us : List τ} :
    (ts ++ us).foldlM step s = .ok r ↔
      ∃ m, ts.foldlM step s = .ok m ∧ us.foldlM step m = .ok r := by
  rw [List.foldlM_append]
  cases h : ts.foldlM step s <;> simp [bind, Except.bind]

theorem foldlM_concat_ok {step : σ → τ → Except ε σ} {s m r : σ} {t : τ} {ts : List τ}
    (h : ts.foldlM step s = .ok m) (ht : step m t = .ok r) : (ts ++ [t]).foldlM step s = .ok r :=
  foldlM_append_ok.2 ⟨m, h, foldlM_cons_ok.2 ⟨r, ht, rfl⟩⟩

theorem foldlM_error_split {step : σ → τ → Except ε σ} {s : σ} {ts : List τ} {e : ε}
    (h : ts.foldlM step s = .error e) : ∃ before t after m, ts = before ++ t :: after ∧
      before.foldlM step s = .ok m ∧ step m t = .error e := by
  induction ts generalizing s with
  | nil => cases h
  | cons t ts ih =>
    rw [List.foldlM_cons] at h
    rcases bind_error.1 h with ht | ⟨m, hm, h⟩
    · exact ⟨[], t, ts, s, rfl, rfl, ht⟩
    · obtain ⟨before, u, after, r, rfl, hr, hu⟩ := ih h
      exact ⟨t :: before, u, after, r, rfl, foldlM_cons_ok.2 ⟨m, hm, hr⟩, hu⟩

theorem foldlM_error {step : σ → τ → Except ε σ} {s : σ} {ts : List τ} {e : ε}
    (h : ts.foldlM step s = .error e) : ∃ t ∈ ts, ∃ m, step m t = .error e := by
  obtain ⟨before, t, after, m, rfl, -, ht⟩ := foldlM_error_split h
  exact ⟨t, List.mem_append_right _ List.mem_cons_self, m, ht⟩

theorem exists_foldlM_ok {step : σ → τ → Except ε σ} {ts : List τ} (s : σ)
    (h : ∀ t ∈ ts, ∀ s, ∃ m, step s t = .ok m) : ∃ r, ts.foldlM step s = .ok r := by
  induction ts generalizing s with
  | nil => exact ⟨s, rfl⟩
  | cons t ts ih =>
    obtain ⟨m, hm⟩ := h t List.mem_cons_self s
    obtain ⟨r, hr⟩ := ih m fun u hu => h u (List.mem_cons_of_mem _ hu)
    exact ⟨r, foldlM_cons_ok.2 ⟨m, hm, hr⟩⟩

theorem step_ok_of_foldlM {step : σ → τ → Except ε σ} {ts : List τ} {s r : σ}
    (h : ts.foldlM step s = .ok r) : ∀ t ∈ ts, ∃ m m', step m t = .ok m' := by
  induction ts generalizing s with
  | nil => simp
  | cons t ts ih =>
    obtain ⟨m, hm, hr⟩ := foldlM_cons_ok.1 h
    exact List.forall_mem_cons.2 ⟨⟨s, m, hm⟩, ih hr⟩

theorem foldlM_map_ok {step : σ → τ → Except ε σ} {step' : σ' → τ' → Except ε' σ'} {φ : σ → σ'}
    {g : τ → τ'} (Q : σ → Prop) {ts : List τ}
    (hstep : ∀ t ∈ ts, ∀ s r, step s t = .ok r → Q r → Q s ∧ step' (φ s) (g t) = .ok (φ r))
    {s r : σ} (h : ts.foldlM step s = .ok r) (hr : Q r) :
    Q s ∧ (ts.map g).foldlM step' (φ s) = .ok (φ r) := by
  induction ts generalizing s with
  | nil =>
    cases h
    exact ⟨hr, rfl⟩
  | cons t ts ih =>
    obtain ⟨hfirst, hrest⟩ := List.forall_mem_cons.1 hstep
    obtain ⟨m, hm, h⟩ := foldlM_cons_ok.1 h
    obtain ⟨hQ, hts⟩ := ih hrest h
    obtain ⟨hQ, ht⟩ := hfirst s m hm hQ
    exact ⟨hQ, foldlM_cons_ok.2 ⟨φ m, ht, hts⟩⟩

theorem foldlM_filter_ok {step : σ → τ → Except ε σ} {step' : σ' → τ → Except ε' σ'} {φ : σ → σ'}
    {keep : τ → Bool} {ts : List τ}
    (hkeep : ∀ t ∈ ts, keep t → ∀ s r, step s t = .ok r → step' (φ s) t = .ok (φ r))
    (hdrop : ∀ t ∈ ts, keep t = false → ∀ s r, step s t = .ok r → φ r = φ s) {s r : σ}
    (h : ts.foldlM step s = .ok r) : (ts.filter keep).foldlM step' (φ s) = .ok (φ r) := by
  induction ts generalizing s with
  | nil =>
    cases h
    rfl
  | cons t ts ih =>
    obtain ⟨hfirst, hrest⟩ := List.forall_mem_cons.1 hkeep
    obtain ⟨hfirst', hrest'⟩ := List.forall_mem_cons.1 hdrop
    obtain ⟨m, hm, h⟩ := foldlM_cons_ok.1 h
    have hrun := ih hrest hrest' h
    cases ht : keep t with
    | true =>
      rw [List.filter_cons_of_pos ht]
      exact foldlM_cons_ok.2 ⟨φ m, hfirst ht s m hm, hrun⟩
    | false =>
      rw [List.filter_cons_of_neg (Bool.eq_false_iff.1 ht), ← hfirst' ht s m hm]
      exact hrun

theorem mapM_map_ok {f : α → Except ε β} {f' : α' → Except ε' β'} {g : α → α'} {φ : β → β'}
    {as : List α} {bs : List β} (hf : ∀ a ∈ as, ∀ b, f a = .ok b → f' (g a) = .ok (φ b))
    (h : as.mapM f = .ok bs) : (as.map g).mapM f' = .ok (bs.map φ) := by
  induction as generalizing bs with
  | nil =>
    cases h
    rfl
  | cons a as ih =>
    obtain ⟨hfirst, hrest⟩ := List.forall_mem_cons.1 hf
    rw [List.mapM_cons] at h
    obtain ⟨b, hb, h⟩ := bind_ok.1 h
    obtain ⟨cs, hcs, h⟩ := bind_ok.1 h
    cases h
    rw [List.map_cons, List.mapM_cons]
    exact bind_ok.2 ⟨φ b, hfirst b hb, bind_ok.2 ⟨cs.map φ, ih hrest hcs, rfl⟩⟩

theorem foldlM_invariant {step : σ → τ → Except ε σ} {ts : List τ} (I : List τ → σ → Prop)
    (hstep : ∀ made t s m, t ∈ ts → I made s → step s t = .ok m → I (made ++ [t]) m) {s r : σ}
    (hs : I [] s) (h : ts.foldlM step s = .ok r) : I ts r := by
  suffices hall : ∀ rest made s, rest ⊆ ts → I made s → rest.foldlM step s = .ok r →
      I (made ++ rest) r from hall ts [] s (List.Subset.refl _) hs h
  intro rest
  induction rest with
  | nil =>
    intro made s _ hs h
    cases h
    simpa using hs
  | cons t rest ih =>
    intro made s hsub hs h
    obtain ⟨m, hm, hr⟩ := foldlM_cons_ok.1 h
    obtain ⟨ht, hrest⟩ := List.cons_subset.1 hsub
    simpa using ih (made ++ [t]) m hrest (hstep made t s m ht hs hm) hr

end Statechart
