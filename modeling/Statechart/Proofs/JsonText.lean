import Mathlib
import Statechart.Json.Reader
import Statechart.Json.Writer

namespace Statechart.Json

variable {c d e : Char} {cs g t : List Char} {n : Nat} {i : Indent}

theorem codes_letter (he : e ≠ 'u') (h : unescape? e = some d) (cs : List Char) :
    codes ('\\' :: e :: cs) = (codes cs).map fun r => (d.toNat :: r.1, r.2) := by
  rw [codes]
  · rw [h]
    cases codes cs <;> rfl
  · rintro _ _ _ _ _ hu
    exact absurd hu he

theorem hexValue?_hexDigit (h : n < 16) : hexValue? (hexDigit n) = some n := by
  interval_cases n <;> rfl

theorem codes_control (hn : n < 32) (cs : List Char) :
    codes ('\\' :: 'u' :: '0' :: '0' :: hexDigit (n / 16) :: hexDigit (n % 16) :: cs) =
      (codes cs).map fun r => (n :: r.1, r.2) := by
  have hzero : hexValue? '0' = some 0 := rfl
  have hhex : hex4? '0' '0' (hexDigit (n / 16)) (hexDigit (n % 16)) = some n := by
    rw [hex4?, hzero, hexValue?_hexDigit (by omega), hexValue?_hexDigit (by omega)]
    change some (4096 * 0 + 256 * 0 + 16 * (n / 16) + n % 16) = some n
    congr 1
    omega
  rw [codes, hhex]
  cases codes cs <;> rfl

theorem codes_plain (hquote : c ≠ '"') (hslash : c ≠ '\\') (hc : ¬ c.toNat < 32) (cs : List Char) :
    codes (c :: cs) = (codes cs).map fun r => (c.toNat :: r.1, r.2) := by
  rw [codes]
  · rw [if_neg (by simp [hslash, hc])]
    cases codes cs <;> rfl
  · exact hquote
  all_goals
    intros
    contradiction

theorem codes_escapeChar (c : Char) (cs : List Char) :
    codes (escapeChar c ++ cs) = (codes cs).map fun r => (c.toNat :: r.1, r.2) := by
  unfold escapeChar
  split_ifs with hquote hslash hback hfeed hline hreturn htab hcontrol
  · subst hquote
    exact codes_letter (by decide) rfl cs
  · subst hslash
    exact codes_letter (by decide) rfl cs
  · exact hback ▸ codes_letter (by decide) rfl cs
  · exact hfeed ▸ codes_letter (by decide) rfl cs
  · exact hline ▸ codes_letter (by decide) rfl cs
  · exact hreturn ▸ codes_letter (by decide) rfl cs
  · exact htab ▸ codes_letter (by decide) rfl cs
  · exact codes_control hcontrol cs
  · exact codes_plain hquote hslash hcontrol cs

theorem codes_escaped (cs rest : List Char) :
    codes (cs.flatMap escapeChar ++ '"' :: rest) = some (cs.map Char.toNat, rest) := by
  induction cs with
  | nil => rw [List.flatMap_nil, List.nil_append, codes, List.map_nil]
  | cons c cs ih =>
    rw [List.flatMap_cons, List.append_assoc, codes_escapeChar, ih]
    rfl

theorem not_surrogate (c : Char) :
    isHighSurrogate c.toNat = false ∧ isLowSurrogate c.toNat = false := by
  have hvalid : c.toNat < 0xD800 ∨ 0xDFFF < c.toNat ∧ c.toNat < 0x110000 := c.valid
  simp only [isHighSurrogate, isLowSurrogate, Bool.and_eq_false_iff, decide_eq_false_iff_not]
  omega

theorem chars?_map_toNat (cs : List Char) : chars? (cs.map Char.toNat) = some cs := by
  induction cs with
  | nil => rfl
  | cons c cs ih =>
    obtain ⟨hhigh, hlow⟩ := not_surrogate c
    cases cs with
    | nil => simp [chars?, hhigh, hlow]
    | cons d cs =>
      rw [List.map_cons] at ih
      simp [chars?, hhigh, hlow, ih]

theorem writeString_append (s : String) (cs : List Char) :
    writeString s ++ cs = '"' :: (s.toList.flatMap escapeChar ++ '"' :: cs) := by
  simp [writeString]

theorem string?_written (s : String) (rest : List Char) :
    string? (s.toList.flatMap escapeChar ++ '"' :: rest) = some (some s, rest) := by
  rw [string?, codes_escaped]
  simp [chars?_map_toNat]

theorem skip_append (hg : ∀ c ∈ g, isBlank c) (cs : List Char) : skip (g ++ cs) = skip cs :=
  List.dropWhile_append_of_pos hg

theorem skip_cons (hc : isBlank c = false) (cs : List Char) : skip (c :: cs) = c :: cs := by
  simp [skip, hc]

theorem isBlank_gap (i : Indent) : ∀ c ∈ i.gap, isBlank c := by
  cases i with
  | none => simp [Indent.gap]
  | some n =>
    intro c hc
    rcases List.mem_cons.1 hc with rfl | hc
    · rfl
    · rw [List.eq_of_mem_replicate hc]
      rfl

theorem value?_skip (hg : ∀ c ∈ g, isBlank c) (n : Nat) (cs : List Char) :
    value? n (g ++ cs) = value? n cs := by
  cases n with
  | zero => rfl
  | succ n => rw [value?, value?, skip_append hg]

theorem items?_skip (hg : ∀ c ∈ g, isBlank c) (n : Nat) (cs : List Char) :
    items? n (g ++ cs) = items? n cs := by
  cases n with
  | zero => rfl
  | succ n => rw [items?, items?, value?_skip hg]

theorem fields?_skip (hg : ∀ c ∈ g, isBlank c) (n : Nat) (cs : List Char) :
    fields? n (g ++ cs) = fields? n cs := by
  cases n with
  | zero => rfl
  | succ n => rw [fields?, fields?, skip_append hg]

/-- A value without numbers, readable throughout. -/
inductive Value.Plain : Value → Prop
  | null : Plain .null
  | bool (b : Bool) : Plain (.bool b)
  | string (s : String) : Plain (.string s)
  | array {vs : List Value} (h : ∀ v ∈ vs, Plain v) : Plain (.array vs)
  | object {fields : List (String × Value)} (h : ∀ f ∈ fields, Plain f.2) : Plain (.object fields)

def ReadsBack (i : Indent) (v : Value) : Prop :=
  ∀ (n : Nat) (rest : List Char), 2 * (write i v).length ≤ n →
    value? n (write i v ++ rest) = some (v, rest)

theorem write_array (i : Indent) (v : Value) (vs : List Value) :
    write i (.array (v :: vs)) = '[' :: (i.deeper.gap ++ (write i.deeper v ++
      (writeItems i.deeper vs ++ (i.gap ++ [']'])))) := by
  simp [write]

theorem write_object (i : Indent) (k : String) (v : Value) (fields : List (String × Value)) :
    write i (.object ((k, v) :: fields)) =
      '\x7b' :: (i.deeper.gap ++ (writeString k ++ (i.colon ++ (write i.deeper v ++
        (writeFields i.deeper fields ++ (i.gap ++ ['\x7d'])))))) := by
  simp [write]

theorem write_cons (i : Indent) {v : Value} (hv : v.Plain) :
    ∃ c cs, write i v = c :: cs ∧ isBlank c = false ∧ c ≠ ']' := by
  cases hv with
  | null => exact ⟨'n', _, rfl, rfl, by decide⟩
  | bool b => cases b <;> exact ⟨_, _, rfl, rfl, by decide⟩
  | string s => exact ⟨'"', _, rfl, rfl, by decide⟩
  | @array vs h =>
    cases vs with
    | nil => exact ⟨'[', _, rfl, rfl, by decide⟩
    | cons v vs => exact ⟨'[', _, write_array i v vs, rfl, by decide⟩
  | @object fields h =>
    cases fields with
    | nil => exact ⟨'\x7b', _, rfl, rfl, by decide⟩
    | cons f fields => exact ⟨'\x7b', _, write_object i f.1 f.2 fields, rfl, by decide⟩

theorem exists_step {v : Value} (hv : v.Plain) (hn : 2 * (write i v).length ≤ n) :
    ∃ m, n = m + 1 := by
  obtain ⟨c, cs, hcs, -, -⟩ := write_cons i hv
  rw [hcs, List.length_cons] at hn
  exact Nat.exists_eq_add_one_of_ne_zero (by omega)

theorem items?_written {vs : List Value} {v : Value} (hv : ReadsBack i v)
    (hvs : ∀ w ∈ vs, ReadsBack i w) (hg : ∀ c ∈ g, isBlank c)
    (hn : 2 * ((write i v).length + (writeItems i vs).length) < n) :
    items? n (write i v ++ (writeItems i vs ++ (g ++ ']' :: t))) = some (v :: vs, t) := by
  induction vs generalizing v n with
  | nil =>
    obtain ⟨n, rfl⟩ := Nat.exists_eq_add_one_of_ne_zero (Nat.ne_zero_of_lt hn)
    rw [items?, hv n _ (by omega)]
    simp only [writeItems, List.nil_append, skip_append hg, skip_cons (c := ']') rfl]
  | cons w ws ih =>
    obtain ⟨n, rfl⟩ := Nat.exists_eq_add_one_of_ne_zero (Nat.ne_zero_of_lt hn)
    have hrest := ih (hvs w List.mem_cons_self) (fun w hw => hvs w (.tail _ hw)) (n := n) (by
      simp only [writeItems, List.length_append, List.length_cons] at hn
      omega)
    rw [items?, hv n _ (by omega)]
    simp only [writeItems, List.cons_append, List.append_assoc, skip_cons (c := ',') rfl,
      items?_skip (isBlank_gap i), hrest, Option.map_some]

theorem value?_colon (i : Indent) (n : Nat) (cs : List Char) :
    ∃ cs', skip (i.colon ++ cs) = ':' :: cs' ∧ value? n cs' = value? n cs := by
  cases i with
  | none => exact ⟨cs, rfl, rfl⟩
  | some k => exact ⟨' ' :: cs, rfl, value?_skip (g := [' ']) (by simp [isBlank]) n cs⟩

theorem fields?_comma {v : Value} {k : String} {u : List Char} (hv : ReadsBack i v)
    (hn : 2 * (write i v).length ≤ n) (hcs : skip cs = ',' :: u) :
    fields? (n + 1) (writeString k ++ (i.colon ++ (write i v ++ cs))) =
      (fields? n u).map fun r => ((some k, v) :: r.1, r.2) := by
  obtain ⟨cs', hcolon, hvalue⟩ := value?_colon i n (write i v ++ cs)
  rw [fields?, writeString_append, skip_cons rfl]
  simp only [string?_written, hcolon, hvalue, hv n cs hn, hcs]

theorem fields?_close {v : Value} {k : String} {u : List Char} (hv : ReadsBack i v)
    (hn : 2 * (write i v).length ≤ n) (hcs : skip cs = '\x7d' :: u) :
    fields? (n + 1) (writeString k ++ (i.colon ++ (write i v ++ cs))) =
      some ([(some k, v)], u) := by
  obtain ⟨cs', hcolon, hvalue⟩ := value?_colon i n (write i v ++ cs)
  rw [fields?, writeString_append, skip_cons rfl]
  simp only [string?_written, hcolon, hvalue, hv n cs hn, hcs]

theorem fields?_written {fields : List (String × Value)} {k : String} {v : Value}
    (hv : ReadsBack i v) (hfields : ∀ f ∈ fields, ReadsBack i f.2) (hg : ∀ c ∈ g, isBlank c)
    (hn : 2 * ((write i v).length + (writeFields i fields).length) < n) :
    fields? n (writeString k ++ (i.colon ++ (write i v ++
      (writeFields i fields ++ (g ++ '\x7d' :: t))))) =
        some ((some k, v) :: fields.map fun f => (some f.1, f.2), t) := by
  induction fields generalizing k v n with
  | nil =>
    obtain ⟨n, rfl⟩ := Nat.exists_eq_add_one_of_ne_zero (Nat.ne_zero_of_lt hn)
    refine fields?_close hv (by omega) ?_
    rw [writeFields, List.nil_append, skip_append hg, skip_cons rfl]
  | cons f fields ih =>
    obtain ⟨k', w⟩ := f
    obtain ⟨n, rfl⟩ := Nat.exists_eq_add_one_of_ne_zero (Nat.ne_zero_of_lt hn)
    have hw : ReadsBack i w := hfields (k', w) List.mem_cons_self
    have hrest := ih (k := k') hw
      (fun f hf => hfields f (.tail _ hf)) (n := n) (by
        simp only [writeFields, List.length_append, List.length_cons] at hn
        omega)
    have hcomma : skip (writeFields i ((k', w) :: fields) ++ (g ++ '\x7d' :: t)) =
        ',' :: (i.gap ++ (writeString k' ++ (i.colon ++ (write i w ++
          (writeFields i fields ++ (g ++ '\x7d' :: t)))))) := by
      simp only [writeFields, List.cons_append, List.append_assoc, skip_cons (c := ',') rfl]
    rw [fields?_comma hv (by omega) hcomma, fields?_skip (isBlank_gap i), hrest]
    rfl

theorem objectOf_map (fields : List (String × Value)) :
    objectOf (fields.map fun f => (some f.1, f.2)) = .object fields := by
  have hall : (fields.map fun f => (some f.1, f.2)).mapM
      (fun f : Option String × Value => f.1.map fun k => (k, f.2)) = some fields := by
    induction fields with
    | nil => rfl
    | cons f fields ih => simp [List.mapM_cons, ih]
  rw [objectOf, hall]

theorem value?_array {cs' : List Char} (hg : ∀ c ∈ g, isBlank c) (hcs : cs = c :: cs')
    (hc : isBlank c = false) (hne : c ≠ ']') :
    value? (n + 1) ('[' :: (g ++ cs)) = (items? n cs).map fun r => (.array r.1, r.2) := by
  subst hcs
  rw [value?, skip_cons rfl]
  simp only [skip_append hg, skip_cons hc]
  split
  · rename_i h
    cases h
    exact absurd rfl hne
  · rfl

theorem readsBack_array {vs : List Value} (hplain : ∀ v ∈ vs, v.Plain)
    (h : ∀ v ∈ vs, ∀ i, ReadsBack i v) (i : Indent) : ReadsBack i (.array vs) := by
  intro n rest hn
  obtain ⟨n, rfl⟩ := exists_step (.array hplain) hn
  cases vs with
  | nil => rfl
  | cons v vs =>
    obtain ⟨c, cs, hcs, hc, hne⟩ := write_cons i.deeper (hplain v List.mem_cons_self)
    have hitems := items?_written (n := n) (t := rest) (h v List.mem_cons_self i.deeper)
      (fun w hw => h w (.tail _ hw) i.deeper) (isBlank_gap i) (by
        simp only [write_array, List.length_append, List.length_cons] at hn
        omega)
    simp only [write_array, List.cons_append, List.append_assoc, List.nil_append]
    rw [value?_array (isBlank_gap _) (by rw [hcs]; rfl) hc hne, hitems]
    rfl

theorem colon_deeper (i : Indent) : i.deeper.colon = i.colon := by
  cases i <;> rfl

theorem value?_object {cs' : List Char} (hg : ∀ c ∈ g, isBlank c) (hcs : cs = '"' :: cs') :
    value? (n + 1) ('\x7b' :: (g ++ cs)) = (fields? n cs).map fun r => (objectOf r.1, r.2) := by
  subst hcs
  rw [value?, skip_cons rfl]
  simp only [skip_append hg, skip_cons (c := '"') rfl]
  rfl

theorem readsBack_object {fields : List (String × Value)} (hplain : ∀ f ∈ fields, f.2.Plain)
    (h : ∀ f ∈ fields, ∀ i, ReadsBack i f.2) (i : Indent) : ReadsBack i (.object fields) := by
  intro n rest hn
  obtain ⟨n, rfl⟩ := exists_step (.object hplain) hn
  cases fields with
  | nil => rfl
  | cons f fields =>
    obtain ⟨k, v⟩ := f
    have hv : ReadsBack i.deeper v := h (k, v) List.mem_cons_self i.deeper
    have hfields := fields?_written (n := n) (t := rest) (k := k) hv
      (fun f hf => h f (.tail _ hf) i.deeper) (isBlank_gap i) (by
        simp only [write_object, List.length_append, List.length_cons] at hn
        omega)
    simp only [write_object, ← colon_deeper i, List.cons_append, List.append_assoc,
      List.nil_append]
    rw [value?_object (isBlank_gap _) (by rw [writeString]; rfl), hfields, Option.map_some,
      ← List.map_cons (f := fun f : String × Value => (some f.1, f.2)) (a := (k, v)), objectOf_map]

-- The indentation is general: the items of an array stand one level deeper than the array.
theorem Value.Plain.readsBack {v : Value} (h : v.Plain) : ∀ i, ReadsBack i v := by
  induction h with
  | null =>
    intro i n rest hn
    obtain ⟨n, rfl⟩ := exists_step .null hn
    rfl
  | bool b =>
    intro i n rest hn
    obtain ⟨n, rfl⟩ := exists_step (.bool b) hn
    cases b <;> rfl
  | string s =>
    intro i n rest hn
    obtain ⟨n, rfl⟩ := exists_step (.string s) hn
    rw [write, writeString_append, value?, skip_cons rfl]
    simp [string?_written]
  | array hplain ih => exact readsBack_array hplain ih
  | object hplain ih => exact readsBack_object hplain ih

theorem Value.Plain.read? {v : Value} (h : v.Plain) (i : Indent) :
    read? (String.ofList (write i v)) = some v := by
  have hread := h.readsBack i (2 * (write i v).length + 1) [] (by omega)
  rw [List.append_nil] at hread
  rw [Json.read?, String.toList_ofList, hread]
  rfl

end Statechart.Json
