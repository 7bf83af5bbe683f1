import Mathlib
import Statechart.Proofs.Spelling

namespace Statechart

open Reader

def NoteSide.word : NoteSide → String
  | left => "left"
  | right => "right"

inductive Endpoint.Written : Endpoint → List Char → Prop
  | pseudo : Written .pseudo "[*]".toList
  | named {x : String} : IsName x → Written (.named x) x.toList

namespace Statement

inductive Tail : Option String → List Char → Prop
  | absent : Tail none []
  | text (cs : List Char) : Tail (some (String.ofList (Text.trim cs))) (':' :: cs)

inductive Form where
  | state
  | note
  | direction
  | close
  | separator
  | transition
  | description
  deriving DecidableEq, Repr

def Form.all : List Form :=
  [state, note, direction, close, separator, transition, description]

inductive Subject : String → Option String → List Char → Prop
  | plain {x : String} : IsName x → Subject x none x.toList
  | labelled {x label : String} {a b : List Char} : (∀ c ∈ label.toList, c ≠ '"') → IsGap a →
      IsGap b → IsName x →
      Subject x (some label)
        ('"' :: (label.toList ++ '"' :: (a ++ ("as".toList ++ (b ++ x.toList)))))

def brace (opens : Bool) : List Char :=
  if opens then ['\x7b'] else []

inductive Written : Form → Statement → List Char → Prop
  | state {x : String} {label : Option String} {opens : Bool} {a cs b c : List Char} :
      IsGap a → Subject x label cs → (∀ e ∈ b, isSpace e) → (∀ e ∈ c, isSpace e) →
      Written .state (.state x label opens)
        ("state".toList ++ (a ++ (cs ++ (b ++ (brace opens ++ c)))))
  | note {side : NoteSide} {x : String} {text : Option String} {a b c d tail : List Char} :
      IsGap a → IsGap b → IsGap c → IsName x → (∀ e ∈ d, isSpace e) → Tail text tail →
      Written .note (.note side x text)
        ("note".toList ++ (a ++ (side.word.toList ++ (b ++ ("of".toList ++ (c ++
          (x.toList ++ (d ++ tail))))))))
  | direction {x : String} {a b : List Char} : IsGap a → IsName x → (∀ e ∈ b, isSpace e) →
      Written .direction (.direction x) ("direction".toList ++ (a ++ (x.toList ++ b)))
  | close {a : List Char} : (∀ e ∈ a, isSpace e) → Written .close .close ('\x7d' :: a)
  | separator {a : List Char} : (∀ e ∈ a, isSpace e) →
      Written .separator .separator ("--".toList ++ a)
  | transition {source target : Endpoint} {label : Option String}
      {cs a b ds c tail : List Char} :
      source.Written cs → (∀ e ∈ a, isSpace e) → (∀ e ∈ b, isSpace e) → target.Written ds →
      (∀ e ∈ c, isSpace e) → Tail label tail →
      Written .transition (.transition source target (label.filter (· ≠ "")))
        (cs ++ (a ++ ("-->".toList ++ (b ++ (ds ++ (c ++ tail))))))
  | description {x text : String} {a tail : List Char} : IsName x → (∀ e ∈ a, isSpace e) →
      Tail (some text) tail → Written .description (.description x text) (x.toList ++ (a ++ tail))

def Form.reader : Form → Reader Statement
  | state => stateForm
  | note => noteForm
  | direction => directionForm
  | close => closeForm
  | separator => separatorForm
  | transition => transitionForm
  | description => descriptionForm

theorem form_eq : form = oneOf (Form.all.map Form.reader) :=
  rfl

variable {k : Form} {s : Statement} {x : String} {cs ws rest : List Char}

theorem spells_endpoint : Spells endpoint Endpoint.Written := by
  refine .either ?_ ?_
  · refine (spells_literal _).bind ?_
    rintro _ _ rfl
    exact spells_pure .pseudo
  · refine spells_name.bind ?_
    rintro x _ ⟨hx, rfl⟩
    exact spells_pure (by simpa using Endpoint.Written.named hx)

theorem spells_tail : Spells (optional tailText) Tail := by
  refine .optional (spells_tailText.mono ?_) .absent
  rintro _ _ ⟨cs, rfl, rfl⟩
  exact .text cs

theorem spells_stateForm : Spells stateForm (Written .state) := by
  refine (spells_keyword _).bind ?_
  rintro _ _ ⟨a, ha, rfl⟩
  refine Spells.bind (L := fun r cs => Subject r.2 r.1 cs) (.either ?_ ?_) ?_
  · refine spells_quoted.bind ?_
    rintro label _ ⟨hlabel, rfl⟩
    refine spells_someSpaces.bind fun _ d hd => (spells_keyword _).bind ?_
    rintro _ _ ⟨e, he, rfl⟩
    refine spells_name.bind ?_
    rintro x _ ⟨hx, rfl⟩
    exact spells_pure (by simpa using Subject.labelled hlabel hd he hx)
  · refine spells_name.bind ?_
    rintro x _ ⟨hx, rfl⟩
    exact spells_pure (by simpa using Subject.plain hx)
  rintro ⟨label, x⟩ cs hcs
  refine spells_spaces.bind ?_
  rintro _ b ⟨rfl, hb⟩
  refine Spells.bind (L := fun o w => w = brace o.isSome) (.optional (spells_char _) rfl) ?_
  rintro o _ rfl
  refine spells_spaces.bind ?_
  rintro _ c ⟨rfl, hc⟩
  refine spells_atEnd.bind ?_
  rintro _ _ rfl
  exact spells_pure (by simpa using Written.state ha hcs hb hc)

theorem spells_noteForm : Spells noteForm (Written .note) := by
  refine (spells_keyword _).bind ?_
  rintro _ _ ⟨a, ha, rfl⟩
  refine Spells.bind (L := fun side w => w = side.word.toList) (.either ?_ ?_) ?_
  · refine (spells_literal _).bind ?_
    rintro _ _ rfl
    exact spells_pure rfl
  · refine (spells_literal _).bind ?_
    rintro _ _ rfl
    exact spells_pure rfl
  rintro side _ rfl
  refine spells_someSpaces.bind fun _ b hb => (spells_keyword _).bind ?_
  rintro _ _ ⟨c, hc, rfl⟩
  refine spells_name.bind ?_
  rintro x _ ⟨hx, rfl⟩
  refine spells_spaces.bind ?_
  rintro _ d ⟨rfl, hd⟩
  refine spells_tail.bind fun text tail htail => spells_atEnd.bind ?_
  rintro _ _ rfl
  exact spells_pure (by simpa using Written.note ha hb hc hx hd htail)

theorem spells_blankEnd {M : Statement → List Char → Prop}
    (h : ∀ a, (∀ c ∈ a, isSpace c) → M s a) :
    Spells (do let _ ← spaces; atEnd; pure s) M := by
  refine spells_spaces.bind ?_
  rintro _ a ⟨rfl, ha⟩
  refine spells_atEnd.bind ?_
  rintro _ _ rfl
  exact spells_pure (by simpa using h a ha)

theorem spells_directionForm : Spells directionForm (Written .direction) := by
  refine (spells_keyword _).bind ?_
  rintro _ _ ⟨a, ha, rfl⟩
  refine spells_name.bind ?_
  rintro x _ ⟨hx, rfl⟩
  exact spells_blankEnd fun b hb => by simpa using Written.direction ha hx hb

theorem spells_closeForm : Spells closeForm (Written .close) := by
  refine (spells_char _).bind ?_
  rintro _ _ rfl
  exact spells_blankEnd fun a ha => Written.close ha

theorem spells_separatorForm : Spells separatorForm (Written .separator) := by
  refine (spells_literal _).bind ?_
  rintro _ _ rfl
  exact spells_blankEnd fun a ha => Written.separator ha

theorem spells_transitionForm : Spells transitionForm (Written .transition) := by
  refine spells_endpoint.bind fun source cs hs => spells_spaces.bind ?_
  rintro _ a ⟨rfl, ha⟩
  refine (spells_literal _).bind ?_
  rintro _ _ rfl
  refine spells_spaces.bind ?_
  rintro _ b ⟨rfl, hb⟩
  refine spells_endpoint.bind fun target ds ht => spells_spaces.bind ?_
  rintro _ c ⟨rfl, hc⟩
  refine spells_tail.bind fun label tail hl => spells_atEnd.bind ?_
  rintro _ _ rfl
  exact spells_pure (by simpa using Written.transition hs ha hb ht hc hl)

theorem spells_descriptionForm : Spells descriptionForm (Written .description) := by
  refine spells_name.bind ?_
  rintro x _ ⟨hx, rfl⟩
  refine spells_spaces.bind ?_
  rintro _ a ⟨rfl, ha⟩
  refine spells_tailText.bind ?_
  rintro _ _ ⟨cs, rfl, rfl⟩
  refine spells_atEnd.bind ?_
  rintro _ _ rfl
  exact spells_pure (by simpa using Written.description hx ha (.text cs))

theorem spells_reader (k : Form) : Spells k.reader (Written k) := by
  cases k with
  | state => exact spells_stateForm
  | note => exact spells_noteForm
  | direction => exact spells_directionForm
  | close => exact spells_closeForm
  | separator => exact spells_separatorForm
  | transition => exact spells_transitionForm
  | description => exact spells_descriptionForm

def ToEnd {α : Type} (p : Reader α) : Prop :=
  ∀ cs a rest, Reads p cs a rest → rest = []

theorem ToEnd.bind {α β : Type} {p : Reader α} {f : α → Reader β} (hf : ∀ a, ToEnd (f a)) :
    ToEnd (p >>= f) := by
  intro cs b rest h
  obtain ⟨a, mid, -, h⟩ := exists_of_bind h
  exact hf a mid b rest h

theorem toEnd_atEnd (s : Statement) : ToEnd (do atEnd; pure s) := by
  intro cs t rest h
  obtain ⟨_, mid, hend, ⟨⟩⟩ := exists_of_bind h
  exact (eq_of_atEnd hend).2

theorem toEnd_reader (k : Form) : ToEnd k.reader := by
  cases k with
  | state =>
    exact .bind fun _ => .bind fun _ => .bind fun _ => .bind fun _ => .bind fun _ => toEnd_atEnd _
  | note =>
    exact .bind fun _ => .bind fun _ => .bind fun _ => .bind fun _ => .bind fun _ => .bind fun _ =>
      .bind fun _ => toEnd_atEnd _
  | direction => exact .bind fun _ => .bind fun _ => .bind fun _ => toEnd_atEnd _
  | close | separator => exact .bind fun _ => .bind fun _ => toEnd_atEnd _
  | transition =>
    exact .bind fun _ => .bind fun _ => .bind fun _ => .bind fun _ => .bind fun _ => .bind fun _ =>
      .bind fun _ => toEnd_atEnd _
  | description => exact .bind fun _ => .bind fun _ => .bind fun _ => toEnd_atEnd _

theorem written_of_reads (h : Reads k.reader cs s rest) : rest = [] ∧ Written k s cs := by
  obtain rfl := toEnd_reader k cs s rest h
  obtain ⟨w, hw, rfl⟩ := (spells_reader k).reads cs s [] h
  exact ⟨rfl, (List.append_nil w).symm ▸ hw⟩

theorem isSpace_of_isNameChar {c : Char} (h : Text.isNameChar c) : isSpace c = false := by
  by_contra hspace
  rw [isNameChar_of_isSpace (Bool.not_eq_false _ ▸ hspace)] at h
  exact Bool.false_ne_true h

theorem head_of_isName (hx : IsName x) (rest : List Char) :
    ∃ c, (x.toList ++ rest).head? = some c ∧ Text.isNameChar c := by
  obtain ⟨c, cs, hcs, hc⟩ := hx.exists_cons
  rw [hcs]
  exact ⟨c, rfl, hc⟩

theorem head_ne_of_isName {d : Char} (hx : IsName x) (rest : List Char)
    (hd : Text.isNameChar d = false) : (x.toList ++ rest).head? ≠ some d := by
  obtain ⟨c, hhead, hc⟩ := head_of_isName hx rest
  rw [hhead]
  rintro ⟨⟩
  exact Bool.false_ne_true (hd.symm.trans hc)

theorem first_of_isName (hx : IsName x) (rest : List Char) :
    ∀ c ∈ (x.toList ++ rest).head?, isSpace c = false := by
  obtain ⟨c, hhead, hc⟩ := head_of_isName hx rest
  rw [hhead]
  rintro _ ⟨⟩
  exact isSpace_of_isNameChar hc

theorem next_of_spaces (hws : ∀ c ∈ ws, isSpace c)
    (h : ∀ c ∈ rest.head?, Text.isNameChar c = false) :
    ∀ c ∈ (ws ++ rest).head?, Text.isNameChar c = false := by
  cases ws with
  | nil => exact h
  | cons d ws =>
    rintro _ ⟨⟩
    exact isNameChar_of_isSpace (hws d List.mem_cons_self)

theorem next_of_all_spaces (hws : ∀ c ∈ ws, isSpace c) :
    ∀ c ∈ ws.head?, Text.isNameChar c = false :=
  fun c hc => isNameChar_of_isSpace (hws c (List.mem_of_mem_head? hc))

theorem spaces_reads_all (hws : ∀ c ∈ ws, isSpace c) : Reads spaces ws ws [] := by
  have hread : Reads spaces (ws ++ []) ws [] := spaces_reads ⟨hws, by simp⟩
  rwa [List.append_nil] at hread

theorem Tail.ends {t : Option String} {tail : List Char} (h : Tail t tail)
    (hws : ∀ c ∈ ws, isSpace c) : Ends isSpace ws tail := by
  refine ⟨hws, ?_⟩
  cases h <;> rintro _ ⟨⟩
  rfl

theorem Tail.next {t : Option String} {tail : List Char} (h : Tail t tail)
    (hws : ∀ c ∈ ws, isSpace c) : ∀ c ∈ (ws ++ tail).head?, Text.isNameChar c = false := by
  refine next_of_spaces hws ?_
  cases h <;> rintro _ ⟨⟩
  decide +kernel

theorem Tail.reads {t : Option String} {tail : List Char} (h : Tail t tail) :
    Reads (optional tailText) tail t [] := by
  cases h with
  | absent => exact optional_passes (char_fails (by simp)).bind_first
  | text cs => exact (tailText_reads cs).optional

theorem endpoint_first {e : Endpoint} (h : e.Written cs) (rest : List Char) :
    ∀ c ∈ (cs ++ rest).head?, isSpace c = false := by
  cases h with
  | pseudo =>
    rintro _ ⟨⟩
    rfl
  | named hx => exact first_of_isName hx rest

theorem endpoint_reads {e : Endpoint} (h : e.Written cs)
    (hnext : ∀ c ∈ rest.head?, Text.isNameChar c = false) : Reads endpoint (cs ++ rest) e rest := by
  cases h with
  | pseudo => exact ((literal_self "[*]".toList rest).bind (reads_pure Endpoint.pseudo rest)).either
  | @named x hx =>
    have hpseudo : Fails (literal "[*]".toList) (x.toList ++ rest) :=
      literal_fails (c := '[') (head_ne_of_isName hx rest (by decide +kernel))
    exact hpseudo.bind_first.either_reads
      ((name_reads hx hnext).bind (reads_pure (Endpoint.named x) rest))

theorem Subject.first {label : Option String} (h : Subject x label cs) (rest : List Char) :
    ∀ c ∈ (cs ++ rest).head?, isSpace c = false := by
  cases h with
  | plain hx => exact first_of_isName hx rest
  | labelled =>
    rintro _ ⟨⟩
    rfl

theorem Subject.reads {label : Option String} (h : Subject x label cs)
    (hnext : ∀ c ∈ rest.head?, Text.isNameChar c = false) :
    Reads (either
      (do
        let label ← quoted
        someSpaces
        keyword "as"
        pure (some label, ← name))
      (do pure (none, ← name))) (cs ++ rest) (label, x) rest := by
  cases h with
  | plain hx =>
    have hquoted : Fails quoted (x.toList ++ rest) :=
      (char_fails (head_ne_of_isName hx rest (by decide +kernel))).bind_first
    exact hquoted.bind_first.either_reads ((name_reads hx hnext).bind (reads_pure _ rest))
  | @labelled label a b hlabel ha hb hx =>
    have has : ∀ c ∈ ("as".toList ++ (b ++ (x.toList ++ rest))).head?, isSpace c = false := by
      rintro _ ⟨⟩
      rfl
    refine Reads.either ?_
    simp only [List.cons_append, List.append_assoc]
    exact (quoted_reads hlabel _).bind ((someSpaces_reads ⟨ha.all, has⟩ ha.nonempty).bind
      ((keyword_reads ⟨hb.all, first_of_isName hx rest⟩ hb.nonempty).bind
        ((name_reads hx hnext).bind (reads_pure (some label, x) rest))))

theorem stateForm_reads {label : Option String} {opens : Bool} {a b c : List Char} (ha : IsGap a)
    (hcs : Subject x label cs) (hb : ∀ e ∈ b, isSpace e) (hc : ∀ e ∈ c, isSpace e) :
    Reads stateForm ("state".toList ++ (a ++ (cs ++ (b ++ (brace opens ++ c)))))
      (.state x label opens) [] := by
  have hnext : ∀ e ∈ (b ++ (brace opens ++ c)).head?, Text.isNameChar e = false := by
    refine next_of_spaces hb ?_
    cases opens with
    | true =>
      rintro _ ⟨⟩
      decide +kernel
    | false => exact next_of_all_spaces hc
  refine (keyword_reads ⟨ha.all, hcs.first _⟩ ha.nonempty).bind ((hcs.reads hnext).bind ?_)
  cases opens with
  | true =>
    have hopen : Ends isSpace b ('\x7b' :: c) := by
      refine ⟨hb, ?_⟩
      rintro _ ⟨⟩
      rfl
    exact (spaces_reads hopen).bind ((char_self '\x7b' c).optional.bind
      ((spaces_reads_all hc).bind rfl))
  | false =>
    have hall : ∀ e ∈ b ++ c, isSpace e := List.forall_mem_append.2 ⟨hb, hc⟩
    exact (spaces_reads_all hall).bind ((optional_passes (char_fails (by simp))).bind rfl)

theorem side_reads (side : NoteSide) (rest : List Char) :
    Reads (either (do literal "right".toList; pure NoteSide.right)
      (do literal "left".toList; pure NoteSide.left)) (side.word.toList ++ rest) side rest := by
  cases side with
  | right => exact ((literal_self "right".toList rest).bind (reads_pure NoteSide.right rest)).either
  | left =>
    have hright : Fails (literal "right".toList) ("left".toList ++ rest) :=
      literal_fails (c := 'r') (by simp)
    exact hright.bind_first.either_reads
      ((literal_self "left".toList rest).bind (reads_pure NoteSide.left rest))

theorem noteForm_reads {side : NoteSide} {text : Option String} {a b c d tail : List Char}
    (ha : IsGap a) (hb : IsGap b) (hc : IsGap c) (hx : IsName x) (hd : ∀ e ∈ d, isSpace e)
    (ht : Tail text tail) :
    Reads noteForm ("note".toList ++ (a ++ (side.word.toList ++ (b ++ ("of".toList ++ (c ++
      (x.toList ++ (d ++ tail)))))))) (.note side x text) [] := by
  refine (keyword_reads ⟨ha.all, ?_⟩ ha.nonempty).bind ((side_reads side _).bind ?_)
  · cases side <;> rintro _ ⟨⟩ <;> rfl
  refine (someSpaces_reads ⟨hb.all, ?_⟩ hb.nonempty).bind ?_
  · rintro _ ⟨⟩
    rfl
  exact (keyword_reads ⟨hc.all, first_of_isName hx _⟩ hc.nonempty).bind
    ((name_reads hx (ht.next hd)).bind ((spaces_reads (ht.ends hd)).bind (ht.reads.bind rfl)))

theorem transitionForm_reads {source target : Endpoint} {label : Option String}
    {a b ds c tail : List Char} (hs : source.Written cs) (ha : ∀ e ∈ a, isSpace e)
    (hb : ∀ e ∈ b, isSpace e) (ht : target.Written ds) (hc : ∀ e ∈ c, isSpace e)
    (hl : Tail label tail) :
    Reads transitionForm (cs ++ (a ++ ("-->".toList ++ (b ++ (ds ++ (c ++ tail))))))
      (.transition source target (label.filter (· ≠ ""))) [] := by
  have harrow : Ends isSpace a ("-->".toList ++ (b ++ (ds ++ (c ++ tail)))) := by
    refine ⟨ha, ?_⟩
    rintro _ ⟨⟩
    rfl
  have hnext : ∀ e ∈ (a ++ ("-->".toList ++ (b ++ (ds ++ (c ++ tail))))).head?,
      Text.isNameChar e = false := by
    refine next_of_spaces ha ?_
    rintro _ ⟨⟩
    decide +kernel
  exact (endpoint_reads hs hnext).bind ((spaces_reads harrow).bind ((literal_self _ _).bind
    ((spaces_reads ⟨hb, endpoint_first ht _⟩).bind ((endpoint_reads ht (hl.next hc)).bind
      ((spaces_reads (hl.ends hc)).bind (hl.reads.bind rfl))))))

theorem reads_of_written (h : Written k s cs) : Reads k.reader cs s [] := by
  cases h with
  | state ha hcs hb hc => exact stateForm_reads ha hcs hb hc
  | note ha hb hc hx hd ht => exact noteForm_reads ha hb hc hx hd ht
  | @direction x a b ha hx hb =>
    exact (keyword_reads ⟨ha.all, first_of_isName hx b⟩ ha.nonempty).bind
      ((name_reads hx (next_of_all_spaces hb)).bind ((spaces_reads_all hb).bind rfl))
  | @close a ha => exact (char_self '\x7d' a).bind ((spaces_reads_all ha).bind rfl)
  | @separator a ha => exact (literal_self "--".toList a).bind ((spaces_reads_all ha).bind rfl)
  | transition hs ha hb ht hc hl => exact transitionForm_reads hs ha hb ht hc hl
  | description hx ha ht =>
    cases ht with
    | text t =>
      have htail := Tail.text t
      exact (name_reads hx (htail.next ha)).bind ((spaces_reads (htail.ends ha)).bind
        ((tailText_reads t).bind rfl))

theorem reads_iff_written : Reads k.reader cs s rest ↔ rest = [] ∧ Written k s cs :=
  ⟨written_of_reads, fun ⟨hrest, h⟩ => hrest ▸ reads_of_written h⟩

def markAfter (cs : List Char) : Option Char :=
  ((cs.dropWhile Text.isNameChar).dropWhile isSpace).head?

def Form.of (word : List Char) (mark : Option Char) : Form :=
  if mark = some '\x7d' then close
  else if mark = some '[' then transition
  else if mark = some ':' then description
  else if mark = some '-' then if word = [] then separator else transition
  else if word = "state".toList then state
  else if word = "note".toList then note
  else direction

def Form.ofLine (cs : List Char) : Form :=
  Form.of (cs.takeWhile Text.isNameChar) (markAfter cs)

theorem ofLine_split {w : List Char} (hw : ∀ c ∈ w, Text.isNameChar c) (hws : Ends isSpace ws rest)
    (hnext : ∀ c ∈ (ws ++ rest).head?, Text.isNameChar c = false) :
    Form.ofLine (w ++ (ws ++ rest)) = Form.of w rest.head? := by
  obtain ⟨htake, hdrop⟩ := Ends.span ⟨hw, hnext⟩
  rw [Form.ofLine, markAfter, htake, hdrop, hws.span.2]

theorem ofLine_keyword {w : String} (hw : IsName w) (hws : IsGap ws)
    (hrest : ∀ c ∈ rest.head?, isSpace c = false) :
    Form.ofLine (w.toList ++ (ws ++ rest)) = Form.of w.toList rest.head? := by
  refine ofLine_split hw.2 ⟨hws.all, hrest⟩ ?_
  obtain ⟨c, cs, rfl⟩ := List.exists_cons_of_ne_nil hws.nonempty
  rintro _ ⟨⟩
  exact isNameChar_of_isSpace (hws.all c List.mem_cons_self)

theorem ofLine_word {c : Char} (w ws : List Char) (hw : ∀ c ∈ w, Text.isNameChar c)
    (hws : ∀ c ∈ ws, isSpace c) (hspace : isSpace c = false) (hname : Text.isNameChar c = false) :
    Form.ofLine (w ++ (ws ++ c :: rest)) = Form.of w (some c) := by
  refine ofLine_split hw ⟨hws, ?_⟩ (next_of_spaces hws ?_) <;>
  · rintro _ ⟨⟩
    assumption

theorem of_of_isNameChar {w : List Char} {c : Char} (h : Text.isNameChar c ∨ c = '"') :
    Form.of w (some c) =
      if w = "state".toList then .state else if w = "note".toList then .note else .direction := by
  have hne : ∀ d, Text.isNameChar d = false → d ≠ '"' → some c ≠ some d := by
    rintro d hd hquote ⟨⟩
    rcases h with h | h
    · exact Bool.false_ne_true (hd.symm.trans h)
    · exact hquote h
  have hbrace := hne '\x7d' (by decide +kernel) (by decide)
  have hstar := hne '[' (by decide +kernel) (by decide)
  have hcolon := hne ':' (by decide +kernel) (by decide)
  have hdash := hne '-' (by decide +kernel) (by decide)
  rw [Form.of, if_neg hbrace, if_neg hstar, if_neg hcolon, if_neg hdash]

def keywords : List String :=
  ["state", "as", "note", "right", "left", "of", "direction"]

theorem isName_of_mem_keywords {w : String} (h : w ∈ keywords) : IsName w := by
  simp only [keywords, List.mem_cons, List.not_mem_nil, or_false] at h
  rcases h with rfl | rfl | rfl | rfl | rfl | rfl | rfl <;>
    exact isName_of_lower _ rfl (by simp) (by simp)

theorem Written.ofLine (h : Written k s cs) : Form.ofLine cs = k := by
  have hkeyword : ∀ w ∈ ["state", "note", "direction"], IsName w := by
    intro w hw
    apply isName_of_mem_keywords
    simp only [List.mem_cons, List.not_mem_nil, or_false] at hw
    rcases hw with rfl | rfl | rfl <;> simp [keywords]
  cases h with
  | state ha hcs hb hc =>
    rw [ofLine_keyword (hkeyword _ (by simp)) ha (hcs.first _)]
    cases hcs with
    | plain hx =>
      obtain ⟨c, hhead, hc⟩ := head_of_isName hx _
      rw [hhead, of_of_isNameChar (.inl hc), if_pos rfl]
    | labelled => exact of_of_isNameChar (.inr rfl)
  | @note side _ _ _ _ _ _ _ ha =>
    have hside : IsName side.word :=
      isName_of_mem_keywords (by cases side <;> simp [keywords, NoteSide.word])
    obtain ⟨c, hhead, hc⟩ := head_of_isName hside _
    rw [ofLine_keyword (hkeyword _ (by simp)) ha (first_of_isName hside _), hhead,
      of_of_isNameChar (.inl hc)]
    decide
  | direction ha hx hb =>
    obtain ⟨c, hhead, hc⟩ := head_of_isName hx _
    rw [ofLine_keyword (hkeyword _ (by simp)) ha (first_of_isName hx _), hhead,
      of_of_isNameChar (.inl hc)]
    decide
  | close => exact ofLine_word [] [] (by simp) (by simp) (by decide) (by decide +kernel)
  | separator => exact ofLine_word [] [] (by simp) (by simp) (by decide) (by decide +kernel)
  | transition hs ha =>
    cases hs with
    | pseudo => exact ofLine_word [] [] (by simp) (by simp) (by decide) (by decide +kernel)
    | @named x hx =>
      have hne : x.toList ≠ [] := fun he => hx.1 (String.toList_eq_nil_iff.1 he)
      have hdash : Form.of x.toList (some '-') =
          if x.toList = [] then .separator else .transition := rfl
      refine (ofLine_word _ _ hx.2 ha (by decide) (by decide +kernel)).trans (hdash.trans ?_)
      rw [if_neg hne]
  | description hx ha ht =>
    cases ht with
    | text => exact ofLine_word _ _ hx.2 ha (by decide) (by decide +kernel)

theorem Written.unique {k' : Form} {s' : Statement} (h : Written k s cs) (h' : Written k' s' cs) :
    k = k' ∧ s = s' := by
  obtain rfl := h.ofLine.symm.trans h'.ofLine
  exact ⟨rfl, ((reads_of_written h).unique (reads_of_written h')).1⟩

theorem reads_oneOf_forms {fs : List Form} :
    Reads (oneOf (fs.map Form.reader)) cs s rest ↔ rest = [] ∧ ∃ k ∈ fs, Written k s cs := by
  rw [reads_oneOf_iff]
  · simp only [List.mem_map, exists_exists_and_eq_and, reads_iff_written]
    exact ⟨fun ⟨k, hk, hrest, h⟩ => ⟨hrest, k, hk, h⟩, fun ⟨hrest, k, hk, h⟩ => ⟨k, hk, hrest, h⟩⟩
  · simp only [List.forall_mem_map, reads_iff_written]
    rintro k - k' - s rest s' rest' ⟨rfl, h⟩ ⟨rfl, h'⟩
    exact ⟨(h.unique h').2, rfl⟩

theorem mem_all (k : Form) : k ∈ Form.all := by
  cases k <;> decide

theorem reads_form_iff : Reads form cs s rest ↔ rest = [] ∧ ∃ k, Written k s cs := by
  simp only [form_eq, reads_oneOf_forms, mem_all, true_and]

theorem read_ok_iff : read cs = .ok s ↔ ∃ k, Written k s cs := by
  have hread : read cs = .ok s ↔ ∃ rest, Reads form cs s rest := by
    unfold read Reads
    split <;> rename_i h <;> simp [h]
  simp only [hread, reads_form_iff, exists_and_right, exists_eq, true_and]

theorem read?_of_perm {fs : List Form} (h : fs.Perm Form.all) (cs : List Char) :
    (oneOf (fs.map Form.reader) cs).read? = (form cs).read? := by
  refine Option.ext fun ⟨s, rest⟩ => ?_
  change Reads _ cs s rest ↔ Reads form cs s rest
  rw [form_eq, reads_oneOf_forms, reads_oneOf_forms]
  simp only [h.mem_iff]

theorem parse_ok_iff {text : String} {line : Nat} :
    parse text line = .ok s ↔ read text.toList = .ok s := by
  unfold parse
  split <;> rename_i h <;> simp [h]

theorem parse_iff_written (text : String) (line : Nat) :
    (∀ s, parse text line = .ok s ↔ ∃ k, Written k s text.toList) ∧
    (∀ k s k' s', Written k s text.toList → Written k' s' text.toList → k = k' ∧ s = s') ∧
    (∀ fs : List Form, fs.Perm Form.all →
      (oneOf (fs.map Form.reader) text.toList).read? = (form text.toList).read?) ∧
    ∀ w ∈ keywords,
      (∀ (target : Endpoint) (label : Option String) (a b ds c tail : List Char),
        (∀ e ∈ a, isSpace e) → (∀ e ∈ b, isSpace e) → target.Written ds → (∀ e ∈ c, isSpace e) →
        Tail label tail →
        text.toList = w.toList ++ (a ++ ("-->".toList ++ (b ++ (ds ++ (c ++ tail))))) →
        parse text line = .ok (.transition (.named w) target (label.filter (· ≠ "")))) ∧
      (∀ a t : List Char, (∀ e ∈ a, isSpace e) → text.toList = w.toList ++ (a ++ ':' :: t) →
        parse text line = .ok (.description w (String.ofList (Text.trim t)))) := by
  refine ⟨fun s => parse_ok_iff.trans read_ok_iff, fun _ _ _ _ h h' => h.unique h',
    fun fs hfs => read?_of_perm hfs _, fun w hw => ?_⟩
  have hname := isName_of_mem_keywords hw
  refine ⟨fun target label a b ds c tail ha hb hds hc htail htext => ?_,
    fun a t ha htext => ?_⟩
  · rw [parse_ok_iff, htext, read_ok_iff]
    exact ⟨.transition, .transition (.named hname) ha hb hds hc htail⟩
  · rw [parse_ok_iff, htext, read_ok_iff]
    exact ⟨.description, .description hname ha (.text t)⟩

theorem parse_iff_written_arrow_from_state :
    parse "state --> [*] : go" 3 = .ok (.transition (.named "state") .pseudo (some "go")) ∧
    (∀ k s, Written k s "state --> [*] : go".toList → k = .transition) ∧
    (oneOf (Form.all.reverse.map Form.reader) "state --> [*] : go".toList).read? =
      (form "state --> [*] : go".toList).read? ∧
    parse "note: later" 4 = .ok (.description "note" "later") := by
  obtain ⟨hread, hunique, horder, hwords⟩ := parse_iff_written "state --> [*] : go" 3
  have harrow : parse "state --> [*] : go" 3 =
      .ok (.transition (.named "state") .pseudo (some "go")) :=
    (hwords "state" (by decide)).1 .pseudo (some "go") [' '] [' '] "[*]".toList [' ']
      ": go".toList (by simp [isSpace]) (by simp [isSpace]) .pseudo (by simp [isSpace])
      (.text " go".toList) rfl
  obtain ⟨k, hk⟩ := (hread _).1 harrow
  have hform : Form.ofLine "state --> [*] : go".toList = .transition := by decide +kernel
  refine ⟨harrow, fun k' s' h => ?_, horder _ (List.reverse_perm _), ?_⟩
  · exact (hunique k' s' k _ h hk).1.trans (hk.ofLine.symm.trans hform)
  · exact ((parse_iff_written "note: later" 4).2.2.2 "note" (by decide)).2 [] " later".toList
      (by simp) rfl

end Statement
end Statechart
