namespace Statechart.Text

/-- The pieces between the occurrences of `d`, empty ones included. -/
def split (d : Char) : List Char → List (List Char)
  | [] => [[]]
  | c :: cs => if c = d then [] :: split d cs else (split d cs).modifyHead (c :: ·)

def join (d : Char) : List (List Char) → List Char
  | [] => []
  | [p] => p
  | p :: q :: ps => p ++ d :: join d (q :: ps)

theorem split_ne_nil (d : Char) (cs : List Char) : split d cs ≠ [] := by
  induction cs with
  | nil => simp [split]
  | cons c cs ih => by_cases h : c = d <;> simp [split, h, List.modifyHead_eq_nil_iff, ih]

theorem join_split (d : Char) (cs : List Char) : join d (split d cs) = cs := by
  induction cs with
  | nil => rfl
  | cons c cs ih =>
    cases hp : split d cs with
    | nil => exact absurd hp (split_ne_nil d cs)
    | cons p ps =>
      rw [hp] at ih
      by_cases h : c = d
      · rw [split, if_pos h, hp, join, ih, h, List.nil_append]
      · cases ps <;> simp_all [split, join]

/-- The lines of a text. A line feed ends a line, and a carriage return directly before it belongs
    to that end; what follows the last line feed is a line only if it holds a character. -/
def lines : List Char → List (List Char)
  | [] => []
  | c :: cs =>
    if c = '\n' then [] :: lines cs
    else if c = '\r' ∧ cs.head? = some '\n' then lines cs
    else
      match lines cs with
      | [] => [[c]]
      | l :: ls => (c :: l) :: ls

def linesOf (s : String) : List String :=
  (lines s.toList).map String.ofList

def joined (d : String) : List String → String
  | [] => ""
  | [s] => s
  | s :: t :: ts => s ++ d ++ joined d (t :: ts)

theorem joined_induction {P : String → Prop} {d : String} (empty : P "")
    (append : ∀ s t, P s → P t → P (s ++ t)) (hd : P d) {ss : List String} (h : ∀ s ∈ ss, P s) :
    P (joined d ss) := by
  induction ss with
  | nil => exact empty
  | cons s ss ih =>
    obtain ⟨hs, hss⟩ := List.forall_mem_cons.1 h
    cases ss with
    | nil => exact hs
    | cons t ts => exact append _ _ (append _ _ hs hd) (ih hss)

end Statechart.Text
