import Mathlib
import Statechart.Proofs.NodeId
import Statechart.Chart
import Statechart.FlatChart.Registry
import Statechart.History

/-!
Relocations: the parts of a chart carried over to another text, where they stand on other lines and,
it may be, in the body of one more state. The order of lines stays, and what was at the top level
comes to stand directly in that state.
-/

namespace Statechart

theorem NodeId.ext_toList {a b : NodeId} (h : a.path.toList = b.path.toList) : a = b := by
  rw [NodeId.mk.injEq]
  exact String.toList_inj.1 h

namespace Node

mutual

def renamed (f : NodeId → NodeId) : Node → Node
  | simple id name => simple (f id) name
  | history id name => history (f id) name
  | composite id name initial ns => composite (f id) name (initial.map f) (renamedAll f ns)
  | concurrent id name ns => concurrent (f id) name (renamedAll f ns)
  | region id name initial ns => region (f id) name (initial.map f) (renamedAll f ns)

def renamedAll (f : NodeId → NodeId) : List Node → List Node
  | [] => []
  | n :: ns => renamed f n :: renamedAll f ns

end

theorem renamedAll_eq_map (f : NodeId → NodeId) (ns : List Node) :
    renamedAll f ns = ns.map (renamed f) := by
  induction ns with
  | nil => rfl
  | cons n ns ih => rw [renamedAll, ih, List.map_cons]

end Node

/-- New lines, and the state around everything if there is one. The lines of that state's own head
    are not after those of its body. -/
structure Relocation where
  wrapper : Option String
  line : Nat → Nat
  increasing : StrictMono line
  after : ∀ w ∈ wrapper, ∀ k, 1 ≤ line k

namespace Relocation

variable {m : Relocation} {w : String}

section Ids

def above (m : Relocation) : Option NodeId :=
  m.wrapper.map NodeId.mk

def under (m : Relocation) (a : NodeId) : NodeId :=
  .child m.above a.path

/-- The id of what surrounds a part, which is the wrapper where nothing did. -/
def around (m : Relocation) (a : Option NodeId) : Option NodeId :=
  (a.map m.under).or m.above

def lead (m : Relocation) : List Char :=
  match m.wrapper with
  | none => []
  | some w => w.toList ++ [NodeId.separator]

theorem toList_under (m : Relocation) (a : NodeId) :
    (m.under a).path.toList = m.lead ++ a.path.toList := by
  unfold under above lead
  cases m.wrapper with
  | none => rfl
  | some w => simp [NodeId.toList_path_child_some]

theorem under_injective (m : Relocation) : Function.Injective m.under := by
  intro a b h
  have hlist := congrArg (fun x : NodeId => x.path.toList) h
  simp only [toList_under, List.append_cancel_left_eq] at hlist
  exact NodeId.ext_toList hlist

theorem under_inj {a b : NodeId} : m.under a = m.under b ↔ a = b :=
  m.under_injective.eq_iff

theorem under_of_none (h : m.wrapper = none) (a : NodeId) : m.under a = a := by
  rw [under, above, h]
  rfl

theorem mem_above (h : w ∈ m.wrapper) : m.above = some ⟨w⟩ := by
  rw [above, Option.mem_def.1 h]
  rfl

theorem child_around (m : Relocation) (a : Option NodeId) (name : String) :
    NodeId.child (m.around a) name = m.under (.child a name) := by
  cases a with
  | none => rfl
  | some a =>
    apply NodeId.ext_toList
    rw [toList_under, around, Option.map_some, Option.some_or, NodeId.toList_path_child_some,
      NodeId.toList_path_child_some, toList_under, List.append_assoc]

theorem child_under (m : Relocation) (a : NodeId) (name : String) :
    NodeId.child (some (m.under a)) name = m.under (.child (some a) name) :=
  m.child_around (some a) name

theorem inside_under (m : Relocation) (a b : NodeId) :
    (m.under a).inside (m.under b) = a.inside b := by
  rw [Bool.eq_iff_iff, NodeId.inside, NodeId.inside, List.isPrefixOf_iff_prefix,
    List.isPrefixOf_iff_prefix, toList_under, toList_under, List.append_assoc]
  exact List.prefix_append_right_inj _

theorem toList_under_of_mem (h : w ∈ m.wrapper) (a : NodeId) :
    (m.under a).path.toList = w.toList ++ NodeId.separator :: a.path.toList := by
  rw [toList_under, lead, Option.mem_def.1 h, List.append_assoc]
  rfl

theorem inside_wrapper (h : w ∈ m.wrapper) (a : NodeId) : (m.under a).inside ⟨w⟩ := by
  rw [NodeId.inside, List.isPrefixOf_iff_prefix, toList_under_of_mem h]
  exact ⟨a.path.toList, by simp⟩

theorem wrapper_ne_under (h : w ∈ m.wrapper) (a : NodeId) : ⟨w⟩ ≠ m.under a := by
  intro he
  have hlist := congrArg (fun x : NodeId => x.path.toList) he
  simp [toList_under_of_mem h] at hlist

theorem around_inj {a b : Option NodeId} : m.around a = m.around b ↔ a = b := by
  refine ⟨fun h => ?_, congrArg m.around⟩
  have hnone : ∀ a, m.above ≠ some (m.under a) := by
    intro a ha
    unfold above at ha
    obtain ⟨w, hw, he⟩ := Option.map_eq_some_iff.1 ha
    exact wrapper_ne_under hw a he
  cases a with
  | none =>
    cases b with
    | none => rfl
    | some b => exact absurd h (hnone b)
  | some a =>
    cases b with
    | none => exact absurd h.symm (hnone a)
    | some b => exact congrArg some (under_inj.1 (Option.some.inj h))

theorem append_lt_append (l : List Char) {cs ds : List Char} : l ++ cs < l ++ ds ↔ cs < ds := by
  induction l with
  | nil => rfl
  | cons x l ih => simp [ih]

theorem lt_append_cons (l : List Char) (x : Char) (cs : List Char) : l < l ++ x :: cs := by
  simpa using (append_lt_append l).2 (List.nil_lt_cons x cs)

theorem path_lt_under {a b : NodeId} : (m.under a).path < (m.under b).path ↔ a.path < b.path := by
  rw [String.lt_iff_toList_lt, String.lt_iff_toList_lt, toList_under, toList_under]
  exact append_lt_append m.lead

theorem order_under (m : Relocation) (a b : NodeId) :
    (m.under a).order (m.under b) = a.order b := by
  simp only [NodeId.order, path_lt_under, under_inj]

theorem order_wrapper (h : w ∈ m.wrapper) (a : NodeId) : NodeId.order ⟨w⟩ (m.under a) = .lt := by
  have hlt : w < (m.under a).path := by
    rw [String.lt_iff_toList_lt, toList_under_of_mem h]
    exact lt_append_cons w.toList _ _
  rw [NodeId.order, if_pos hlt]

end Ids

section Places

def home (m : Relocation) : Place :=
  m.wrapper.toList.map .body

def place (m : Relocation) (p : Place) : Place :=
  p ++ m.home

def scope (m : Relocation) : Scope → Scope
  | .top =>
    match m.above with
    | none => .top
    | some a => .composite a
  | .composite id => .composite (m.under id)
  | .region owner index => .region (m.under owner) index

theorem place_inj {p q : Place} : m.place p = m.place q ↔ p = q :=
  List.append_left_inj m.home

theorem home_of_mem (h : w ∈ m.wrapper) : m.home = [.body w] := by
  rw [home, Option.mem_def.1 h]
  rfl

theorem home_of_none (h : m.wrapper = none) : m.home = [] := by
  rw [home, h]
  rfl

theorem cases_wrapper (m : Relocation) : m.wrapper = none ∨ ∃ w, w ∈ m.wrapper := by
  cases m.wrapper with
  | none => exact .inl rfl
  | some w => exact .inr ⟨w, rfl⟩

theorem id?_place (m : Relocation) (p : Place) : (m.place p).id? = m.around p.id? := by
  induction p with
  | nil => rcases m with ⟨_ | w⟩ <;> rfl
  | cons x p ih =>
    cases x with
    | body name =>
      show some (NodeId.child (m.place p).id? name) = some (m.under (.child (Place.id? p) name))
      rw [ih, child_around]
    | region name index =>
      show some (regionId (.child (m.place p).id? name) index) =
        some (m.under (regionId (.child (Place.id? p) name) index))
      rw [ih, child_around, regionId, child_under]
      rfl

theorem child_place (m : Relocation) (p : Place) (name : String) :
    NodeId.child (m.place p).id? name = m.under (.child p.id? name) := by
  rw [id?_place, child_around]

theorem owner?_place (m : Relocation) (p : Place) : (m.place p).owner? = m.around p.owner? := by
  cases p with
  | nil => rcases m with ⟨_ | w⟩ <;> rfl
  | cons x p =>
    cases x with
    | body name | region name index => exact congrArg some (m.child_place p name)

theorem region?_place (m : Relocation) (p : Place) : (m.place p).region? = p.region? := by
  cases p with
  | nil => rcases m with ⟨_ | w⟩ <;> rfl
  | cons x p => cases x <;> rfl

theorem scope_place (m : Relocation) (p : Place) : (m.place p).scope = m.scope p.scope := by
  cases p with
  | nil => rcases m with ⟨_ | w⟩ <;> rfl
  | cons x p =>
    cases x with
    | body name => exact congrArg Scope.composite (m.child_place p name)
    | region name index => exact congrArg (Scope.region · index) (m.child_place p name)

theorem scope_inj {a b : Scope} : m.scope a = m.scope b ↔ a = b := by
  refine ⟨fun h => ?_, congrArg m.scope⟩
  have hid : ∀ s : Scope, (m.scope s).id? = m.around s.id? := by
    intro s
    cases s with
    | top => cases ha : m.above <;> simp [scope, ha, around, Scope.id?]
    | composite id => rfl
    | region owner index => exact congrArg some (m.child_under owner _)
  have hsame := around_inj.1 ((hid a).symm.trans ((congrArg Scope.id? h).trans (hid b)))
  cases a with
  | top =>
    cases b with
    | top => rfl
    | composite | region => cases hsame
  | composite id =>
    cases b with
    | composite id' => exact congrArg Scope.composite (Option.some.inj hsame)
    | top => cases hsame
    | region => cases h
  | region owner index =>
    cases b with
    | region owner' index' =>
      obtain ⟨howner, rfl⟩ := Scope.region.inj h
      rw [under_inj.1 howner]
    | top => cases hsame
    | composite => cases h

theorem scope_ne_top (h : w ∈ m.wrapper) (s : Scope) : m.scope s ≠ .top := by
  cases s with
  | top =>
    rw [scope, mem_above h]
    exact Scope.noConfusion
  | composite | region => exact Scope.noConfusion

theorem outward_place (m : Relocation) (p : Place) :
    (m.place p).outward = p.outward.map m.place ++ m.wrapper.toList.map fun _ => [] := by
  induction p with
  | nil => rcases m with ⟨_ | w⟩ <;> rfl
  | cons x p ih =>
    show m.place (x :: p) :: (m.place p).outward = _
    rw [ih]
    rfl

end Places

section Parts

def located {α : Type} (m : Relocation) (a : Located α) : Located α :=
  { a with line := m.line a.line }

def binding (m : Relocation) (e : Binding) : Binding :=
  { e with
    place := m.place e.place
    line := m.line e.line }

def state (m : Relocation) (s : State) : State :=
  { s with
    id := m.under s.id
    parent := m.around s.parent
    line := m.line s.line }

def transition (m : Relocation) (t : Transition) : Transition :=
  { t with
    source := m.under t.source
    target := m.under t.target
    line := m.line t.line }

def initial (m : Relocation) (i : Initial) : Initial where
  scope := m.scope i.scope
  target := m.under i.target
  line := m.line i.line

def slot (m : Relocation) (r : RegionSlot) : RegionSlot :=
  { r with
    owner := m.under r.owner
    id := m.under r.id }

def region (m : Relocation) (r : Region) : Region :=
  { r with
    owner := m.under r.owner
    id := m.under r.id
    initial := m.under r.initial
    members := r.members.map m.under }

def remark (m : Relocation) (r : Remark) : Remark :=
  { r with
    state := m.under r.state
    line := m.line r.line }

def note (m : Relocation) (n : Note) : Note :=
  { n with
    state := m.under n.state
    line := m.line n.line }

theorem toState_binding (m : Relocation) (e : Binding) :
    (m.binding e).toState = m.state e.toState := by
  simp only [Binding.toState, binding, state, Binding.id, id?_place, owner?_place, region?_place,
    child_around]

theorem id_binding (m : Relocation) (e : Binding) : (m.binding e).id = m.under e.id := by
  rw [Binding.id, binding, id?_place, child_around]
  rfl

end Parts

section Wrapping

/-- The wrapper as it is declared: by an arrow from `[*]` on the first line and by its body after
    that. -/
def shell (m : Relocation) : List Binding :=
  m.wrapper.toList.map fun w => ⟨[], w, .composite, none, 1⟩

def bindings (m : Relocation) (bs : List Binding) : List Binding :=
  m.shell ++ bs.map m.binding

def states (m : Relocation) (ss : List State) : List State :=
  m.shell.map Binding.toState ++ ss.map m.state

def initials (m : Relocation) (is : List Initial) : List Initial :=
  (m.wrapper.toList.map fun w => ⟨.top, ⟨w⟩, 1⟩) ++ is.map m.initial

def direction (m : Relocation) (d : Option Direction) : Option Direction :=
  if m.wrapper.isNone then d else none

def flat (m : Relocation) (f : FlatChart) : FlatChart where
  states := m.states f.states
  regions := f.regions.map m.slot
  transitions := f.transitions.map m.transition
  initials := m.initials f.initials
  finals := f.finals.map m.under
  notes := f.notes.map m.note
  remarks := f.remarks.map m.remark
  direction := m.direction f.direction

def roots (m : Relocation) (start : NodeId) (ns : List Node) : List Node :=
  match m.wrapper with
  | none => Node.renamedAll m.under ns
  | some w => [.composite ⟨w⟩ w (some (m.under start)) (Node.renamedAll m.under ns)]

def pairs (m : Relocation) (t : List (NodeId × NodeId)) : List (NodeId × NodeId) :=
  t.map fun e => (m.under e.1, m.under e.2)

def table (m : Relocation) (start : NodeId) (t : Initials) : Initials :=
  (m.wrapper.toList.map fun w => (⟨w⟩, m.under start)) ++ m.pairs t

def chart (m : Relocation) (c : Chart) : Chart where
  states := m.states c.states
  roots := m.roots c.initial c.roots
  initial := m.above.getD (m.under c.initial)
  nested := m.table c.initial c.nested
  defaulted := c.defaulted.map m.under
  regions := c.regions.map m.region
  transitions := c.transitions.map m.transition
  finals := c.finals.map m.under
  remarks := c.remarks.map m.remark
  direction := m.direction c.direction

theorem states_map_toState (m : Relocation) (bs : List Binding) :
    (m.bindings bs).map Binding.toState = m.states (bs.map Binding.toState) := by
  rw [bindings, states, List.map_append, List.map_map, List.map_map]
  exact congrArg _ (List.map_congr_left fun e _ => m.toState_binding e)

theorem mem_shellStates {s : State} : s ∈ m.shell.map Binding.toState ↔
    ∃ w ∈ m.wrapper, s = ⟨w, ⟨w⟩, none, none, .composite, none, 1⟩ := by
  simp [shell, eq_comm, Binding.toState, Binding.id, Place.id?, Place.owner?, Place.region?,
    NodeId.child_none]

theorem filter_states {q q' : State → Bool}
    (hshell : ∀ w ∈ m.wrapper, q' ⟨w, ⟨w⟩, none, none, .composite, none, 1⟩ = false)
    (hsame : ∀ s, q' (m.state s) = q s) (ss : List State) :
    (m.states ss).filter q' = (ss.filter q).map m.state := by
  have hnil : (m.shell.map Binding.toState).filter q' = [] := by
    rw [List.filter_eq_nil_iff]
    intro s hs
    obtain ⟨w, hw, rfl⟩ := mem_shellStates.1 hs
    simp [hshell w hw]
  rw [states, List.filter_append, hnil, List.nil_append, List.filter_map]
  exact congrArg (List.map m.state) (List.filter_congr fun s _ => hsame s)

theorem find?_states {q q' : State → Bool}
    (hshell : ∀ w ∈ m.wrapper, q' ⟨w, ⟨w⟩, none, none, .composite, none, 1⟩ = false)
    (hsame : ∀ s, q' (m.state s) = q s) (ss : List State) :
    (m.states ss).find? q' = (ss.find? q).map m.state := by
  rw [← List.head?_filter, filter_states hshell hsame, ← List.head?_filter, List.head?_map]

end Wrapping

end Relocation

end Statechart
