import Mathlib
import Statechart.Config.Reader
import Statechart.Proofs.JsonText

namespace Statechart

namespace Json.Value

mutual

def levels : Value → Nat
  | .null | .bool _ | .number _ | .string _ | .unreadable => 0
  | .array vs => levelsOf vs + 1
  | .object fields => levelsOfFields fields + 1

def levelsOf : List Value → Nat
  | [] => 0
  | v :: vs => max (levels v) (levelsOf vs)

def levelsOfFields : List (String × Value) → Nat
  | [] => 0
  | (_, v) :: fields => max (levels v) (levelsOfFields fields)

end

variable {d : Nat} {v : Value} {vs : List Value} {fields : List (String × Value)}

theorem levelsOf_le : levelsOf vs ≤ d ↔ ∀ v ∈ vs, v.levels ≤ d := by
  induction vs with
  | nil => simp [levelsOf]
  | cons v vs ih => simp [levelsOf, ih]

theorem levelsOfFields_le : levelsOfFields fields ≤ d ↔ ∀ f ∈ fields, f.2.levels ≤ d := by
  induction fields with
  | nil => simp [levelsOfFields]
  | cons f fields ih => simp [levelsOfFields, ih]

theorem areSound_iff : areSound d vs ↔ ∀ v ∈ vs, v.isSound d := by
  induction vs with
  | nil => simp [areSound]
  | cons v vs ih => simp [areSound, ih]

theorem areSoundFields_iff : areSoundFields d fields ↔ ∀ f ∈ fields, f.2.isSound d := by
  induction fields with
  | nil => simp [areSoundFields]
  | cons f fields ih => simp [areSoundFields, ih]

theorem Plain.isSound (h : v.Plain) : ∀ {d : Nat}, v.levels ≤ d → v.isSound d := by
  induction h with
  | null | bool | string => exact fun _ => by rw [Value.isSound]
  | @array vs _ ih =>
    intro d hd
    obtain ⟨k, rfl⟩ := Nat.exists_eq_add_of_lt (Nat.lt_of_lt_of_le (Nat.succ_pos _) hd)
    rw [levels] at hd
    rw [Value.isSound, areSound_iff]
    exact fun v hv => ih v hv (levelsOf_le.1 (by omega) v hv)
  | @object fields _ ih =>
    intro d hd
    obtain ⟨k, rfl⟩ := Nat.exists_eq_add_of_lt (Nat.lt_of_lt_of_le (Nat.succ_pos _) hd)
    rw [levels] at hd
    rw [Value.isSound, areSoundFields_iff]
    exact fun f hf => ih f hf (levelsOfFields_le.1 (by omega) f hf)

theorem plain_optional {α : Type} {f : α → Value} (hf : ∀ a, (f a).Plain) (o : Option α) :
    (optional f o).Plain := by
  cases o with
  | none => exact .null
  | some a => exact hf a

theorem plain_list {α : Type} {f : α → Value} (hf : ∀ a, (f a).Plain) (as : List α) :
    (list f as).Plain :=
  .array (by simpa using fun a _ => hf a)

end Json.Value

open Json (Value)
open Fields

theorem mapM_map_some {α β : Type} {f : α → Option β} {g : β → α} {bs : List β}
    (h : ∀ b ∈ bs, f (g b) = some b) : (bs.map g).mapM f = some bs := by
  induction bs with
  | nil => rfl
  | cons b bs ih =>
    rw [List.map_cons, List.mapM_cons, h b List.mem_cons_self, ih fun b hb => h b (.tail _ hb)]
    rfl

namespace Fields

theorem strings?_list (ss : List String) : strings? (Value.list .string ss) = some ss :=
  mapM_map_some fun _ _ => rfl

theorem optionalString?_optional (o : Option String) :
    optionalString? (Value.optional .string o) = some o := by
  cases o <;> rfl

theorem optionalStrings?_list (ss : List String) :
    optionalStrings? (Value.list .string ss) = some (some ss) :=
  congrArg (Option.map some) (strings?_list ss)

end Fields

namespace ConfigNode

theorem toJsons_eq_map (ss : List ConfigNode) : toJsons ss = ss.map toJson := by
  induction ss with
  | nil => rfl
  | cons s ss ih => rw [toJsons, ih, List.map_cons]

mutual

theorem plain_toJson : ∀ s : ConfigNode, s.toJson.Plain
  | .name n => .string n
  | .composite n children initial => by
    have hchildren := Value.Plain.array (plain_toJsons children)
    cases initial with
    | none => exact .object (by simpa [hchildren] using Value.Plain.string n)
    | some i => exact .object (by simpa [hchildren] using ⟨.string n, .string i⟩)
  | .parallel n regions => by
    have hregions := Value.Plain.array (plain_toJsons regions)
    exact .object (by simpa [hregions] using Value.Plain.string n)

theorem plain_toJsons : ∀ ss : List ConfigNode, ∀ v ∈ toJsons ss, v.Plain
  | [] => by simp [toJsons]
  | s :: ss => by simpa [toJsons] using ⟨plain_toJson s, plain_toJsons ss⟩

end

theorem composite?_none (fields : List (String × Json.Value)) : composite? fields none = none := by
  simp [composite?]

theorem parallel?_none (fields : List (String × Json.Value)) : parallel? fields none = none := by
  simp [parallel?]

theorem listUnder_composite (n : String) (children : List ConfigNode) (initial : Option String) :
    listUnder "parallel" ([("name", .string n), ("children", .array (toJsons children))] ++
      (initial.map fun i => ("initial", Value.string i)).toList) = none := by
  cases initial <;> simp [listUnder]

theorem listUnder_parallel (n : String) (regions : List ConfigNode) :
    listUnder "children" [("name", .string n), ("parallel", .array (toJsons regions))] = none := by
  simp [listUnder]

mutual

theorem ofJson?_toJson : ∀ s : ConfigNode, ofJson? s.toJson = some s
  | .name n => by rw [toJson, ofJson?]
  | .composite n children initial => by
    have hlist : ∀ fields, listUnder "children" (("name", .string n) ::
        ("children", .array (toJsons children)) :: fields) = some children := by
      intro fields
      simp [listUnder, ofJsons?_toJsons children]
    cases initial <;> (rw [toJson, ofJson?, List.cons_append, List.cons_append, hlist]; rfl)
  | .parallel n regions => by
    have hlist : listUnder "parallel"
        [("name", .string n), ("parallel", .array (toJsons regions))] = some regions := by
      simp [listUnder, ofJsons?_toJsons regions]
    rw [toJson, ofJson?, listUnder_parallel, composite?_none, hlist]
    rfl

theorem ofJsons?_toJsons : ∀ ss : List ConfigNode, ofJsons? (toJsons ss) = some ss
  | [] => by rw [toJsons, ofJsons?]
  | s :: ss => by rw [toJsons, ofJsons?, ofJson?_toJson s, ofJsons?_toJsons ss]

end

theorem read?_toJson {s : ConfigNode} {d : Nat} (h : s.toJson.levels ≤ d) :
    read? d s.toJson = some s := by
  rw [read?, if_pos ((plain_toJson s).isSound h), ofJson?_toJson]

end ConfigNode

namespace ConfigArrow

theorem plain_toJson (a : ConfigArrow) : a.toJson.Plain := by
  have htrigger : (Value.optional .string a.trigger).Plain := Value.plain_optional .string a.trigger
  have hconditions : ∀ cs : List String, (Value.list .string cs).Plain :=
    Value.plain_list .string
  refine .object fun f hf => ?_
  simp only [List.mem_append, List.mem_cons, List.not_mem_nil, or_false, Option.mem_toList,
    Option.map_eq_some_iff] at hf
  rcases hf with ((rfl | rfl | rfl) | ⟨cs, -, rfl⟩) | ⟨b, -, rfl⟩
  · exact htrigger
  · exact .string a.source
  · exact .string a.target
  · exact hconditions cs
  · exact .string b

theorem ofFields?_eq_some {fields : List (String × Value)} {a : ConfigArrow}
    (hsingle : areSingle ["trigger", "source", "dest", "conditions", "before"] fields)
    (htrigger : optional optionalString? "trigger" fields = some a.trigger)
    (hsource : (get? "source" fields).bind string? = some a.source)
    (htarget : (get? "dest" fields).bind string? = some a.target)
    (hconditions : optional optionalStrings? "conditions" fields = some a.conditions)
    (hbefore : optional optionalString? "before" fields = some a.before) :
    ofFields? fields = some a := by
  simp [ofFields?, hsingle, htrigger, hsource, htarget, hconditions, hbefore, guard]

theorem ofJson?_toJson (a : ConfigArrow) : ofJson? a.toJson = some a := by
  obtain ⟨trigger, source, target, conditions, before⟩ := a
  have htrigger := optionalString?_optional trigger
  cases conditions with
  | none => cases before <;> exact ofFields?_eq_some rfl htrigger rfl rfl rfl rfl
  | some cs =>
    have hconditions := optionalStrings?_list cs
    cases before <;> exact ofFields?_eq_some rfl htrigger rfl rfl hconditions rfl

end ConfigArrow

namespace Config

theorem plain_toJson (c : Config) : c.toJson.Plain := by
  refine .object fun f hf => ?_
  simp only [List.mem_append, List.mem_cons, List.not_mem_nil, or_false] at hf
  rcases hf with (rfl | rfl | rfl) | hf
  · exact .array (ConfigNode.plain_toJsons c.states)
  · exact Value.plain_list ConfigArrow.plain_toJson c.transitions
  · exact .string c.initial
  · split at hf
    · cases hf
    · obtain rfl := List.mem_singleton.1 hf
      exact Value.plain_list .string c.finals

theorem ofFields?_eq_some {fields : List (String × Value)} {c : Config}
    (hsingle : areSingle ["states", "transitions", "initial", "final_states"] fields)
    (hstates : (get? "states" fields).bind states? = some c.states)
    (htransitions : (get? "transitions" fields).bind transitions? = some c.transitions)
    (hinitial : (get? "initial" fields).bind string? = some c.initial)
    (hfinals : finals? fields = some c.finals) : ofFields? fields = some c := by
  simp [ofFields?, hsingle, hstates, htransitions, hinitial, hfinals, guard]

theorem states?_toJsons {ss : List ConfigNode}
    (h : Value.levelsOf (ConfigNode.toJsons ss) ≤ maxDepth - 2) :
    states? (.array (ConfigNode.toJsons ss)) = some ss := by
  rw [ConfigNode.toJsons_eq_map, Value.levelsOf_le] at h
  rw [states?, ConfigNode.toJsons_eq_map]
  exact mapM_map_some fun s hs => ConfigNode.read?_toJson (h _ (List.mem_map_of_mem hs))

theorem levelsOf_states (c : Config) :
    Value.levelsOf (ConfigNode.toJsons c.states) + 2 ≤ c.toJson.levels := by
  simp [toJson, Value.levels, Value.levelsOfFields]

theorem ofJson?_toJson {c : Config} (h : c.toJson.levels ≤ maxDepth) :
    ofJson? c.toJson = some c := by
  have hlevels := c.levelsOf_states
  have hstates : states? (.array (ConfigNode.toJsons c.states)) = some c.states :=
    states?_toJsons (by omega)
  have htransitions : transitions? (Value.list ConfigArrow.toJson c.transitions) =
      some c.transitions := mapM_map_some fun a _ => ConfigArrow.ofJson?_toJson a
  have hfinals := strings?_list c.finals
  by_cases hnil : c.finals = []
  · simp only [toJson, hnil, if_true]
    exact ofFields?_eq_some rfl hstates htransitions rfl (congrArg some hnil.symm)
  · simp only [toJson, hnil, if_false]
    exact ofFields?_eq_some rfl hstates htransitions rfl hfinals

theorem ofText?_write {c : Config} (h : c.toJson.levels ≤ maxDepth) (i : Json.Indent) :
    ofText? (String.ofList (Json.write i c.toJson)) = some c := by
  rw [ofText?, c.plain_toJson.read? i]
  exact ofJson?_toJson h

end Config

theorem ConfigNode.ofText?_write {s : ConfigNode} (h : s.toJson.levels ≤ Config.maxDepth)
    (i : Json.Indent) : ofText? (String.ofList (Json.write i s.toJson)) = some s := by
  rw [ofText?, (plain_toJson s).read? i]
  exact read?_toJson h

theorem Config.ofText?_toJson :
    (∀ c : Config, c.toJson.levels ≤ maxDepth →
      ofText? c.toJson.compact = some c ∧ ofText? c.toJson.pretty = some c) ∧
    (∀ s : ConfigNode, s.toJson.levels ≤ maxDepth →
      ConfigNode.ofText? s.toJson.compact = some s ∧
      ConfigNode.ofText? s.toJson.pretty = some s) ∧
    (∀ n regions, ∃ fields, (ConfigNode.parallel n regions).toJson = .object fields ∧
      ConfigNode.composite? fields (ConfigNode.listUnder "children" fields) = none) ∧
    ∀ n children initial, ∃ fields,
      (ConfigNode.composite n children initial).toJson = .object fields ∧
      ConfigNode.parallel? fields (ConfigNode.listUnder "parallel" fields) = none := by
  refine ⟨fun c h => ⟨ofText?_write h none, ofText?_write h (some 0)⟩,
    fun s h => ⟨ConfigNode.ofText?_write h none, ConfigNode.ofText?_write h (some 0)⟩,
    fun n regions => ⟨_, rfl, ?_⟩, fun n children initial => ⟨_, rfl, ?_⟩⟩
  · exact (congrArg _ (ConfigNode.listUnder_parallel n regions)).trans
      (ConfigNode.composite?_none _)
  · exact (congrArg _ (ConfigNode.listUnder_composite n children initial)).trans
      (ConfigNode.parallel?_none _)

theorem Config.ofText?_toJson_nested :
    let c : Config := {
      states := [.parallel "Both" [.composite "Both/region1" [.name "Li\"ght\n", .name ""] none],
        .composite "Off" [] (some "Idle")]
      transitions := [⟨none, "Both", "Off", some [], some "log"⟩]
      initial := "Both"
      finals := [] }
    let s : ConfigNode := .composite "Off" [.parallel "Both" []] none
    (ofText? c.toJson.compact = some c ∧ ofText? c.toJson.pretty = some c) ∧
      ConfigNode.ofText? s.toJson.compact = some s := by
  refine ⟨ofText?_toJson.1 _ ?_, (ofText?_toJson.2.1 _ ?_).1⟩ <;> decide

end Statechart
