namespace Statechart.Json

inductive Value where
  | null
  | bool (b : Bool)
  | number (text : String)
  | string (s : String)
  | array (vs : List Value)
  | object (fields : List (String × Value))
  /-- What has the form of a value and stands for none, such as a number beyond the range of numbers
      or half of a surrogate pair. -/
  | unreadable
  deriving Repr

namespace Value

def nat (n : Nat) : Value :=
  .number (toString n)

def optional {α : Type} (f : α → Value) : Option α → Value
  | none => .null
  | some a => f a

def list {α : Type} (f : α → Value) (as : List α) : Value :=
  .array (as.map f)

mutual

def isSound (depth : Nat) : Value → Bool
  | null | bool _ | number _ | string _ => true
  | unreadable => false
  | array vs =>
    match depth with
    | 0 => false
    | k + 1 => areSound k vs
  | object fields =>
    match depth with
    | 0 => false
    | k + 1 => areSoundFields k fields

def areSound (depth : Nat) : List Value → Bool
  | [] => true
  | v :: vs => isSound depth v && areSound depth vs

def areSoundFields (depth : Nat) : List (String × Value) → Bool
  | [] => true
  | (_, v) :: fields => isSound depth v && areSoundFields depth fields

end

end Value

end Statechart.Json
