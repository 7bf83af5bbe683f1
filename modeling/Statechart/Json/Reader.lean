import Statechart.Json.Value

namespace Statechart.Json

def isBlank (c : Char) : Bool :=
  c = ' ' || c = '\n' || c = '\t' || c = '\r'

def skip (cs : List Char) : List Char :=
  cs.dropWhile isBlank

def hexValue? (c : Char) : Option Nat :=
  if '0' ≤ c ∧ c ≤ '9' then some (c.toNat - 48)
  else if 'a' ≤ c ∧ c ≤ 'f' then some (c.toNat - 87)
  else if 'A' ≤ c ∧ c ≤ 'F' then some (c.toNat - 55)
  else none

def hex4? (a b c d : Char) : Option Nat := do
  return 4096 * (← hexValue? a) + 256 * (← hexValue? b) + 16 * (← hexValue? c) + (← hexValue? d)

def unescape? (c : Char) : Option Char :=
  match c with
  | '"' => some '"'
  | '\\' => some '\\'
  | '/' => some '/'
  | 'b' => some '\x08'
  | 'f' => some '\x0c'
  | 'n' => some '\n'
  | 'r' => some '\r'
  | 't' => some '\t'
  | _ => none

/-- The code points of a string up to its closing quote, surrogates one by one, and the rest. -/
def codes : List Char → Option (List Nat × List Char)
  | [] => none
  | '"' :: rest => some ([], rest)
  | '\\' :: 'u' :: a :: b :: c :: d :: rest =>
    match hex4? a b c d, codes rest with
    | some n, some (ns, rest) => some (n :: ns, rest)
    | _, _ => none
  | '\\' :: e :: rest =>
    match unescape? e, codes rest with
    | some c, some (ns, rest) => some (c.toNat :: ns, rest)
    | _, _ => none
  | c :: rest =>
    if c = '\\' ∨ c.toNat < 32 then none
    else
      match codes rest with
      | some (ns, rest) => some (c.toNat :: ns, rest)
      | none => none

def isHighSurrogate (n : Nat) : Bool :=
  0xD800 ≤ n && n < 0xDC00

def isLowSurrogate (n : Nat) : Bool :=
  0xDC00 ≤ n && n < 0xE000

def chars? : List Nat → Option (List Char)
  | [] => some []
  | [n] => if isHighSurrogate n || isLowSurrogate n then none else some [Char.ofNat n]
  | n :: m :: ns =>
    if isHighSurrogate n then
      if isLowSurrogate m then
        (chars? ns).map (Char.ofNat (0x10000 + 0x400 * (n - 0xD800) + (m - 0xDC00)) :: ·)
      else none
    else if isLowSurrogate n then none
    else (chars? (m :: ns)).map (Char.ofNat n :: ·)

/-- A string after its opening quote. It is `none` inside where it holds half a pair. -/
def string? (cs : List Char) : Option (Option String × List Char) :=
  (codes cs).map fun r => ((chars? r.1).map String.ofList, r.2)

/-- A decimal number in parts: its digits without the point, how many follow the point, and the
    exponent. -/
structure Decimal where
  digits : List Char
  places : Nat
  exponent : Int
  deriving DecidableEq, Repr

namespace Decimal

def valueOf (ds : List Char) : Nat :=
  ds.foldl (fun n d => 10 * n + (d.toNat - 48)) 0

/-- The least number that rounds to no double: half a unit beyond the largest one. -/
def bound : Nat :=
  Nat.pow 2 1024 - Nat.pow 2 970

def isInRange (d : Decimal) : Bool :=
  let n := valueOf d.digits
  let e := d.exponent - d.places
  if n = 0 then true
  else if 0 ≤ e then e ≤ 308 && n * Nat.pow 10 e.toNat < bound
  else d.digits.length ≤ (-e).toNat || n < bound * Nat.pow 10 (-e).toNat

end Decimal

def digits? (cs : List Char) : Option (List Char × List Char) :=
  match cs.takeWhile Char.isDigit with
  | [] => none
  | ds => some (ds, cs.dropWhile Char.isDigit)

def whole? (cs : List Char) : Option (List Char × List Char) :=
  match digits? cs with
  | some (['0'], rest) => some (['0'], rest)
  | some ('0' :: _, _) => none
  | r => r

def places? : List Char → Option (List Char × List Char)
  | '.' :: cs => digits? cs
  | cs => some ([], cs)

def exponent? (cs : List Char) : Option (Int × List Char) :=
  match cs with
  | e :: rest =>
    if e = 'e' ∨ e = 'E' then
      match rest with
      | '-' :: ds => (digits? ds).map fun r => (-(Decimal.valueOf r.1 : Int), r.2)
      | '+' :: ds => (digits? ds).map fun r => ((Decimal.valueOf r.1 : Int), r.2)
      | ds => (digits? ds).map fun r => ((Decimal.valueOf r.1 : Int), r.2)
    else some (0, cs)
  | [] => some (0, cs)

def unsigned? (cs : List Char) : Option (Decimal × List Char) := do
  let (whole, cs) ← whole? cs
  let (places, cs) ← places? cs
  let (exponent, cs) ← exponent? cs
  return (⟨whole ++ places, places.length, exponent⟩, cs)

def number? (cs : List Char) : Option (Value × List Char) := do
  let (d, rest) ← unsigned? (if cs.head? = some '-' then cs.tail else cs)
  let text := String.ofList (cs.take (cs.length - rest.length))
  return (if d.isInRange then .number text else .unreadable, rest)

def word? (cs : List Char) : Option (Value × List Char) :=
  if "null".toList.isPrefixOf cs then some (.null, cs.drop 4)
  else if "true".toList.isPrefixOf cs then some (.bool true, cs.drop 4)
  else if "false".toList.isPrefixOf cs then some (.bool false, cs.drop 5)
  else none

/-- An object's fields as a value; a key that cannot be read spoils all of them. -/
def objectOf (fields : List (Option String × Value)) : Value :=
  match fields.mapM fun f => f.1.map fun k => (k, f.2) with
  | some fs => .object fs
  | none => .unreadable

mutual

/-- A value at the front of the text. The first number bounds the steps taken. -/
def value? : Nat → List Char → Option (Value × List Char)
  | 0, _ => none
  | n + 1, cs =>
    match skip cs with
    | [] => none
    | '"' :: rest =>
      (string? rest).map fun r => ((r.1.map Value.string).getD .unreadable, r.2)
    | '[' :: rest =>
      match skip rest with
      | ']' :: rest => some (.array [], rest)
      | rest => (items? n rest).map fun r => (.array r.1, r.2)
    | '\x7b' :: rest =>
      match skip rest with
      | '\x7d' :: rest => some (.object [], rest)
      | rest => (fields? n rest).map fun r => (objectOf r.1, r.2)
    | c :: rest => if c = '-' ∨ c.isDigit then number? (c :: rest) else word? (c :: rest)

def items? : Nat → List Char → Option (List Value × List Char)
  | 0, _ => none
  | n + 1, cs =>
    match value? n cs with
    | none => none
    | some (v, rest) =>
      match skip rest with
      | ',' :: rest => (items? n rest).map fun r => (v :: r.1, r.2)
      | ']' :: rest => some ([v], rest)
      | _ => none

def fields? : Nat → List Char → Option (List (Option String × Value) × List Char)
  | 0, _ => none
  | n + 1, cs =>
    match skip cs with
    | '"' :: rest =>
      match string? rest with
      | none => none
      | some (k, rest) =>
        match skip rest with
        | ':' :: rest =>
          match value? n rest with
          | none => none
          | some (v, rest) =>
            match skip rest with
            | ',' :: rest => (fields? n rest).map fun r => ((k, v) :: r.1, r.2)
            | '\x7d' :: rest => some ([(k, v)], rest)
            | _ => none
        | _ => none
    | _ => none

end

/-- The value that a text is. Two steps for each character are enough. -/
def read? (text : String) : Option Value :=
  match value? (2 * text.toList.length + 1) text.toList with
  | some (v, rest) => if skip rest = [] then some v else none
  | none => none

end Statechart.Json
