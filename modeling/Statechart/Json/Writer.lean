import Statechart.Json.Value

namespace Statechart.Json

def hexDigit (n : Nat) : Char :=
  if n < 10 then Char.ofNat (48 + n) else Char.ofNat (87 + n)

def escapeChar (c : Char) : List Char :=
  if c = '"' then ['\\', '"']
  else if c = '\\' then ['\\', '\\']
  else if c = '\x08' then ['\\', 'b']
  else if c = '\x0c' then ['\\', 'f']
  else if c = '\n' then ['\\', 'n']
  else if c = '\r' then ['\\', 'r']
  else if c = '\t' then ['\\', 't']
  else if c.toNat < 32 then ['\\', 'u', '0', '0', hexDigit (c.toNat / 16), hexDigit (c.toNat % 16)]
  else [c]

def writeString (s : String) : List Char :=
  '"' :: s.toList.flatMap escapeChar ++ ['"']

abbrev Indent := Option Nat

namespace Indent

def deeper (i : Indent) : Indent :=
  i.map (· + 1)

def gap : Indent → List Char
  | none => []
  | some n => '\n' :: List.replicate (2 * n) ' '

def colon : Indent → List Char
  | none => [':']
  | some _ => [':', ' ']

end Indent

mutual

def write (i : Indent) : Value → List Char
  | .null => "null".toList
  | .bool true => "true".toList
  | .bool false => "false".toList
  | .number text => text.toList
  | .string s => writeString s
  | .array [] => ['[', ']']
  | .array (v :: vs) =>
    '[' :: i.deeper.gap ++ write i.deeper v ++ writeItems i.deeper vs ++ i.gap ++ [']']
  | .object [] => ['\x7b', '\x7d']
  | .object ((k, v) :: fields) =>
    '\x7b' :: i.deeper.gap ++ writeString k ++ i.colon ++ write i.deeper v ++
      writeFields i.deeper fields ++ i.gap ++ ['\x7d']
  | .unreadable => "null".toList

def writeItems (i : Indent) : List Value → List Char
  | [] => []
  | v :: vs => ',' :: i.gap ++ write i v ++ writeItems i vs

def writeFields (i : Indent) : List (String × Value) → List Char
  | [] => []
  | (k, v) :: fields =>
    ',' :: i.gap ++ writeString k ++ i.colon ++ write i v ++ writeFields i fields

end

def Value.compact (v : Value) : String :=
  String.ofList (write none v)

def Value.pretty (v : Value) : String :=
  String.ofList (write (some 0) v)

end Statechart.Json
