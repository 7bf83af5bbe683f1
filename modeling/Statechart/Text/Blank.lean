import Statechart.Text.CharSet

namespace Statechart

def CharSet.blank : CharSet where
  bounds := [0x9, 0xE, 0x20, 0x21, 0x85, 0x86, 0xA0, 0xA1, 0x1680, 0x1681, 0x2000, 0x200B, 0x2028,
    0x202A, 0x202F, 0x2030, 0x205F, 0x2060, 0x3000, 0x3001]

namespace Text

def isBlank (c : Char) : Bool :=
  CharSet.blank.has c

def trimStart (cs : List Char) : List Char :=
  cs.dropWhile isBlank

def trimEnd (cs : List Char) : List Char :=
  (cs.reverse.dropWhile isBlank).reverse

def trim (cs : List Char) : List Char :=
  trimEnd (trimStart cs)

def trimmed (s : String) : String :=
  String.ofList (trim s.toList)

def words : List Char → List (List Char)
  | [] => []
  | c :: cs =>
    if isBlank c then words cs
    else if (cs.head?.map isBlank).getD true then [c] :: words cs
    else
      match words cs with
      | [] => [[c]]
      | w :: ws => (c :: w) :: ws

end Text

end Statechart
