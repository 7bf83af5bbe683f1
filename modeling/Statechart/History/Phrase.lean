import Statechart.Text.Search

namespace Statechart.History

open Text Text.Pattern

def lead : Pattern :=
  sequence [
    boundary,
    either (sequence [word "return", optional (word "s")])
      (either (sequence [word "transition", optional (word "s")])
        (either (word "goes") (word "go"))),
    blanks,
    optional (sequence [word "back", blanks]),
    word "to",
    blanks,
    optional (sequence [word "the", blanks])]

def isNameStart (c : Char) : Bool :=
  c.isAlpha || c = '_' || c = '\u017f' || c = '\u212a'

def isNameRest (c : Char) : Bool :=
  isWordChar c || c = '/'

def pathPattern : Pattern :=
  sequence [one isNameStart, many isNameRest]

def trail : Pattern :=
  sequence [blanks, word "history", optional (sequence [blanks, word "state"]), boundary]

def textBetween (a b : Cursor) : List Char :=
  a.rest.take (a.rest.length - b.rest.length)

def phraseAt (c : Cursor) : Option (String × Cursor) :=
  let ends := (lead c).flatMap fun start =>
    (pathPattern start).flatMap fun stop =>
      (trail stop).map fun e => (String.ofList (textBetween start stop), e)
  ends.head?

def mentionAt (c : Cursor) : Option (Unit × Cursor) :=
  (sequence [boundary, word "history", boundary] c).head?.map fun e => ((), e)

def phrases (text : String) : List (String × Span) :=
  allMatches phraseAt text.toList

def mentions (text : String) : List Span :=
  (allMatches mentionAt text.toList).map Prod.snd

def isOutside (ps : List (String × Span)) (s : Span) : Bool :=
  !ps.any fun p => p.2.meets s

def isVague (text : String) : Bool :=
  (mentions text).any (isOutside (phrases text))

end Statechart.History
