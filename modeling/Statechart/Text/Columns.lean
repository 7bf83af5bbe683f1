import Statechart.Text.Blank
import Statechart.Text.Glyph

/-!
The width of a text in columns, and what is laid out by it: padding and wrapping. A text is
measured from its end, because some characters merge with what follows them: a letter with its
ligature partner, an emoji with its selector, modifier or joined neighbour.
-/

namespace Statechart.Text

/-- A variation selector: it asks for the text form or the emoji form of the character before it. -/
inductive Selector where
  | text
  | emoji
  deriving DecidableEq, Repr

/-- What the text after a character begins with, as far as it can merge with that character. -/
inductive Follower where
  | plain
  | lineFeed
  | emoji
  | joinedEmoji
  | modifier
  | regional
  | alef
  | lamed (joined : Bool)
  | bugineseYa (joined : Bool)
  | bugineseVowelYa
  | tifinagh (joined : Bool)
  | tifinaghJoiner
  | lisuTone
  | orkhonI
  | khmerLetter
  deriving DecidableEq, Repr

structure Ahead where
  follower : Follower
  selector : Option Selector
  deriving DecidableEq, Repr

namespace Ahead

def plain : Ahead where
  follower := .plain
  selector := none

def of (f : Follower) : Ahead where
  follower := f
  selector := none

end Ahead

private def between (c lo hi : Char) : Bool :=
  lo ≤ c && c ≤ hi

def isLigatureTransparent (c : Char) : Bool :=
  c = '\u034f' || between c '\u17b4' '\u17b5' || between c '\u180b' '\u180d' || c = '\u180f' ||
    between c '\ufe00' '\ufe0f' || between c (Char.ofNat 0xE0100) (Char.ofNat 0xE01EF)

def isKhmerLetter (c : Char) : Bool :=
  between c '\u1780' '\u1782' || between c '\u1784' '\u1787' || between c '\u1789' '\u178c' ||
    between c '\u178e' '\u1793' || between c '\u1795' '\u1798' || between c '\u179b' '\u179d' ||
    c = '\u17a0' || c = '\u17a2' || c = '\u17a7' || between c '\u17ab' '\u17ac' || c = '\u17af'

def isAlef (c : Char) : Bool :=
  between c '\u0622' '\u0623' || c = '\u0625' || c = '\u0627' || between c '\u0671' '\u0673' ||
    c = '\u0675' || between c '\u0773' '\u0774' || between c '\u0870' '\u0882'

def isLam (c : Char) : Bool :=
  c = '\u0644' || between c '\u06b5' '\u06b8' || c = '\u076a' || c = '\u08a6' || c = '\u08c7'

def isTifinagh (c : Char) : Bool :=
  between c '\u2d31' '\u2d65' || c = '\u2d6f'

def isRegional (c : Char) : Bool :=
  between c (Char.ofNat 0x1F1E6) (Char.ofNat 0x1F1FF)

def isModifier (c : Char) : Bool :=
  between c (Char.ofNat 0x1F3FB) (Char.ofNat 0x1F3FF)

/-- The columns of a character that merges with nothing after it, and what it is for the character
    before it. -/
def alone (c : Char) : Int × Ahead :=
  if c = '\u05dc' then (1, .of (.lamed false))
  else if isAlef c then (1, .of .alef)
  else if isKhmerLetter c then (1, .of .khmerLetter)
  else if c = '\u17d8' then (3, .plain)
  else if c = '\u1a10' then (1, .of (.bugineseYa false))
  else if isTifinagh c then (1, .of (.tifinagh false))
  else if between c '\ua4fc' '\ua4fd' then (1, .of .lisuTone)
  else if c = Char.ofNat 0x10C03 then (1, .of .orkhonI)
  else if c = '\ufe0e' then (0, { follower := .plain, selector := some .text })
  else if c = '\ufe0f' then (0, { follower := .plain, selector := some .emoji })
  else if isRegional c then (1, .of .regional)
  else if isModifier c then (2, .of .modifier)
  else if CharSet.emoji.has c then (2, .of .emoji)
  else if CharSet.zeroWidth.has c then (0, .plain)
  else if CharSet.wide.has c then (2, .plain)
  else (1, .plain)

def Follower.isLigature : Follower → Bool
  | .alef | .lamed _ | .bugineseYa _ | .bugineseVowelYa | .tifinagh _ | .tifinaghJoiner
  | .lisuTone | .orkhonI | .khmerLetter => true
  | _ => false

/-- A selector stays beside a pending ligature or joiner and replaces anything else. -/
def Ahead.select (a : Ahead) (s : Selector) : Ahead :=
  if a.follower.isLigature || (a.follower = .joinedEmoji && s = .emoji) then
    { a with selector := some s }
  else { follower := .plain, selector := some s }

def Follower.merge? (f : Follower) (c : Char) : Option (Int × Ahead) :=
  if f.isLigature && isLigatureTransparent c then some (0, .of f)
  else
    match f with
    | .alef =>
      if isLam c then some (0, .plain)
      else if CharSet.zeroWidth.has c then some (0, .of .alef) else none
    | .lamed joined =>
      if c = '\u200d' then some (0, .of (.lamed true))
      else if joined && c = '\u05d0' then some (0, .plain) else none
    | .bugineseYa joined =>
      if c = '\u200d' then some (0, .of (.bugineseYa true))
      else if joined && c = '\u1a17' then some (0, .of .bugineseVowelYa) else none
    | .bugineseVowelYa => if c = '\u1a15' then some (0, .plain) else none
    | .tifinagh joined =>
      if c = '\u200d' then some (0, .of (.tifinagh true))
      else if c = '\u2d7f' then some (1, .of .tifinaghJoiner)
      else if joined && isTifinagh c then some (0, .plain) else none
    | .tifinaghJoiner => if isTifinagh c then some (-1, .plain) else none
    | .lisuTone => if between c '\ua4f8' '\ua4fb' then some (0, .plain) else none
    | .orkhonI =>
      if c = '\u200d' then some (0, .of .orkhonI)
      else if c = Char.ofNat 0x10C32 then some (0, .plain) else none
    | .khmerLetter => if c = '\u17d2' then some (-1, .plain) else none
    | .modifier =>
      if CharSet.modifierBase.has c then some (0, .of .emoji)
      else if c = '\u200d' then some (0, .of .joinedEmoji) else none
    | .emoji | .regional => if c = '\u200d' then some (0, .of .joinedEmoji) else none
    | .joinedEmoji =>
      if isModifier c then some (0, .of .modifier)
      else if CharSet.emoji.has c then some (0, .of .emoji) else none
    | .plain | .lineFeed => none

def merged (c : Char) (a : Ahead) : Int × Ahead :=
  if a.selector = some .emoji && (CharSet.emoji.has c || CharSet.emojiText.has c) then
    (if a.follower = .joinedEmoji then 0 else 2, .of .emoji)
  else if c ≤ '\u00a0' then
    if c = '\n' then (0, .of .lineFeed)
    else if c = '\r' && a = .of .lineFeed then (0, .plain)
    else (1, .plain)
  else if c = '\ufe0f' then (0, a.select .emoji)
  else if c = '\ufe0e' then (0, a.select .text)
  else if a.selector = some .text && CharSet.emojiTextual.has c then (1, .plain)
  else (a.follower.merge? c).getD (alone c)

def measure (cs : List Char) : Int × Ahead :=
  cs.foldr (fun c r => ((merged c r.2).1 + r.1, (merged c r.2).2)) (0, .plain)

def columns (cs : List Char) : Nat :=
  (measure cs).1.toNat

def columnsOf (s : String) : Nat :=
  columns s.toList

def pad (s : String) (width : Nat) : String :=
  s ++ String.ofList (List.replicate (width - columnsOf s) ' ')

/-- Puts each word on the last line if it fits there, else on a line of its own. Lines are held
    newest first. -/
def fill (cols : List Char → Nat) (width : Nat) :
    List (List Char) → List (List Char) → List (List Char)
  | [], ls => ls.reverse
  | w :: ws, [] => fill cols width ws [w]
  | w :: ws, l :: ls =>
    if cols l + 1 + cols w ≤ width then fill cols width ws ((l ++ ' ' :: w) :: ls)
    else fill cols width ws (w :: l :: ls)

/-- A text cut between words into lines of at most `width` columns, as full as they go, if `cols`
    measures a text; a wider word has a line of its own. Nothing is cut when the width is zero or
    the text fits. -/
def wrapBy (cols : List Char → Nat) (width : Nat) (s : String) : List String :=
  if width = 0 ∨ cols s.toList ≤ width then [s]
  else
    match fill cols width (words s.toList) [] with
    | [] => [""]
    | ls => ls.map String.ofList

def wrap (width : Nat) (s : String) : List String :=
  wrapBy columns width s

end Statechart.Text
