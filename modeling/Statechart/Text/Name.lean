import Statechart.Text.Alphabetic
import Statechart.Text.Digit
import Statechart.Text.Mark

namespace Statechart

def CharSet.joinControl : CharSet where
  bounds := [0x200C, 0x200E]

namespace Text

def isNameChar (c : Char) : Bool :=
  c = '_' || CharSet.alphabetic.has c || CharSet.decimalDigit.has c || CharSet.otherNumber.has c

def isWordChar (c : Char) : Bool :=
  CharSet.alphabetic.has c || CharSet.mark.has c || CharSet.decimalDigit.has c ||
    CharSet.connector.has c || CharSet.joinControl.has c

end Text

end Statechart
