-- SUMMARY: White space of the Unicode standard, and texts without blanks at their ends.
import Provenance.Text.Ranges

/-!
# Blank characters

White space of the Unicode standard together with the four ASCII separators. The zero-width space
is not blank.
-/
namespace Provenance.Text

def blankRanges : Ranges :=
  [
    (0x0009, 0x000D), (0x001C, 0x0020), (0x0085, 0x0085), (0x00A0, 0x00A0),
    (0x1680, 0x1680), (0x2000, 0x200A), (0x2028, 0x2029), (0x202F, 0x202F),
    (0x205F, 0x205F), (0x3000, 0x3000)]

def isBlank (c : Char) : Bool := blankRanges.contains c

/-- The text without the blanks at its ends. -/
def trim (cs : List Char) : List Char :=
  ((cs.dropWhile isBlank).reverse.dropWhile isBlank).reverse

/-- ASCII letters in lower case, all else unchanged. -/
def lower (cs : List Char) : List Char := cs.map Char.toLower

end Provenance.Text
