/-!
Blank characters and the words between them.

A character is blank when it has the Unicode property `White_Space`. The class is wider than
ASCII and leaves out U+200B, U+FEFF, U+180E and the separators U+001C to U+001F.
-/

namespace ChainRunner.Text

def isBlank (c : Char) : Bool :=
  let n := c.toNat
  (0x9 ≤ n && n ≤ 0xD) || n == 0x20 || n == 0x85 || n == 0xA0 || n == 0x1680
    || (0x2000 ≤ n && n ≤ 0x200A) || n == 0x2028 || n == 0x2029 || n == 0x202F
    || n == 0x205F || n == 0x3000

/-- The maximal runs of characters that are not blank, in order. -/
def words (s : List Char) : List (List Char) :=
  (s.splitOnP isBlank).filter (!·.isEmpty)

def trimStart (s : List Char) : List Char := s.dropWhile isBlank

/-- The list without its longest end of elements that satisfy `p`. -/
def dropEndWhile {α : Type} (p : α → Bool) (s : List α) : List α :=
  (s.reverse.dropWhile p).reverse

def trim (s : List Char) : List Char := dropEndWhile isBlank (trimStart s)

def trimString (s : String) : String := String.ofList (trim s.toList)

end ChainRunner.Text
