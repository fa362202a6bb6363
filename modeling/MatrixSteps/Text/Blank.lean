/-!
Blank characters: the code points whose Unicode bidirectional class is whitespace, segment separator
or paragraph separator, or whose general category is a space separator. Besides the ASCII layout
characters, they include the information separators `U+001C`–`U+001F`, the next-line control
`U+0085`, the no-break space and the typographic spaces. `trim` removes them from both ends of a
text.

White space in the sense of the Unicode property `White_Space` is the same set without the four
information separators; `trimWhiteSpace` removes it from both ends of a text.
-/

namespace MatrixSteps

namespace Text

/-- The blank code points, as inclusive ranges in increasing order. -/
def blankRanges : List (Nat × Nat) :=
  [(0x09, 0x0D), (0x1C, 0x20), (0x85, 0x85), (0xA0, 0xA0), (0x1680, 0x1680), (0x2000, 0x200A),
    (0x2028, 0x2029), (0x202F, 0x202F), (0x205F, 0x205F), (0x3000, 0x3000)]

def isBlank (c : Char) : Bool := blankRanges.any fun (lo, hi) => lo ≤ c.toNat && c.toNat ≤ hi

def trim (s : String) : String :=
  String.ofList ((s.toList.dropWhile isBlank).reverse.dropWhile isBlank).reverse

/-- The text holds blanks only (or nothing). -/
def isBlankText (s : String) : Bool := s.toList.all isBlank

/-- The code points with the Unicode property `White_Space`, as inclusive ranges in increasing
order. -/
def whiteSpaceRanges : List (Nat × Nat) :=
  [(0x09, 0x0D), (0x20, 0x20), (0x85, 0x85), (0xA0, 0xA0), (0x1680, 0x1680), (0x2000, 0x200A),
    (0x2028, 0x2029), (0x202F, 0x202F), (0x205F, 0x205F), (0x3000, 0x3000)]

def isWhiteSpace (c : Char) : Bool :=
  whiteSpaceRanges.any fun (lo, hi) => lo ≤ c.toNat && c.toNat ≤ hi

def trimWhiteSpace (s : String) : String :=
  String.ofList ((s.toList.dropWhile isWhiteSpace).reverse.dropWhile isWhiteSpace).reverse

end Text

end MatrixSteps
