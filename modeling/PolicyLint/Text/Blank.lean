/-!
White space and trimming. A character is blank when it has the Unicode property White_Space;
trimming removes blank characters from the ends of a text and nothing else.
-/
namespace PolicyLint.Text

/-- The property White_Space, as ranges of code points. -/
def blankRanges : List (Nat × Nat) :=
  [(0x09, 0x0D), (0x20, 0x20), (0x85, 0x85), (0xA0, 0xA0), (0x1680, 0x1680), (0x2000, 0x200A),
   (0x2028, 0x2029), (0x202F, 0x202F), (0x205F, 0x205F), (0x3000, 0x3000)]

/-- Membership of a code point in a list of closed ranges. -/
def inRanges (ranges : List (Nat × Nat)) (c : Char) : Bool :=
  ranges.any fun r => r.1 ≤ c.toNat && c.toNat ≤ r.2

def isBlank (c : Char) : Bool :=
  inRanges blankRanges c

def dropBlanks (cs : List Char) : List Char :=
  cs.dropWhile isBlank

def trimStart (s : String) : String :=
  String.ofList (dropBlanks s.toList)

def trimEnd (s : String) : String :=
  String.ofList (dropBlanks s.toList.reverse).reverse

def trim (s : String) : String :=
  trimStart (trimEnd s)

end PolicyLint.Text
