/-!
Cutting and joining texts: leading and trailing parts, search, separators, lines, and the
comparison that ignores the case of ASCII letters.
-/
namespace PolicyLint.Text

/-- Lower case for ASCII letters; every other character is kept. -/
def asciiLower (s : String) : String :=
  String.ofList (s.toList.map Char.toLower)

def sameIgnoringCase (s t : String) : Bool :=
  asciiLower s == asciiLower t

def isAsciiDigit (c : Char) : Bool :=
  '0' ≤ c && c ≤ '9'

def isAsciiAlphanum (c : Char) : Bool :=
  isAsciiDigit c || ('a' ≤ c && c ≤ 'z') || ('A' ≤ c && c ≤ 'Z')

/-- Equal characters are swapped one for one, so the length stays. -/
def replaceChar (old new : Char) (s : String) : String :=
  String.ofList (s.toList.map fun c => if c = old then new else c)

/-- Passing over characters leaves no more than there was. -/
theorem length_dropWhile_le (p : Char → Bool) (cs : List Char) :
    (cs.dropWhile p).length ≤ cs.length :=
  (List.dropWhile_sublist p).length_le

/-- What follows `lead` in `cs`, when `cs` starts with it. -/
def afterLead? : List Char → List Char → Option (List Char)
  | [], cs => some cs
  | _ :: _, [] => none
  | l :: lead, c :: cs => if l = c then afterLead? lead cs else none

def startsWith (lead s : String) : Bool :=
  (afterLead? lead.toList s.toList).isSome

def dropLead? (lead s : String) : Option String :=
  (afterLead? lead.toList s.toList).map String.ofList

def dropTail? (tail s : String) : Option String :=
  (afterLead? tail.toList.reverse s.toList.reverse).map fun cs => String.ofList cs.reverse

def endsWith (tail s : String) : Bool :=
  (dropTail? tail s).isSome

/-- The part of `cs` from the first occurrence of `needle` on. -/
def fromFirst? (needle : List Char) : List Char → Option (List Char)
  | [] => if needle = [] then some [] else none
  | c :: cs => if (afterLead? needle (c :: cs)).isSome then some (c :: cs) else fromFirst? needle cs

def from? (needle s : String) : Option String :=
  (fromFirst? needle.toList s.toList).map String.ofList

def contains (needle s : String) : Bool :=
  (fromFirst? needle.toList s.toList).isSome

/-- The pieces between the separators: one more than there are separators. -/
def splitOn (separator : Char) (s : String) : List String :=
  (s.toList.splitOn separator).map String.ofList

def join (separator : String) (parts : List String) : String :=
  String.ofList (List.intercalate separator.toList (parts.map String.toList))

/-- A line ends with a line feed, or with a carriage return and a line feed; text after the last
line feed is a line of its own when it is not empty. -/
def lines (s : String) : List String :=
  let pieces := s.toList.splitOn '\n'
  let ended := pieces.dropLast.map fun line =>
    if line.getLast? = some '\r' then line.dropLast else line
  let rest := pieces.getLast?.getD []
  (if rest = [] then ended else ended ++ [rest]).map String.ofList

end PolicyLint.Text
