/-!
Colours and weight of texts on a terminal.
-/
namespace PolicyLint.Text

inductive Colour where
  | red | green | yellow | blue | cyan
deriving DecidableEq, Repr

/-- The number of the foreground colour. -/
def Colour.code : Colour → String
  | .red => "31"
  | .green => "32"
  | .yellow => "33"
  | .blue => "34"
  | .cyan => "36"

def inColour (colour : Colour) (s : String) : String :=
  "\x1b[" ++ colour.code ++ "m" ++ s ++ "\x1b[39m"

def bold (s : String) : String :=
  "\x1b[1m" ++ s ++ "\x1b[0m"

end PolicyLint.Text
