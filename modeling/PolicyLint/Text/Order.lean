/-!
Texts in order of their code points.
-/
namespace PolicyLint.Text

def sorted (texts : List String) : List String :=
  texts.mergeSort fun a b => decide (a ≤ b)

/-- One of each run of equal texts. -/
def dropRepeats : List String → List String
  | a :: b :: rest => if a = b then dropRepeats (b :: rest) else a :: dropRepeats (b :: rest)
  | rest => rest

/-- Each text once, in order. -/
def sortedDistinct (texts : List String) : List String :=
  dropRepeats (sorted texts)

end PolicyLint.Text
