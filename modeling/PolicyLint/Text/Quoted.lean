import PolicyLint.Text.Printable
/-!
Texts in double quotes, as they are shown inside messages: quotes, backslashes and characters that
cannot be seen on their own are escaped, so that two different texts look different.
-/
namespace PolicyLint.Text

/-- The code point of a character in lower-case hexadecimal. -/
def codeEscape (c : Char) : List Char :=
  "\\u\x7b".toList ++ Nat.toDigits 16 c.toNat ++ ['\x7d']

def showChar (c : Char) : List Char :=
  match c with
  | '\x00' => ['\\', '0']
  | '\t' => ['\\', 't']
  | '\r' => ['\\', 'r']
  | '\n' => ['\\', 'n']
  | '"' => ['\\', '"']
  | '\\' => ['\\', '\\']
  | c => if isExtender c || !isPrintable c then codeEscape c else [c]

def quoted (s : String) : String :=
  String.ofList ('"' :: s.toList.flatMap showChar ++ ['"'])

/-- Quoted texts in brackets. -/
def quotedList (texts : List String) : String :=
  "[" ++ join ", " (texts.map quoted) ++ "]"

end PolicyLint.Text
