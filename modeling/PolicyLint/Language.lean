import PolicyLint.Path
import PolicyLint.Text.Blank
import PolicyLint.Glob.Match
/-!
Languages, their other names, and the file extensions that belong to them. Names are compared without
regard to ASCII case and surrounding blanks; no extension belongs to two languages.
-/
namespace PolicyLint

structure Language where
  name : String
  aliases : List String
  extensions : List String

namespace Language

def all : List Language :=
  [⟨"javascript", ["js"], ["js", "mjs", "cjs"]⟩,
   ⟨"typescript", ["ts"], ["ts", "mts", "cts"]⟩,
   ⟨"jsx", [], ["jsx"]⟩,
   ⟨"tsx", [], ["tsx"]⟩,
   ⟨"python", ["py"], ["py", "pyi", "pyw"]⟩,
   ⟨"go", ["golang"], ["go"]⟩,
   ⟨"java", [], ["java"]⟩,
   ⟨"c", [], ["c", "h"]⟩,
   ⟨"cpp", ["c++"], ["cpp", "cc", "cxx", "hpp", "hh", "hxx"]⟩,
   ⟨"rust", [], ["rs"]⟩,
   ⟨"ruby", [], ["rb"]⟩,
   ⟨"php", [], ["php"]⟩,
   ⟨"swift", [], ["swift"]⟩,
   ⟨"kotlin", [], ["kt", "kts"]⟩,
   ⟨"scala", [], ["scala"]⟩,
   ⟨"shell", ["sh"], ["sh", "bash", "zsh"]⟩]

/-- The language assumed when neither the rule nor the files say otherwise. -/
def fallback : String := "javascript"

/-- A name without surrounding blanks, in lower case. -/
def normalized (name : String) : String :=
  Text.asciiLower (Text.trim name)

def find? (name : String) : Option Language :=
  let name := normalized name
  all.find? fun l => l.name == name || l.aliases.contains name

/-- The one name of a language, given any of its names. -/
def canonical? (name : String) : Option String :=
  (find? name).map Language.name

def extension? (path : String) : Option String :=
  (Path.extension? path).map Text.asciiLower

/-- The language that owns the extension of a file. -/
def ofPath? (path : String) : Option String :=
  (extension? path).bind fun ext => (all.find? fun l => l.extensions.contains ext).map Language.name

/-- Whether the extension of a file belongs to a language; an unknown language has none. -/
def owns (language path : String) : Bool :=
  match find? language, extension? path with
  | some l, some ext => l.extensions.contains ext
  | _, _ => false

end Language
end PolicyLint
