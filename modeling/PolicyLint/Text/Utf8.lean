/-!
Bytes read as UTF-8: strictly, or with a replacement character for each run of bytes that cannot
begin a character.
-/
namespace PolicyLint.Text.Utf8

/-- What a leading byte asks for: how many bytes follow, and the range of the first of them. -/
structure Lead where
  following : Nat
  low : UInt8
  high : UInt8

/-- The leading bytes of characters beyond ASCII; the ranges exclude overlong forms, surrogates and
code points that are too large. -/
def lead? (b : UInt8) : Option Lead :=
  if 0xC2 ≤ b ∧ b ≤ 0xDF then some ⟨1, 0x80, 0xBF⟩
  else if b = 0xE0 then some ⟨2, 0xA0, 0xBF⟩
  else if b = 0xED then some ⟨2, 0x80, 0x9F⟩
  else if 0xE1 ≤ b ∧ b ≤ 0xEF then some ⟨2, 0x80, 0xBF⟩
  else if b = 0xF0 then some ⟨3, 0x90, 0xBF⟩
  else if 0xF1 ≤ b ∧ b ≤ 0xF3 then some ⟨3, 0x80, 0xBF⟩
  else if b = 0xF4 then some ⟨3, 0x80, 0x8F⟩
  else none

/-- The bytes at the start of `bytes` that may follow a leading byte, at most `count` of them. -/
def tail (low high : UInt8) : Nat → List UInt8 → List UInt8
  | count + 1, b :: rest => if low ≤ b ∧ b ≤ high then b :: tail 0x80 0xBF count rest else []
  | _, _ => []

/-- The bits that the leading byte contributes. -/
def leadBits (following : Nat) (b : UInt8) : Nat :=
  b.toNat % Nat.pow 2 (6 - following)

def joinBits (start : Nat) (bytes : List UInt8) : Nat :=
  bytes.foldl (fun acc b => acc * 64 + b.toNat % 64) start

/-- The first character, or none for bytes that begin no character, and how many bytes follow the
first one in it. -/
def first (b : UInt8) (rest : List UInt8) : Option Char × Nat :=
  if b < 0x80 then (some (Char.ofNat b.toNat), 0)
  else
    match lead? b with
    | none => (none, 0)
    | some lead =>
      let follow := tail lead.low lead.high lead.following rest
      if follow.length = lead.following then
        (some (Char.ofNat (joinBits (leadBits lead.following b) follow)), follow.length)
      else (none, follow.length)

/-- The characters, with none in the place of each run that begins no character. -/
def characters : List UInt8 → List (Option Char)
  | [] => []
  | b :: rest =>
    let found := first b rest
    found.1 :: characters (rest.drop found.2)
termination_by bytes => bytes.length
decreasing_by simp only [List.length_drop, List.length_cons]; omega

def decode? (bytes : List UInt8) : Option String :=
  ((characters bytes).mapM id).map String.ofList

def decodeLossy (bytes : List UInt8) : String :=
  String.ofList ((characters bytes).map fun c => c.getD '\uFFFD')

def encode (s : String) : List UInt8 :=
  s.toUTF8.toList

end PolicyLint.Text.Utf8
