import PolicyLint.Document.Node
import PolicyLint.Text.Pieces
/-!
The tokens of a JSON text. A token that cannot be completed ends the list: nothing behind it is ever
looked at.
-/
namespace PolicyLint.Document

inductive TokenKind where
  | openList | closeList | openObject | closeObject | comma | colon
  | null
  | bool (value : Bool)
  | number (value : Except Fault Number)
  | string (value : Except Fault String)
  /-- A word, number or string that goes wrong on the way; `quoted` for a string. -/
  | torn (quoted : Bool) (kept skipped : Fault)
  | stray

structure Token where
  span : Span
  kind : TokenKind

/-- A character of JSON white space. -/
def isGap (c : Char) : Bool :=
  c = ' ' || c = '\n' || c = '\t' || c = '\r'

def byteCount (cs : List Char) : Nat :=
  cs.foldl (fun count c => count + c.utf8Size) 0

/-! ### Strings -/

def hexValue? (c : Char) : Option Nat :=
  if '0' ≤ c ∧ c ≤ '9' then some (c.toNat - '0'.toNat)
  else if 'a' ≤ c ∧ c ≤ 'f' then some (c.toNat - 'a'.toNat + 10)
  else if 'A' ≤ c ∧ c ≤ 'F' then some (c.toNat - 'A'.toNat + 10)
  else none

/-- Four hexadecimal digits at the given offset. Fewer than four bytes are an end of input. -/
def readHex (offset : Nat) (cs : List Char) : Except Fault Nat :=
  if byteCount (cs.take 4) < 4 then .error ⟨.eofInString, offset + byteCount cs⟩
  else
    match (cs.take 4).mapM hexValue? with
    | some [a, b, c, d] => .ok (((a * 16 + b) * 16 + c) * 16 + d)
    | _ => .error ⟨.invalidEscape, offset + 4⟩

def simpleEscape? (c : Char) : Option Char :=
  [('"', '"'), ('\\', '\\'), ('/', '/'), ('b', '\x08'), ('f', '\x0c'), ('n', '\n'), ('r', '\r'),
    ('t', '\t')].lookup c

/-- Passes over the rest of a string, up to and with the closing quote. -/
def skipString (offset : Nat) : List Char → Except Fault (Nat × List Char)
  | [] => .error ⟨.eofInString, offset⟩
  | '"' :: rest => .ok (offset + 1, rest)
  | ['\\'] => .error ⟨.eofInString, offset + 1⟩
  | '\\' :: 'u' :: rest =>
    match readHex (offset + 2) rest with
    | .error fault => .error fault
    | .ok _ =>
      match rest with
      | _ :: _ :: _ :: _ :: rest => skipString (offset + 6) rest
      | _ => .error ⟨.eofInString, offset + 2⟩
  | '\\' :: c :: rest =>
    if (simpleEscape? c).isSome then skipString (offset + 2) rest
    else .error ⟨.invalidEscape, offset + 2⟩
  | c :: rest =>
    if c.toNat < 0x20 then .error ⟨.controlCharacter, offset⟩
    else skipString (offset + c.utf8Size) rest

/-- The character of a pair of surrogates. -/
def pairedChar (high low : Nat) : Char :=
  Char.ofNat (0x10000 + (high - 0xD800) * 0x400 + (low - 0xDC00))

/-- The second half of a pair must be an escape of its own. -/
def readLowSurrogate (offset : Nat) : List Char → Except Fault Nat
  | [] => .error ⟨.eofInString, offset⟩
  | ['\\'] => .error ⟨.eofInString, offset + 1⟩
  | '\\' :: 'u' :: rest =>
    match readHex (offset + 2) rest with
    | .error fault => .error fault
    | .ok low =>
      if 0xDC00 ≤ low ∧ low ≤ 0xDFFF then .ok low else .error ⟨.loneSurrogate, offset + 6⟩
  | '\\' :: _ => .error ⟨.unfinishedSurrogate, offset + 2⟩
  | _ => .error ⟨.unfinishedSurrogate, offset + 1⟩

/-- The characters of the rest of a string. -/
def readString (offset : Nat) : List Char → Except Fault (List Char)
  | [] => .error ⟨.eofInString, offset⟩
  | '"' :: _ => .ok []
  | ['\\'] => .error ⟨.eofInString, offset + 1⟩
  | '\\' :: 'u' :: rest =>
    match readHex (offset + 2) rest with
    | .error fault => .error fault
    | .ok code =>
      if 0xDC00 ≤ code ∧ code ≤ 0xDFFF then .error ⟨.loneSurrogate, offset + 6⟩
      else
        match rest with
        | _ :: _ :: _ :: _ :: rest =>
          if 0xD800 ≤ code ∧ code ≤ 0xDBFF then
            match readLowSurrogate (offset + 6) rest with
            | .error fault => .error fault
            | .ok low =>
              match rest with
              | _ :: _ :: _ :: _ :: _ :: _ :: rest =>
                (pairedChar code low :: ·) <$> readString (offset + 12) rest
              | _ => .error ⟨.eofInString, offset + 6⟩
          else (Char.ofNat code :: ·) <$> readString (offset + 6) rest
        | _ => .error ⟨.eofInString, offset + 2⟩
  | '\\' :: c :: rest =>
    match simpleEscape? c with
    | some e => (e :: ·) <$> readString (offset + 2) rest
    | none => .error ⟨.invalidEscape, offset + 2⟩
  | c :: rest =>
    if c.toNat < 0x20 then .error ⟨.controlCharacter, offset + 1⟩
    else (c :: ·) <$> readString (offset + c.utf8Size) rest

/-! ### Numbers -/

def isDigit (c : Char) : Bool :=
  '0' ≤ c && c ≤ '9'

def digitValue (c : Char) : Nat :=
  c.toNat - '0'.toNat

/-- Takes digits into the significand as long as it fits 64 bits; gives what is left over. -/
def absorb (significand : Nat) : List Char → Nat × List Char
  | [] => (significand, [])
  | d :: rest =>
    let next := significand * 10 + digitValue d
    if next < 18446744073709551616 then absorb next rest else (significand, d :: rest)

/-- The double nearest to a power of ten. -/
def tenTo? (places : Nat) : Option Double :=
  Double.ofDecimal? false 1 places

/-- `value · 10 ^ exponent`, rounded after each step of at most 308 decimal places; none beyond the
largest double. A significand of 64 bits is nothing after two full steps down. -/
def scale? (value : Double) (exponent : Int) : Option Double :=
  if value.isZero ∨ exponent < -616 then some (Double.zero value.negative)
  else if 308 < exponent then none
  else if 0 ≤ exponent then (tenTo? exponent.toNat).bind value.mul?
  else if -308 ≤ exponent then (tenTo? (-exponent).toNat).bind value.div?
  else
    ((tenTo? 308).bind value.div?).bind fun smaller =>
      (tenTo? (-exponent - 308).toNat).bind smaller.div?

def signed (negative : Bool) (d : Double) : Double :=
  if negative then d.negate else d

/-- A number without fraction and exponent. Minus zero and what does not fit 64 bits is a double. -/
def integerNumber (negative : Bool) (digits : List Char) : Option Number :=
  let absorbed := absorb 0 digits
  if negative ∧ absorbed.1 = 0 then some (.real (Double.zero true))
  else
    match absorbed.2, Number.ofInt? (Double.apply negative absorbed.1) with
    | [], some n => some n
    | left, _ =>
      (Double.ofNat? absorbed.1).bind fun d =>
        (scale? d left.length).map fun d => .real (signed negative d)

/-- Of an exponent's digits, how many are read before it is out of all bounds. -/
def exponentReach (acc : Nat) : List Char → Option Nat
  | [] => none
  | d :: rest =>
    let next := acc * 10 + digitValue d
    if next < 2147483648 then (exponentReach next rest).map (· + 1) else some 1

/-- A number with a fraction or an exponent. -/
def realNumber (negative : Bool) (whole fraction : List Char) (exponent : Int) : Option Number :=
  let first := absorb 0 whole
  let second := absorb first.1 fraction
  let taken := fraction.length - second.2.length
  (Double.ofNat? second.1).bind fun d =>
    (scale? d (first.2.length - taken + exponent)).map fun d => .real (signed negative d)

/-- A number's lexeme: its value unless out of range, and what follows. -/
structure NumberScan where
  value : Except Fault Number
  stop : Nat
  rest : List Char

/-- A number that breaks off: the fault when kept and when skipped. -/
abbrev Torn := Fault × Fault

def tornAt (atEnd : Bool) (cause : Cause) (offset : Nat) : Torn :=
  if atEnd then (⟨.eofInValue, offset⟩, ⟨.invalidNumber, offset⟩)
  else (⟨cause, offset + 1⟩, ⟨cause, offset + 1⟩)

/-- The digits of an exponent; `down` for a negative one. -/
def scanPower (negative : Bool) (whole fraction : List Char) (down : Bool) (offset : Nat)
    (cs : List Char) : Except Torn NumberScan :=
  let digits := cs.takeWhile isDigit
  if digits = [] then .error (tornAt (cs = []) .invalidNumber offset)
  else
    let stop := offset + digits.length
    let size := digits.foldl (fun acc d => acc * 10 + digitValue d) 0
    let isZero := (absorb (absorb 0 whole).1 fraction).1 = 0
    let value :=
      match exponentReach 0 digits with
      | some reach =>
        if isZero ∨ down then .ok (.real (Double.zero negative))
        else .error ⟨.numberOutOfRange, offset + reach⟩
      | none =>
        match realNumber negative whole fraction (Double.apply down size) with
        | some n => .ok n
        | none => .error ⟨.numberOutOfRange, stop⟩
    .ok ⟨value, stop, cs.dropWhile isDigit⟩

def scanExponent (negative : Bool) (whole fraction : List Char) (offset : Nat) :
    List Char → Except Torn NumberScan
  | '-' :: cs => scanPower negative whole fraction true (offset + 1) cs
  | '+' :: cs => scanPower negative whole fraction false (offset + 1) cs
  | cs => scanPower negative whole fraction false offset cs

def isExponentMark (c : Char) : Bool :=
  c = 'e' || c = 'E'

/-- A number from its first digit on; the sign has been read. -/
def scanNumber (negative : Bool) (offset : Nat) (cs : List Char) : Except Torn NumberScan :=
  let whole := if cs.head? = some '0' then ['0'] else cs.takeWhile isDigit
  let rest := cs.drop whole.length
  let stop := offset + whole.length
  let done := fun (value : Option Number) (stop : Nat) (rest : List Char) =>
    (⟨match value with
      | some n => .ok n
      | none => .error ⟨.numberOutOfRange, stop⟩, stop, rest⟩ : NumberScan)
  if whole = [] then .error (tornAt (cs = []) .invalidNumber offset)
  else
    match rest with
    | '.' :: rest =>
      let fraction := rest.takeWhile isDigit
      let after := rest.dropWhile isDigit
      if fraction = [] then
        if after = [] then .error (⟨.eofInValue, stop + 1⟩, ⟨.invalidNumber, stop + 1⟩)
        else .error (⟨.invalidNumber, stop + 2⟩, ⟨.invalidNumber, stop + 2⟩)
      else
        let stop := stop + 1 + fraction.length
        match after with
        | c :: after' =>
          if isExponentMark c then scanExponent negative whole fraction (stop + 1) after'
          else .ok (done (realNumber negative whole fraction 0) stop after)
        | [] => .ok (done (realNumber negative whole fraction 0) stop [])
    | c :: rest' =>
      if isExponentMark c then scanExponent negative whole [] (stop + 1) rest'
      else if isDigit c then .error (⟨.invalidNumber, stop + 1⟩, ⟨.invalidNumber, stop + 1⟩)
      else .ok (done (integerNumber negative whole) stop rest)
    | [] => .ok (done (integerNumber negative whole) stop [])

/-! ### Words and the whole text -/

/-- The letters of a word that must follow its first one. -/
def scanWord (offset : Nat) : List Char → List Char → Except Fault (Nat × List Char)
  | [], cs => .ok (offset, cs)
  | _ :: _, [] => .error ⟨.eofInValue, offset⟩
  | w :: word, c :: cs =>
    if w = c then scanWord (offset + 1) word cs else .error ⟨.expectedIdent, offset + 1⟩

/-- One token from a character that is no gap: its kind, its end, and the rest unless it is torn. -/
def scanToken (offset : Nat) (c : Char) (cs : List Char) : TokenKind × Nat × List Char :=
  let word := fun (letters : String) (kind : TokenKind) =>
    match scanWord (offset + 1) letters.toList cs with
    | .ok (stop, rest) => (kind, stop, rest)
    | .error fault => (.torn false fault fault, offset, [])
  let number := fun (negative : Bool) (start : Nat) (digits : List Char) =>
    match scanNumber negative start digits with
    | .ok scan => (.number scan.value, scan.stop, scan.rest)
    | .error (kept, skipped) => (.torn false kept skipped, offset, [])
  match c with
  | '[' => (.openList, offset + 1, cs)
  | ']' => (.closeList, offset + 1, cs)
  | '\x7b' => (.openObject, offset + 1, cs)
  | '\x7d' => (.closeObject, offset + 1, cs)
  | ',' => (.comma, offset + 1, cs)
  | ':' => (.colon, offset + 1, cs)
  | 'n' => word "ull" .null
  | 't' => word "rue" (.bool true)
  | 'f' => word "alse" (.bool false)
  | '"' =>
    match skipString (offset + 1) cs with
    | .ok (stop, rest) => (.string ((readString (offset + 1) cs).map String.ofList), stop, rest)
    | .error skipped =>
      match readString (offset + 1) cs with
      | .error kept => (.torn true kept skipped, offset, [])
      | .ok _ => (.torn true skipped skipped, offset, [])
  | '-' => number true (offset + 1) cs
  | _ => if isDigit c then number false offset (c :: cs) else (.stray, offset + c.utf8Size, cs)

theorem skipString_shorter (offset : Nat) (cs : List Char) {stop : Nat} {rest : List Char}
    (h : skipString offset cs = .ok (stop, rest)) : rest.length < cs.length := by
  fun_induction skipString offset cs <;> simp_all <;> omega

theorem scanWord_shorter (offset : Nat) (word cs : List Char) {stop : Nat} {rest : List Char}
    (h : scanWord offset word cs = .ok (stop, rest)) : rest.length ≤ cs.length := by
  fun_induction scanWord offset word cs <;> simp_all
  omega

theorem scanPower_shorter (negative : Bool) (whole fraction : List Char) (down : Bool)
    (offset : Nat) (cs : List Char) {scan : NumberScan}
    (h : scanPower negative whole fraction down offset cs = .ok scan) :
    scan.rest.length ≤ cs.length := by
  unfold scanPower at h
  dsimp only at h
  split at h
  · cases h
  · cases h
    exact Text.length_dropWhile_le _ _

theorem scanExponent_shorter (negative : Bool) (whole fraction : List Char) (offset : Nat)
    (cs : List Char) {scan : NumberScan}
    (h : scanExponent negative whole fraction offset cs = .ok scan) :
    scan.rest.length ≤ cs.length := by
  unfold scanExponent at h
  split at h
  · exact Nat.le_succ_of_le (scanPower_shorter _ _ _ _ _ _ h)
  · exact Nat.le_succ_of_le (scanPower_shorter _ _ _ _ _ _ h)
  · exact scanPower_shorter _ _ _ _ _ _ h

theorem scanNumber_shorter (negative : Bool) (offset : Nat) (cs : List Char) {scan : NumberScan}
    (h : scanNumber negative offset cs = .ok scan) : scan.rest.length < cs.length := by
  unfold scanNumber at h
  generalize hw : (if cs.head? = some '0' then ['0'] else cs.takeWhile isDigit) = whole at h
  dsimp only at h
  split at h
  · cases h
  · rename_i nonempty
    have short : (cs.drop whole.length).length < cs.length := by
      have : cs ≠ [] := by
        intro empty
        simp [empty] at hw
        exact nonempty (by simp [hw])
      have := List.length_pos_iff.mpr this
      have := List.length_pos_iff.mpr nonempty
      simp; omega
    split at h
    · rename_i rest hr
      rw [hr] at short
      simp only [List.length_cons] at short
      have le := Text.length_dropWhile_le isDigit rest
      split at h
      · split at h <;> cases h
      · split at h
        · rename_i c after ha
          rw [ha] at le
          simp only [List.length_cons] at le
          split at h
          · have := scanExponent_shorter _ _ _ _ _ h
            omega
          · cases h
            simp only [ha, List.length_cons]
            omega
        · cases h
          simp only [List.length_nil]
          omega
    · rename_i c rest _ hr
      rw [hr] at short
      simp only [List.length_cons] at short
      split at h
      · have := scanExponent_shorter _ _ _ _ _ h
        omega
      · split at h
        · cases h
        · cases h
          simp only [hr, List.length_cons]
          omega
    · cases h
      simp only [List.length_nil]
      omega

theorem scanToken_shorter (offset : Nat) (c : Char) (cs : List Char) :
    (scanToken offset c cs).2.2.length ≤ cs.length := by
  have word : ∀ (letters : String) (kind : TokenKind),
      (match scanWord (offset + 1) letters.toList cs with
        | .ok (stop, rest) => (kind, stop, rest)
        | .error fault => (TokenKind.torn false fault fault, offset, [])).2.2.length ≤ cs.length := by
    intro letters kind
    split
    · exact scanWord_shorter _ _ _ ‹_›
    · simp
  have number : ∀ (negative : Bool) (start : Nat) (digits : List Char),
      digits.length ≤ cs.length + 1 →
      (match scanNumber negative start digits with
        | .ok scan => (TokenKind.number scan.value, scan.stop, scan.rest)
        | .error (kept, skipped) => (TokenKind.torn false kept skipped, offset, [])).2.2.length
        ≤ cs.length := by
    intro negative start digits le
    split
    · have := scanNumber_shorter _ _ _ ‹_›
      dsimp only
      omega
    · simp
  unfold scanToken
  split <;> try exact Nat.le_refl _
  · exact word _ _
  · exact word _ _
  · exact word _ _
  · split
    · exact Nat.le_of_lt (skipString_shorter _ _ ‹_›)
    · split <;> simp
  · exact number _ _ _ (by simp)
  · split
    · exact number _ _ _ (by simp)
    · exact Nat.le_refl _

/-- The tokens of a text, and the offset of its end. -/
def tokens (offset : Nat) : List Char → List Token
  | [] => []
  | c :: cs =>
    if isGap c then tokens (offset + 1) cs
    else
      have shorter := scanToken_shorter offset c cs
      match h : scanToken offset c cs with
      | (kind, stop, rest) =>
        have : rest.length ≤ cs.length := by rw [h] at shorter; exact shorter
        ⟨⟨offset, stop⟩, kind⟩ :: tokens stop rest
termination_by cs => cs.length

end PolicyLint.Document
