import PolicyLint.Document.Text
import PolicyLint.Proofs.Document.Lexeme
/-!
JSON documents as they are written: a tree that keeps all gaps, spellings and orders. Main statement: the
text of a document is read as one value with nothing behind it, and that value stands for the document.
-/
namespace PolicyLint.Document

/-! ### Documents -/

/-- The gaps around a value. -/
structure Around where
  before : Gap
  behind : Gap

inductive Single where
  | null
  | bool (value : Bool)
  | number (value : Numeral)
  | string (letters : List Letter)

/-- A key with the gaps around it. -/
structure Label where
  around : Around
  letters : List Letter

inductive Written where
  | single (around : Around) (value : Single)
  /-- The inner gap stands behind the bracket, also where there are no items. -/
  | list (around : Around) (inner : Gap) (items : List Written)
  | object (around : Around) (inner : Gap) (members : List (Label × Written))

def stringText (letters : List Letter) : List Char :=
  '"' :: (lettersText letters ++ ['"'])

def Single.text : Single → List Char
  | .null => "null".toList
  | .bool true => "true".toList
  | .bool false => "false".toList
  | .number value => value.text
  | .string letters => stringText letters

def Label.text (l : Label) : List Char :=
  l.around.before.1 ++ (stringText l.letters ++ l.around.behind.1)

mutual

def Written.text : Written → List Char
  | .single around value => around.before.1 ++ (value.text ++ around.behind.1)
  | .list around inner items =>
    around.before.1 ++ '[' :: (inner.1 ++ ((Written.itemsText items).tail ++ ']' :: around.behind.1))
  | .object around inner members =>
    around.before.1 ++ '\x7b' :: (inner.1 ++ ((Written.membersText members).tail ++ '\x7d' :: around.behind.1))

/-- Each item behind a comma. -/
def Written.itemsText : List Written → List Char
  | [] => []
  | w :: rest => ',' :: (w.text ++ Written.itemsText rest)

def Written.membersText : List (Label × Written) → List Char
  | [] => []
  | (label, w) :: rest => ',' :: (label.text ++ ':' :: (w.text ++ Written.membersText rest))

end

/-! ### What is read -/

/-- The text of a string; a surrogate without the other half is none. -/
def text? (letters : List Letter) : Option String :=
  (spelled? letters).map String.ofList

def Single.Stands : Single → Node → Prop
  | .null, .null _ => True
  | .bool b, .bool _ value => value = b
  | .number n, .number _ value => n.Counts value
  | .string letters, .string _ value => value.toOption = text? letters
  | _, _ => False

mutual

/-- The node says what is written, wherever it stands in the text. -/
def Stands : Written → Node → Prop
  | .single _ value, node => value.Stands node
  | .list _ _ items, .array _ nodes none => StandItems items nodes
  | .object _ _ members, .object _ nodes none => StandMembers members nodes
  | _, _ => False

def StandItems : List Written → List Node → Prop
  | [], [] => True
  | w :: items, node :: nodes => Stands w node ∧ StandItems items nodes
  | _, _ => False

def StandMembers : List (Label × Written) → List (Key × Node) → Prop
  | [], [] => True
  | (label, w) :: members, (key, node) :: nodes =>
    (key.text.toOption = text? label.letters ∧ Stands w node) ∧ StandMembers members nodes
  | _, _ => False

end

/-! ### Token by token -/

/-- Where the tokens of a text lead. -/
def run (progress : Progress) (offset : Nat) (cs : List Char) : Progress :=
  (tokens offset cs).foldl Progress.take progress

theorem run_gap (progress : Progress) (offset : Nat) (gap : Gap) (rest : List Char) :
    run progress offset (gap.1 ++ rest) = run progress (offset + gap.1.length) rest := by
  rw [run, tokens_gap, run]

theorem run_token {offset : Nat} {c : Char} {cs rest : List Char} {kind : TokenKind} {stop : Nat}
    (visible : isGap c = false) (scanned : scanToken offset c cs = (kind, stop, rest)) (progress : Progress) :
    run progress offset (c :: cs) = run (progress.take ⟨⟨offset, stop⟩, kind⟩) stop rest := by
  rw [run, tokens, if_neg (by simp [visible])]
  split
  rename_i scanned'
  rw [scanned] at scanned'
  obtain ⟨rfl, same⟩ := Prod.mk.inj scanned'
  obtain ⟨rfl, rfl⟩ := Prod.mk.inj same
  rfl

theorem isGap_cases {c : Char} (gap : isGap c = true) : c = ' ' ∨ c = '\n' ∨ c = '\t' ∨ c = '\r' := by
  simpa [isGap, or_assoc] using gap

theorem Ends.gap {rest : List Char} (ends : Ends rest) (gap : Gap) : Ends (gap.1 ++ rest) := by
  intro c first
  obtain ⟨gap, all⟩ := gap
  cases gap with
  | nil => exact ends c first
  | cons d gap =>
    obtain rfl : d = c := by simpa using first
    rcases isGap_cases (all d List.mem_cons_self) with rfl | rfl | rfl | rfl <;> decide

/-- What the progress makes of the first token of a value. -/
def Awaits (progress : Progress) (outer : List Enclosing) : Prop :=
  ∀ token, token.kind ≠ .closeList → progress.take token = takeValue false outer token

theorem awaits_value (afterComma : Bool) (outer : List Enclosing) :
    Awaits (.value afterComma outer) outer := by
  rintro ⟨span, kind⟩ other
  cases kind <;> first | rfl | exact absurd rfl other

theorem awaits_listStart (start : Nat) (outer : List Enclosing) :
    Awaits (.listStart start outer) (.list start [] :: outer) := by
  rintro ⟨span, kind⟩ other
  cases kind <;> first | rfl | exact absurd rfl other

theorem run_string (letters : List Letter) (progress : Progress) (offset : Nat) (rest : List Char) :
    ∃ stop value, value.toOption = text? letters ∧
      run progress offset (stringText letters ++ rest) =
        run (progress.take ⟨⟨offset, stop⟩, .string value⟩) stop rest := by
  have text : stringText letters ++ rest = '"' :: (lettersText letters ++ '"' :: rest) := by
    simp [stringText]
  obtain ⟨stop, passed⟩ := skipString_letters letters (offset + 1) rest
  have value := readString_letters letters (offset + 1) rest
  have scanned : scanToken offset '"' (lettersText letters ++ '"' :: rest) =
      (.string ((readString (offset + 1) (lettersText letters ++ '"' :: rest)).map String.ofList), stop,
        rest) := by
    simp only [scanToken, passed]
  rw [text]
  refine ⟨stop, _, ?_, run_token (by decide) scanned progress⟩
  exact (toOption_map _ _).trans (congrArg _ value)

theorem scanToken_digit {c : Char} (digit : isDigit c = true) (offset : Nat) (cs : List Char)
    {scan : NumberScan} (read : scanNumber false offset (c :: cs) = .ok scan) :
    scanToken offset c cs = (.number scan.value, scan.stop, scan.rest) := by
  unfold scanToken
  split
  all_goals first
    | exact absurd digit (by decide)
    | simp only [if_pos digit, read]

theorem run_number (n : Numeral) (progress : Progress) (offset : Nat) {rest : List Char}
    (ends : Ends rest) :
    ∃ stop value, n.Counts value ∧
      run progress offset (n.text ++ rest) =
        run (progress.take ⟨⟨offset, stop⟩, .number value⟩) stop rest := by
  cases sign : n.negative with
  | true =>
    obtain ⟨scan, read, rfl, counts⟩ := scanNumber_unsigned n (offset + 1) ends
    rw [sign] at read
    have scanned : scanToken offset '-' (n.unsigned ++ scan.rest) =
        (.number scan.value, scan.stop, scan.rest) := by
      simp only [scanToken, read]
    have text : n.text ++ scan.rest = '-' :: (n.unsigned ++ scan.rest) := by
      simp [Numeral.text, sign]
    rw [text]
    exact ⟨scan.stop, scan.value, counts, run_token (by decide) scanned progress⟩
  | false =>
    obtain ⟨scan, read, rfl, counts⟩ := scanNumber_unsigned n offset ends
    obtain ⟨first, others, split⟩ := List.exists_cons_of_ne_nil n.whole.1.2.1
    have digit := n.whole.1.2.2 first (by rw [split]; exact List.mem_cons_self)
    have text : n.unsigned ++ scan.rest =
        first :: (others ++ (n.fractionText ++ n.exponentText) ++ scan.rest) := by
      simp [Numeral.unsigned, split]
    have noGap : isGap first = false := by
      rw [Bool.eq_false_iff]
      intro gap
      rcases isGap_cases gap with rfl | rfl | rfl | rfl <;> exact absurd digit (by decide)
    rw [sign, text] at read
    have unsigned : n.text = n.unsigned := by simp [Numeral.text, sign]
    rw [unsigned, text]
    exact ⟨scan.stop, scan.value, counts, run_token noGap (scanToken_digit digit offset _ read) progress⟩

/-- A single value goes to what encloses it. -/
theorem run_single (value : Single) {progress : Progress} {outer : List Enclosing}
    (awaits : Awaits progress outer) (offset : Nat) {rest : List Char} (ends : Ends rest) :
    ∃ node stop, value.Stands node ∧
      run progress offset (value.text ++ rest) = run (place node outer) stop rest := by
  cases value with
  | null =>
    have scanned : scanToken offset 'n' ('u' :: 'l' :: 'l' :: rest) = (.null, offset + 4, rest) := rfl
    refine ⟨.null ⟨offset, offset + 4⟩, offset + 4, trivial, ?_⟩
    exact (run_token (by decide) scanned progress).trans (congrArg (run · _ _) (awaits _ nofun))
  | bool b =>
    cases b with
    | true =>
      have scanned : scanToken offset 't' ('r' :: 'u' :: 'e' :: rest) = (.bool true, offset + 4, rest) := rfl
      refine ⟨.bool ⟨offset, offset + 4⟩ true, offset + 4, rfl, ?_⟩
      exact (run_token (by decide) scanned progress).trans (congrArg (run · _ _) (awaits _ nofun))
    | false =>
      have scanned : scanToken offset 'f' ('a' :: 'l' :: 's' :: 'e' :: rest) =
          (.bool false, offset + 5, rest) := rfl
      refine ⟨.bool ⟨offset, offset + 5⟩ false, offset + 5, rfl, ?_⟩
      exact (run_token (by decide) scanned progress).trans (congrArg (run · _ _) (awaits _ nofun))
  | number n =>
    obtain ⟨stop, value, counts, read⟩ := run_number n progress offset ends
    exact ⟨.number ⟨offset, stop⟩ value, stop, counts, read.trans (congrArg (run · _ _) (awaits _ nofun))⟩
  | string letters =>
    obtain ⟨stop, value, stands, read⟩ := run_string letters progress offset rest
    exact ⟨.string ⟨offset, stop⟩ value, stop, stands, read.trans (congrArg (run · _ _) (awaits _ nofun))⟩

theorem run_mark (c : Char) (kind : TokenKind) (visible : isGap c = false)
    (scanned : ∀ offset cs, scanToken offset c cs = (kind, offset + 1, cs)) (progress : Progress)
    (offset : Nat) (rest : List Char) :
    run progress offset (c :: rest) =
      run (progress.take ⟨⟨offset, offset + 1⟩, kind⟩) (offset + 1) rest :=
  run_token visible (scanned offset rest) progress

theorem ends_mark {c : Char} (mark : inNumeral c = false) (rest : List Char) : Ends (c :: rest) := by
  simpa [Ends] using mark

/-- A key with its colon. -/
theorem run_label (label : Label) (afterComma : Bool) (start : Nat) (members : List (Key × Node))
    (outer : List Enclosing) (offset : Nat) (rest : List Char) :
    ∃ (key : Key) (stop : Nat), key.text.toOption = text? label.letters ∧
      run (.key afterComma start members outer) offset (label.text ++ ':' :: rest) =
        run (.value false (.object start members key :: outer)) stop rest := by
  obtain ⟨around, letters⟩ := label
  obtain ⟨stop, value, stands, read⟩ := run_string letters (.key afterComma start members outer)
    (offset + around.before.1.length) (around.behind.1 ++ ':' :: rest)
  refine ⟨⟨value, stop, stop + around.behind.1.length⟩, stop + around.behind.1.length + 1, stands, ?_⟩
  rw [Label.text, List.append_assoc, List.append_assoc, run_gap, read]
  show run (.colon start members value stop outer) stop (around.behind.1 ++ ':' :: rest) = _
  rw [run_gap, run_mark ':' .colon (by decide) fun _ _ => rfl]
  rfl

theorem ends_items (items : List Written) {rest : List Char} (ends : Ends rest) :
    Ends (Written.itemsText items ++ rest) := by
  cases items with
  | nil => exact ends
  | cons w items => exact ends_mark (by decide) _

theorem ends_members (members : List (Label × Written)) {rest : List Char} (ends : Ends rest) :
    Ends (Written.membersText members ++ rest) := by
  cases members with
  | nil => exact ends
  | cons member members => exact ends_mark (by decide) _

theorem run_openList {progress : Progress} {outer : List Enclosing} (awaits : Awaits progress outer)
    (before inner : Gap) (offset : Nat) (rest : List Char) :
    ∃ start stop, run progress offset (before.1 ++ '[' :: (inner.1 ++ rest)) =
      run (.listStart start outer) stop rest := by
  refine ⟨offset + before.1.length, offset + before.1.length + 1 + inner.1.length, ?_⟩
  rw [run_gap, run_mark '[' .openList (by decide) fun _ _ => rfl,
    awaits ⟨_, .openList⟩ nofun]
  show run (.listStart _ outer) _ (inner.1 ++ rest) = _
  rw [run_gap]

theorem run_openObject {progress : Progress} {outer : List Enclosing} (awaits : Awaits progress outer)
    (before inner : Gap) (offset : Nat) (rest : List Char) :
    ∃ start stop, run progress offset (before.1 ++ '\x7b' :: (inner.1 ++ rest)) =
      run (.key false start [] outer) stop rest := by
  refine ⟨offset + before.1.length, offset + before.1.length + 1 + inner.1.length, ?_⟩
  rw [run_gap, run_mark '\x7b' .openObject (by decide) fun _ _ => rfl,
    awaits ⟨_, .openObject⟩ nofun]
  show run (.key false _ [] outer) _ (inner.1 ++ rest) = _
  rw [run_gap]

/-- A token closes the container that is read, which goes to what encloses it. -/
def Closes (progress : Progress) (kind : TokenKind) (node : Span → Node) (outer : List Enclosing) : Prop :=
  ∀ span, ∃ span', progress.take ⟨span, kind⟩ = place (node span') outer

theorem closes_listStart (start : Nat) (outer : List Enclosing) :
    Closes (.listStart start outer) .closeList (.array · [] none) outer :=
  fun _ => ⟨_, rfl⟩

theorem closes_listMore (start : Nat) (items : List Node) (outer : List Enclosing) :
    Closes (.listMore start items outer) .closeList (.array · items.reverse none) outer :=
  fun _ => ⟨_, rfl⟩

theorem closes_key (start : Nat) (outer : List Enclosing) :
    Closes (.key false start [] outer) .closeObject (.object · [] none) outer :=
  fun _ => ⟨_, rfl⟩

theorem closes_objectMore (start : Nat) (members : List (Key × Node)) (outer : List Enclosing) :
    Closes (.objectMore start members outer) .closeObject (.object · members.reverse none) outer :=
  fun _ => ⟨_, rfl⟩

/-- A closing bracket, with the gap behind it. -/
theorem run_close (c : Char) (kind : TokenKind) (visible : isGap c = false)
    (scanned : ∀ offset cs, scanToken offset c cs = (kind, offset + 1, cs)) {progress : Progress}
    {outer : List Enclosing} (node : Span → Node)
    (closes : Closes progress kind node outer)
    (behind : Gap) (offset : Nat) (rest : List Char) :
    ∃ span stop, run progress offset (c :: (behind.1 ++ rest)) = run (place (node span) outer) stop rest := by
  obtain ⟨span, closed⟩ := closes ⟨offset, offset + 1⟩
  refine ⟨span, offset + 1 + behind.1.length, ?_⟩
  rw [run_mark c kind visible scanned, closed, run_gap]

mutual

/-- A value goes to what encloses it. -/
theorem run_written : ∀ (w : Written) {progress : Progress} {outer : List Enclosing}
    (_ : Awaits progress outer) (offset : Nat) {rest : List Char} (_ : Ends rest),
    ∃ node stop, Stands w node ∧ run progress offset (w.text ++ rest) = run (place node outer) stop rest
  | .single around value, progress, outer, awaits, offset, rest, ends => by
    obtain ⟨node, stop, stands, read⟩ :=
      run_single value awaits (offset + around.before.1.length) (ends.gap around.behind)
    refine ⟨node, stop + around.behind.1.length, stands, ?_⟩
    rw [Written.text, List.append_assoc, List.append_assoc, run_gap, read, run_gap]
  | .list around inner [], progress, outer, awaits, offset, rest, ends => by
    obtain ⟨start, begun, opened⟩ :=
      run_openList awaits around.before inner offset (']' :: (around.behind.1 ++ rest))
    obtain ⟨span, stop, closed⟩ := run_close ']' .closeList (by decide) (fun _ _ => rfl)
      _ (closes_listStart start outer) around.behind begun rest
    refine ⟨.array span [] none, stop, trivial, ?_⟩
    simp only [Written.text, Written.itemsText, List.tail_nil, List.append_assoc, List.cons_append,
      List.nil_append]
    exact opened.trans closed
  | .list around inner (w :: items), progress, outer, awaits, offset, rest, ends => by
    have ends' := ends_items items (ends_mark (c := ']') (by decide) (around.behind.1 ++ rest))
    obtain ⟨start, begun, opened⟩ := run_openList awaits around.before inner offset
      (w.text ++ (Written.itemsText items ++ ']' :: (around.behind.1 ++ rest)))
    obtain ⟨node, stop, stands, first⟩ := run_written w (awaits_listStart start outer) begun ends'
    obtain ⟨nodes, stop', stand, others⟩ := run_items items start [node] outer stop
      (ends_mark (c := ']') (by decide) (around.behind.1 ++ rest))
    obtain ⟨span, stop'', closed⟩ := run_close ']' .closeList (by decide) (fun _ _ => rfl) _
      (closes_listMore start (nodes.reverse ++ [node]) outer) around.behind stop' rest
    refine ⟨.array span (node :: nodes) none, stop'', ⟨stands, stand⟩, ?_⟩
    simp only [Written.text, Written.itemsText, List.tail_cons, List.append_assoc, List.cons_append]
    refine (opened.trans (first.trans (others.trans closed))).trans ?_
    simp
  | .object around inner [], progress, outer, awaits, offset, rest, ends => by
    obtain ⟨start, begun, opened⟩ :=
      run_openObject awaits around.before inner offset ('\x7d' :: (around.behind.1 ++ rest))
    obtain ⟨span, stop, closed⟩ := run_close '\x7d' .closeObject (by decide) (fun _ _ => rfl) _
      (closes_key start outer) around.behind begun rest
    refine ⟨.object span [] none, stop, trivial, ?_⟩
    simp only [Written.text, Written.membersText, List.tail_nil, List.append_assoc, List.cons_append,
      List.nil_append]
    exact opened.trans closed
  | .object around inner ((label, w) :: members), progress, outer, awaits, offset, rest, ends => by
    have ends' := ends_members members (ends_mark (c := '\x7d') (by decide) (around.behind.1 ++ rest))
    obtain ⟨start, begun, opened⟩ := run_openObject awaits around.before inner offset
      (label.text ++ ':' :: (w.text ++ (Written.membersText members ++ '\x7d' :: (around.behind.1 ++ rest))))
    obtain ⟨key, named, keyed, labelled⟩ := run_label label false start [] outer begun
      (w.text ++ (Written.membersText members ++ '\x7d' :: (around.behind.1 ++ rest)))
    obtain ⟨node, stop, stands, first⟩ := run_written w (awaits_value false _) named ends'
    obtain ⟨nodes, stop', stand, others⟩ := run_members members start [(key, node)] outer stop
      (ends_mark (c := '\x7d') (by decide) (around.behind.1 ++ rest))
    obtain ⟨span, stop'', closed⟩ := run_close '\x7d' .closeObject (by decide) (fun _ _ => rfl) _
      (closes_objectMore start (nodes.reverse ++ [(key, node)]) outer) around.behind stop' rest
    refine ⟨.object span ((key, node) :: nodes) none, stop'', ⟨⟨keyed, stands⟩, stand⟩, ?_⟩
    simp only [Written.text, Written.membersText, List.tail_cons, List.append_assoc, List.cons_append]
    refine (opened.trans (labelled.trans (first.trans (others.trans closed)))).trans ?_
    simp

theorem run_items : ∀ (items : List Written) (start : Nat) (before : List Node) (outer : List Enclosing)
    (offset : Nat) {rest : List Char} (_ : Ends rest),
    ∃ nodes stop, StandItems items nodes ∧
      run (.listMore start before outer) offset (Written.itemsText items ++ rest) =
        run (.listMore start (nodes.reverse ++ before) outer) stop rest
  | [], start, before, outer, offset, rest, ends => ⟨[], offset, trivial, rfl⟩
  | w :: items, start, before, outer, offset, rest, ends => by
    obtain ⟨node, stop, stands, first⟩ := run_written w (awaits_value true (.list start before :: outer))
      (offset + 1) (ends_items items ends)
    obtain ⟨nodes, stop', stand, others⟩ := run_items items start (node :: before) outer stop ends
    refine ⟨node :: nodes, stop', ⟨stands, stand⟩, ?_⟩
    rw [Written.itemsText, List.cons_append, List.append_assoc, run_mark ',' .comma (by decide) fun _ _ => rfl]
    refine (first.trans others).trans ?_
    simp

theorem run_members : ∀ (members : List (Label × Written)) (start : Nat) (before : List (Key × Node))
    (outer : List Enclosing) (offset : Nat) {rest : List Char} (_ : Ends rest),
    ∃ nodes stop, StandMembers members nodes ∧
      run (.objectMore start before outer) offset (Written.membersText members ++ rest) =
        run (.objectMore start (nodes.reverse ++ before) outer) stop rest
  | [], start, before, outer, offset, rest, ends => ⟨[], offset, trivial, rfl⟩
  | (label, w) :: members, start, before, outer, offset, rest, ends => by
    obtain ⟨key, named, keyed, labelled⟩ := run_label label true start before outer (offset + 1)
      (w.text ++ (Written.membersText members ++ rest))
    obtain ⟨node, stop, stands, first⟩ := run_written w (awaits_value false _) named
      (ends_members members ends)
    obtain ⟨nodes, stop', stand, others⟩ := run_members members start ((key, node) :: before) outer stop ends
    refine ⟨(key, node) :: nodes, stop', ⟨⟨keyed, stands⟩, stand⟩, ?_⟩
    simp only [Written.membersText, List.cons_append, List.append_assoc]
    rw [run_mark ',' .comma (by decide) fun _ _ => rfl]
    refine (labelled.trans (first.trans others)).trans ?_
    simp

end

/-- The text of a document is one value with nothing behind it. -/
theorem ofText_written (w : Written) :
    ∃ node, Stands w node ∧ ofText (String.ofList w.text) = ⟨node, none⟩ := by
  have ends : Ends [] := nofun
  obtain ⟨node, stop, stands, read⟩ := run_written w (awaits_value false []) 0 ends
  refine ⟨node, stands, ?_⟩
  rw [List.append_nil] at read
  have tokens : (tokens 0 (String.ofList w.text).toList).foldl Progress.take (.value false []) =
      .done node none := by
    rw [String.toList_ofList]
    exact read.trans (by simp [run, Document.tokens, place])
  simp only [ofText, tokens]
  rfl

/-! ### At the ends -/

def noGap : Gap := ⟨[], by simp⟩

/-- A document without the gaps around it. -/
def Written.bare : Written → Written
  | .single _ value => .single ⟨noGap, noGap⟩ value
  | .list _ inner items => .list ⟨noGap, noGap⟩ inner items
  | .object _ inner members => .object ⟨noGap, noGap⟩ inner members

def Written.around : Written → Around
  | .single around _ | .list around _ _ | .object around _ _ => around

theorem Written.text_eq (w : Written) :
    w.text = w.around.before.1 ++ (w.bare.text ++ w.around.behind.1) := by
  cases w <;> simp [Written.text, bare, Written.around, noGap]

theorem isBlank_of_isGap {c : Char} (gap : isGap c = true) : Text.isBlank c = true := by
  rcases isGap_cases gap with rfl | rfl | rfl | rfl <;> decide

theorem visible_digit {c : Char} (digit : isDigit c = true) : Text.isBlank c = false := by
  have range : 48 ≤ c.toNat ∧ c.toNat ≤ 57 := by
    simpa [isDigit, Char.le_def, UInt32.le_iff_toNat_le] using digit
  simp only [Text.isBlank, Text.inRanges, Text.blankRanges, List.any_cons, List.any_nil]
  simp
  omega

theorem visible_mark {c : Char} (mark : isExponentMark c = true) : Text.isBlank c = false := by
  have letter : c = 'e' ∨ c = 'E' := by simpa [isExponentMark] using mark
  rcases letter with rfl | rfl <;> decide

/-- Text without white space. -/
def Visible (cs : List Char) : Prop :=
  ∀ c ∈ cs, Text.isBlank c = false

theorem visible_digits (digits : Digits) : Visible digits.1 :=
  fun c member => visible_digit (digits.2.2 c member)

theorem visible_numeral (n : Numeral) : Visible n.text := by
  intro c member
  simp only [Numeral.text, Numeral.unsigned, List.mem_append] at member
  rcases member with sign | whole | fraction | exponent
  · split at sign
    · obtain rfl := List.mem_singleton.mp sign
      decide
    · cases sign
  · exact visible_digits n.whole.1 c whole
  · cases given : n.fraction with
    | none => simp [Numeral.fractionText, given] at fraction
    | some digits =>
      simp only [Numeral.fractionText, given, Option.map_some, Option.getD_some, List.mem_cons] at fraction
      rcases fraction with rfl | fraction
      · decide
      · exact visible_digits digits c fraction
  · cases given : n.exponent with
    | none => simp [Numeral.exponentText, given] at exponent
    | some e =>
      simp only [Numeral.exponentText, given, Option.map_some, Option.getD_some, Exponent.text,
        List.mem_cons, List.mem_append] at exponent
      rcases exponent with rfl | sign | digits
      · exact visible_mark e.mark.2
      · obtain ⟨down, -, rfl⟩ := Option.map_eq_some_iff.mp (Option.mem_toList.mp sign)
        cases down <;> decide
      · exact visible_digits e.digits c digits

/-- A text that begins and ends with no white space. -/
def Flush (cs : List Char) : Prop :=
  (∃ c ∈ cs.head?, Text.isBlank c = false) ∧ ∃ c ∈ cs.getLast?, Text.isBlank c = false

theorem Visible.flush {cs : List Char} (visible : Visible cs) (nonempty : cs ≠ []) : Flush cs :=
  ⟨⟨cs.head nonempty, List.head_mem_head? nonempty, visible _ (List.head_mem nonempty)⟩,
    cs.getLast nonempty, List.getLast_mem_getLast? nonempty, visible _ (List.getLast_mem nonempty)⟩

theorem flush_of_ends (first last : Char) (begins : Text.isBlank first = false)
    (ends : Text.isBlank last = false) (cs : List Char) : Flush (first :: (cs ++ [last])) :=
  ⟨⟨first, rfl, begins⟩, last, List.getLast?_concat (l := first :: cs), ends⟩

theorem Single.flush (value : Single) : Flush value.text := by
  cases value with
  | null => exact ⟨⟨'n', rfl, by decide⟩, 'l', rfl, by decide⟩
  | bool b =>
    cases b with
    | true => exact ⟨⟨'t', rfl, by decide⟩, 'e', rfl, by decide⟩
    | false => exact ⟨⟨'f', rfl, by decide⟩, 'e', rfl, by decide⟩
  | number n =>
    refine (visible_numeral n).flush fun empty => ?_
    simp [Numeral.text, Numeral.unsigned, n.whole.1.2.1] at empty
  | string letters => exact flush_of_ends '"' '"' (by decide) (by decide) _

theorem Written.flush_bare (w : Written) : Flush w.bare.text := by
  cases w with
  | single around value => simpa [bare, Written.text, noGap] using value.flush
  | list around inner items =>
    have ends := flush_of_ends '[' ']' (by decide) (by decide)
      (inner.1 ++ (itemsText items).tail)
    simpa [bare, Written.text, noGap] using ends
  | object around inner members =>
    have ends := flush_of_ends '\x7b' '\x7d' (by decide) (by decide)
      (inner.1 ++ (membersText members).tail)
    simpa [bare, Written.text, noGap] using ends

/-- Trimming takes away what is blank around a document. -/
theorem trim_written (w : Written) {behind : List Char} (blank : ∀ c ∈ behind, Text.isBlank c = true)
    (before : List Char) :
    (Text.trim (String.ofList (before ++ (w.text ++ behind)))).toList =
      Text.dropBlanks (before ++ w.around.before.1) ++ w.bare.text := by
  have text : before ++ (w.text ++ behind) =
      (before ++ w.around.before.1) ++ (w.bare.text ++ (w.around.behind.1 ++ behind)) := by
    rw [w.text_eq]
    simp
  have empty : Text.dropBlanks (w.around.behind.1 ++ behind).reverse = [] := by
    refine List.dropWhile_eq_nil_iff.mpr fun c member => ?_
    rcases List.mem_append.mp (List.mem_reverse.mp member) with gap | behind
    · exact isBlank_of_isGap (w.around.behind.2 c gap)
    · exact blank c behind
  rw [text, Text.toList_trim_append _ _ w.flush_bare.1 w.flush_bare.2, empty]
  simp

end PolicyLint.Document
