import PolicyLint.Proofs.Document.Written
/-!
What a text must be to be read. Reading goes on token by token, each of which spells what it is taken for, and
from every place either the value that is due is read or the text breaks off there. Main statement: a text is
that of a document, or what is read of it breaks off, or something stands behind its value.
-/
namespace PolicyLint.Document

/-! ### Lexemes -/

theorem exists_code {offset value : Nat} {a b c d : Char} {rest : List Char}
    (read : readHex offset (a :: b :: c :: d :: rest) = .ok value) :
    ∃ u : Code, u.digits = [a, b, c, d] := by
  unfold readHex at read
  split at read
  · cases read
  split at read
  · rename_i four
    obtain ⟨ha, hb, hc, hd⟩ : hexValue? a = _ ∧ hexValue? b = _ ∧ hexValue? c = _ ∧ hexValue? d = _ := by
      simpa [Option.bind_eq_some_iff] using four
    exact ⟨⟨⟨a, by simp [ha]⟩, ⟨b, by simp [hb]⟩, ⟨c, by simp [hc]⟩, ⟨d, by simp [hd]⟩⟩, rfl⟩
  · cases read

theorem exists_letters {offset stop : Nat} {cs rest : List Char}
    (read : skipString offset cs = .ok (stop, rest)) :
    ∃ letters, cs = lettersText letters ++ '"' :: rest := by
  fun_induction skipString offset cs with
  | case1 | case3 | case4 | case6 | case8 | case9 => cases read
  | case2 offset text =>
    obtain ⟨-, rfl⟩ := Prod.mk.inj (Except.ok.inj read)
    exact ⟨[], rfl⟩
  | case5 offset value a b c d more hex ih =>
    obtain ⟨u, digits⟩ := exists_code hex
    obtain ⟨letters, rfl⟩ := ih read
    exact ⟨.code u :: letters, by simp [lettersText_cons, Letter.text, Code.escape, digits]⟩
  | case7 offset c more noCode known ih =>
    obtain ⟨letters, rfl⟩ := ih read
    exact ⟨.escape ⟨c, known⟩ :: letters, by simp [lettersText_cons, Letter.text]⟩
  | case10 offset c more noQuote noEnd noCode noEscape visible ih =>
    obtain ⟨letters, rfl⟩ := ih read
    have plain : c ≠ '\\' := by
      intro escape
      cases rest : lettersText letters with
      | nil => exact noEscape '"' _ escape (by rw [rest]; rfl)
      | cons d tail => exact noEscape d _ escape (by rw [rest]; rfl)
    exact ⟨.plain ⟨c, noQuote, plain, visible⟩ :: letters, by simp [lettersText_cons, Letter.text]⟩

/-- Digits as far as they go. -/
theorem exists_digits {cs : List Char} (digits : cs.takeWhile isDigit ≠ []) :
    ∃ ds : Digits, ds.1 = cs.takeWhile isDigit ∧ cs = ds.1 ++ cs.dropWhile isDigit :=
  ⟨⟨cs.takeWhile isDigit, digits, fun _ member => List.mem_takeWhile_imp member⟩, rfl,
    List.takeWhile_append_dropWhile.symm⟩

theorem exists_power {negative : Bool} {whole fraction : List Char} {down : Bool} {offset : Nat}
    {cs : List Char} {scan : NumberScan}
    (read : scanPower negative whole fraction down offset cs = .ok scan) :
    ∃ ds : Digits, cs = ds.1 ++ scan.rest := by
  unfold scanPower at read
  dsimp only at read
  split at read
  · cases read
  · rename_i digits
    obtain ⟨ds, -, text⟩ := exists_digits digits
    cases read
    exact ⟨ds, text⟩

theorem exists_exponent {negative : Bool} {whole fraction : List Char} {offset : Nat} {c : Char}
    (mark : isExponentMark c = true) {cs : List Char} {scan : NumberScan}
    (read : scanExponent negative whole fraction offset cs = .ok scan) :
    ∃ e : Exponent, c :: cs = e.text ++ scan.rest := by
  unfold scanExponent at read
  split at read
  · obtain ⟨ds, rfl⟩ := exists_power read
    exact ⟨⟨⟨c, mark⟩, some true, ds⟩, rfl⟩
  · obtain ⟨ds, rfl⟩ := exists_power read
    exact ⟨⟨⟨c, mark⟩, some false, ds⟩, rfl⟩
  · obtain ⟨ds, rfl⟩ := exists_power read
    exact ⟨⟨⟨c, mark⟩, none, ds⟩, rfl⟩

/-- The digits before the point: a zero alone, or all that there are. -/
theorem exists_whole {cs : List Char}
    (digits : (if cs.head? = some '0' then ['0'] else cs.takeWhile isDigit) ≠ []) :
    ∃ whole : { ds : Digits // ds.1.head? = some '0' → ds.1 = ['0'] },
      whole.1.1 = (if cs.head? = some '0' then ['0'] else cs.takeWhile isDigit) ∧
        cs = whole.1.1 ++ cs.drop whole.1.1.length := by
  split at digits
  · rename_i zero
    obtain ⟨rest, rfl⟩ := List.head?_eq_some_iff.mp zero
    exact ⟨⟨⟨['0'], by simp, List.forall_mem_singleton.mpr rfl⟩, fun _ => rfl⟩, by simp, rfl⟩
  · rename_i other
    obtain ⟨ds, same, text⟩ := exists_digits digits
    refine ⟨⟨ds, fun zero => absurd ?_ other⟩, by simpa [other] using same, ?_⟩
    · rw [text, List.head?_append_of_ne_nil _ ds.2.1, zero]
    · nth_rewrite 1 [text]
      rw [show cs.drop ds.1.length = cs.dropWhile isDigit by
        rw [text, List.drop_left, ← text]]

theorem exists_numeral {negative : Bool} {offset : Nat} {cs : List Char} {scan : NumberScan}
    (read : scanNumber negative offset cs = .ok scan) :
    ∃ n : Numeral, n.negative = negative ∧ cs = n.unsigned ++ scan.rest := by
  unfold scanNumber at read
  generalize taken : (if cs.head? = some '0' then ['0'] else cs.takeWhile isDigit) = digits at read
  dsimp only at read
  split at read
  · cases read
  rename_i other
  obtain ⟨whole, same, text⟩ := exists_whole (by rwa [taken])
  obtain rfl : whole.1.1 = digits := same.trans taken
  have made (fraction : Option Digits) (exponent : Option Exponent) (rest : List Char)
      (tail : cs.drop whole.1.1.length = (Numeral.mk negative whole fraction exponent).fractionText ++
        ((Numeral.mk negative whole fraction exponent).exponentText ++ rest)) :
      ∃ n : Numeral, n.negative = negative ∧ cs = n.unsigned ++ rest := by
    refine ⟨⟨negative, whole, fraction, exponent⟩, rfl, ?_⟩
    rw [text, tail]
    simp [Numeral.unsigned]
  split at read
  · rename_i tail point
    split at read
    · split at read <;> cases read
    rename_i places
    obtain ⟨fraction, -, behind⟩ := exists_digits places
    split at read
    · rename_i c after
      split at read
      · rename_i mark
        obtain ⟨e, exponent⟩ := exists_exponent mark read
        rw [after, exponent] at behind
        exact made (some fraction) (some e) _ (point.trans (congrArg (List.cons '.') behind))
      · cases read
        exact made (some fraction) none _ (point.trans (congrArg (List.cons '.') behind))
    · rename_i after
      cases read
      rw [after] at behind
      exact made (some fraction) none _ (point.trans (congrArg (List.cons '.') behind))
  · rename_i c tail _ point
    split at read
    · rename_i mark
      obtain ⟨e, exponent⟩ := exists_exponent mark read
      exact made none (some e) _ (point.trans exponent)
    · split at read
      · cases read
      · cases read
        exact made none none _ rfl
  · rename_i point
    cases read
    exact made none none _ point

/-! ### Tokens -/

/-- What a token is made of. A token that is torn, or that no document has, may be made of anything. -/
def TokenKind.Spells : TokenKind → List Char → Prop
  | .openList, cs => cs = ['[']
  | .closeList, cs => cs = [']']
  | .openObject, cs => cs = ['\x7b']
  | .closeObject, cs => cs = ['\x7d']
  | .comma, cs => cs = [',']
  | .colon, cs => cs = [':']
  | .null, cs => cs = Single.null.text
  | .bool b, cs => cs = (Single.bool b).text
  | .number _, cs => ∃ n : Numeral, cs = n.text
  | .string _, cs => ∃ letters, cs = stringText letters
  | .torn .., _ | .stray, _ => True

theorem exists_word {offset stop : Nat} {word cs rest : List Char}
    (read : scanWord offset word cs = .ok (stop, rest)) : cs = word ++ rest := by
  fun_induction scanWord offset word cs with
  | case1 =>
    obtain ⟨-, rfl⟩ := Prod.mk.inj (Except.ok.inj read)
    rfl
  | case2 | case4 => cases read
  | case3 offset word c cs ih => rw [ih read, List.cons_append]

/-- The text begins with what the token is made of, and goes on with what is left. -/
def Scanned (cs : List Char) (scan : TokenKind × Nat × List Char) : Prop :=
  ∃ lexeme, cs = lexeme ++ scan.2.2 ∧ scan.1.Spells lexeme

theorem scanned_torn (cs : List Char) (offset : Nat) (quoted : Bool) (kept skipped : Fault) :
    Scanned cs (.torn quoted kept skipped, offset, []) :=
  ⟨cs, (List.append_nil cs).symm, trivial⟩

/-- A token that is no torn one takes its text, and where one is torn nothing is left. -/
theorem scanToken_scanned (offset : Nat) (c : Char) (cs : List Char) :
    Scanned (c :: cs) (scanToken offset c cs) := by
  have mark (kind : TokenKind) (spells : kind.Spells [c]) : Scanned (c :: cs) (kind, offset + 1, cs) :=
    ⟨[c], rfl, spells⟩
  have word {letters rest : List Char} {stop : Nat} {kind : TokenKind} (spells : kind.Spells (c :: letters))
      (read : scanWord (offset + 1) letters cs = .ok (stop, rest)) : Scanned (c :: cs) (kind, stop, rest) :=
    ⟨c :: letters, congrArg (List.cons c) (exists_word read), spells⟩
  have number {negative : Bool} {start : Nat} {digits : List Char} {scan : NumberScan}
      (text : c :: cs = (if negative then ['-'] else []) ++ digits)
      (read : scanNumber negative start digits = .ok scan) :
      Scanned (c :: cs) (.number scan.value, scan.stop, scan.rest) := by
    obtain ⟨n, rfl, unsigned⟩ := exists_numeral read
    exact ⟨n.text, by rw [text, unsigned, Numeral.text, List.append_assoc], n, rfl⟩
  unfold scanToken
  dsimp only
  split
  · exact mark _ rfl
  · exact mark _ rfl
  · exact mark _ rfl
  · exact mark _ rfl
  · exact mark _ rfl
  · exact mark _ rfl
  · split
    · exact word rfl ‹_›
    · exact scanned_torn _ _ _ _ _
  · split
    · exact word rfl ‹_›
    · exact scanned_torn _ _ _ _ _
  · split
    · exact word rfl ‹_›
    · exact scanned_torn _ _ _ _ _
  · split
    · rename_i read
      obtain ⟨letters, rfl⟩ := exists_letters read
      exact ⟨stringText letters, by simp [stringText], letters, rfl⟩
    · split <;> exact scanned_torn _ _ _ _ _
  · split
    · exact number rfl ‹_›
    · exact scanned_torn _ _ _ _ _
  · split
    · split
      · exact number rfl ‹_›
      · exact scanned_torn _ _ _ _ _
    · exact ⟨[c], rfl, trivial⟩

/-! ### What breaks off -/

/-- A value of a JSON text: no bare word, and under no tag. -/
def Node.Solid : Node → Prop
  | .scalar _ | .tagged _ => False
  | _ => True

/-- A value that breaks off, or that holds one in its last place. -/
inductive Broken : Node → Prop
  | broken (start : Option Nat) (cut : Break) : Broken (.broken start cut)
  | list {items : List Node} (span : Span) (cut : Break) : (∀ node ∈ items, node.Solid) →
      Broken (.array span items (some cut))
  | object (span : Span) (members : List (Key × Node)) (cut : Break) : Broken (.object span members (some cut))
  | item {items : List Node} {node : Node} (span : Span) : (∀ node ∈ items, node.Solid) → Broken node →
      Broken (.array span (items ++ [node]) none)
  | member {node : Node} (span : Span) (members : List (Key × Node)) (key : Key) : Broken node →
      Broken (.object span (members ++ [(key, node)]) none)

def Enclosing.Solid : Enclosing → Prop
  | .list _ items => ∀ node ∈ items, node.Solid
  | .object .. => True

/-- The text breaks off, whatever its length. -/
def Progress.Breaks (progress : Progress) : Prop :=
  ∀ size, Broken (progress.contents size).root

theorem contents_root {progress : Progress} {size : Nat} {root : Node} {trailing : Option Fault}
    (finished : progress.finish size = .done root trailing) : (progress.contents size).root = root := by
  unfold Progress.contents
  split
  · rename_i finished'
    obtain ⟨rfl, -⟩ := Progress.done.inj (finished.symm.trans finished')
    rfl
  all_goals
    rename_i finished'
    cases finished.symm.trans finished'

/-- Nothing follows what is wrong behind the root. -/
theorem run_failed (root : Node) (fault : Fault) (offset : Nat) (cs : List Char) :
    run (.done root (some fault)) offset cs = .done root (some fault) := by
  unfold run
  induction tokens offset cs with
  | nil => rfl
  | cons token tokens ih => exact ih

theorem run_done (root : Node) (offset : Nat) (cs : List Char) :
    ∃ trailing, run (.done root none) offset cs = .done root trailing := by
  unfold run
  cases tokens offset cs with
  | nil => exact ⟨none, rfl⟩
  | cons token tokens =>
    refine ⟨some ⟨.trailingCharacters, token.span.start + 1⟩, ?_⟩
    rw [List.foldl_cons]
    induction tokens with
    | nil => rfl
    | cons token tokens ih => exact ih

theorem abandon_torn {node : Node} (torn : Broken node) {outer : List Enclosing}
    (solid : ∀ e ∈ outer, e.Solid) : ∃ root, abandon node outer = .done root none ∧ Broken root := by
  induction outer generalizing node with
  | nil => exact ⟨node, rfl, torn⟩
  | cons e outer ih =>
    obtain ⟨here, others⟩ := List.forall_mem_cons.mp solid
    cases e with
    | list start items =>
      refine ih ?_ others
      rw [List.reverse_cons]
      exact .item _ (fun node member => here node (List.mem_reverse.mp member)) torn
    | object start members key =>
      refine ih ?_ others
      rw [List.reverse_cons]
      exact .member _ _ _ torn

/-- Where reading is abandoned, nothing behind helps. -/
theorem abandon_breaks {outer : List Enclosing} (solid : ∀ e ∈ outer, e.Solid) {node : Node}
    (broken : Broken node) (offset : Nat) (cs : List Char) :
    (run (abandon node outer) offset cs).Breaks := by
  intro size
  obtain ⟨root, abandoned, torn⟩ := abandon_torn broken solid
  obtain ⟨trailing, ran⟩ := run_done root offset cs
  have whole : ((Progress.done root trailing).contents size).root = root := contents_root rfl
  rw [abandoned, ran, whole]
  exact torn

/-- Nor does it help that the text ends where something is due. -/
theorem finish_breaks {progress : Progress} {outer : Nat → List Enclosing} {node : Nat → Node}
    (solid : ∀ size, ∀ e ∈ outer size, e.Solid) (broken : ∀ size, Broken (node size))
    (finished : ∀ size, progress.finish size = abandon (node size) (outer size)) : progress.Breaks := by
  intro size
  obtain ⟨root, abandoned, torn⟩ := abandon_torn (broken size) (solid size)
  rw [contents_root ((finished size).trans abandoned)]
  exact torn

/-! ### Token by token -/

/-- No gap comes first. -/
def Ready (cs : List Char) : Prop :=
  ∀ c ∈ cs.head?, isGap c = false

theorem exists_gap (cs : List Char) : ∃ (gap : Gap) (rest : List Char), cs = gap.1 ++ rest ∧ Ready rest := by
  refine ⟨⟨cs.takeWhile isGap, fun _ member => List.mem_takeWhile_imp member⟩, cs.dropWhile isGap,
    List.takeWhile_append_dropWhile.symm, Text.stop_dropWhile isGap cs⟩

/-- A token with the gap behind it, and what every progress makes of it. -/
theorem exists_step (offset : Nat) {cs : List Char} (ready : Ready cs) (nonempty : cs ≠ []) :
    ∃ kind lexeme, ∃ gap : Gap, ∃ rest span stop, cs = lexeme ++ (gap.1 ++ rest) ∧ kind.Spells lexeme ∧
      Ready rest ∧ rest.length < cs.length ∧
      ∀ progress, run progress offset cs = run (Progress.take progress ⟨span, kind⟩) stop rest := by
  obtain ⟨c, cs, rfl⟩ := List.exists_cons_of_ne_nil nonempty
  have visible : isGap c = false := ready c rfl
  obtain ⟨lexeme, text, spells⟩ := scanToken_scanned offset c cs
  have shorter := scanToken_shorter offset c cs
  rcases scanned : scanToken offset c cs with ⟨kind, stop, left⟩
  rw [scanned] at text spells shorter
  obtain ⟨gap, rest, rfl, ready⟩ := exists_gap left
  refine ⟨kind, lexeme, gap, rest, ⟨offset, stop⟩, stop + gap.1.length, text, spells, ready, ?_, ?_⟩
  · simp only [List.length_append, List.length_cons] at shorter ⊢
    omega
  · intro progress
    rw [run_token visible scanned, run_gap]

theorem run_nil (progress : Progress) (offset : Nat) : run progress offset [] = progress := by
  simp [run, tokens]

/-- From here reading goes on behind what is spelled, with a value for what is open, or the text breaks
off. -/
def Goes (progress : Progress) (offset : Nat) (cs : List Char) (outer : List Enclosing)
    (Spelled : List Char → Prop) : Prop :=
  (∃ rest node stop, Spelled rest ∧ Ready rest ∧ rest.length < cs.length ∧ node.Solid ∧
      run progress offset cs = run (place node outer) stop rest) ∨
    (run progress offset cs).Breaks

/-- What goes on behind a step goes on before it. -/
theorem Goes.behind {progress progress' : Progress} {offset stop : Nat} {cs rest : List Char}
    {outer : List Enclosing} {Spelled Spelled' : List Char → Prop} (goes : Goes progress' stop rest outer Spelled)
    (shorter : rest.length < cs.length) (step : run progress offset cs = run progress' stop rest)
    (spelled : ∀ left, Spelled left → Spelled' left) : Goes progress offset cs outer Spelled' := by
  rw [Goes, step]
  rcases goes with ⟨left, node, stop', text, ready, less, solid, read⟩ | breaks
  · exact .inl ⟨left, node, stop', spelled left text, ready, less.trans shorter, solid, read⟩
  · exact .inr breaks

/-- A value is read from here, with any gap before it. -/
def ValueAt (cs : List Char) : Prop :=
  Ready cs → ∀ afterComma outer offset, (∀ e ∈ outer, e.Solid) →
    Goes (.value afterComma outer) offset cs outer fun rest =>
      ∀ before : Gap, ∃ w : Written, before.1 ++ cs = w.text ++ rest

/-- The rest of a list is read from here. -/
def ItemsAt (cs : List Char) : Prop :=
  Ready cs → ∀ start items outer offset, (∀ e ∈ Enclosing.list start items :: outer, e.Solid) →
    Goes (.listMore start items outer) offset cs outer fun rest => ∃ more, ∃ gap : Gap,
      cs = Written.itemsText more ++ ']' :: (gap.1 ++ rest)

/-- A member of an object is read from here, with any gap before it. -/
def MemberAt (cs : List Char) : Prop :=
  Ready cs → ∀ afterComma start members outer offset, (∀ e ∈ outer, e.Solid) →
    (afterComma = false → cs.head? ≠ some '\x7d') →
    (∃ rest key node stop, (∀ before : Gap, ∃ (label : Label) (w : Written),
        before.1 ++ cs = label.text ++ ':' :: (w.text ++ rest)) ∧ Ready rest ∧ rest.length < cs.length ∧
      run (.key afterComma start members outer) offset cs =
        run (.objectMore start ((key, node) :: members) outer) stop rest) ∨
    (run (.key afterComma start members outer) offset cs).Breaks

/-- The rest of an object is read from here. -/
def MembersAt (cs : List Char) : Prop :=
  Ready cs → ∀ start members outer offset, (∀ e ∈ outer, e.Solid) →
    Goes (.objectMore start members outer) offset cs outer fun rest => ∃ more, ∃ gap : Gap,
      cs = Written.membersText more ++ '\x7d' :: (gap.1 ++ rest)

theorem itemsAt {cs : List Char} (value : ∀ rest, rest.length < cs.length → ValueAt rest)
    (more : ∀ rest, rest.length < cs.length → ItemsAt rest) : ItemsAt cs := by
  intro ready start items outer offset solid
  obtain ⟨nodes, open'⟩ := List.forall_mem_cons.mp solid
  have cutItems (cut : Break) : Broken (.array ⟨start, start⟩ items.reverse (some cut)) :=
    .list _ _ fun node member => nodes node (List.mem_reverse.mp member)
  by_cases ended : cs = []
  · subst ended
    rw [Goes, run_nil]
    exact .inr (finish_breaks (fun _ => open') (fun _ => cutItems _) fun _ => rfl)
  obtain ⟨kind, lexeme, gap, rest, span, stop, rfl, spells, next, shorter, step⟩ :=
    exists_step offset ready ended
  have refused {cut : Break}
      (cuts : Progress.take (.listMore start items outer) ⟨span, kind⟩ = cutList start items outer cut) :
      (run (.listMore start items outer) offset (lexeme ++ (gap.1 ++ rest))).Breaks := by
    rw [step, cuts]
    exact abandon_breaks open' (cutItems cut) _ _
  cases kind with
  | comma =>
    obtain rfl : lexeme = [','] := spells
    rcases value rest shorter next true _ stop solid with
      ⟨rest', node, stop', text, ready', shorter', here, read⟩ | breaks
    · have solid' : ∀ e ∈ Enclosing.list start (node :: items) :: outer, e.Solid :=
        List.forall_mem_cons.mpr ⟨List.forall_mem_cons.mpr ⟨here, nodes⟩, open'⟩
      have less : rest'.length < _ := shorter'.trans shorter
      refine (more rest' less ready' start _ outer stop' solid').behind less ((step _).trans read) ?_
      rintro left ⟨ws, gap', rfl⟩
      obtain ⟨w, text⟩ := text gap
      exact ⟨w :: ws, gap', by simp [text, Written.itemsText]⟩
    · exact .inr (step _ ▸ breaks)
  | closeList =>
    obtain rfl : lexeme = [']'] := spells
    exact .inl ⟨rest, .array _ _ none, stop, ⟨[], gap, rfl⟩, next, shorter, trivial, step _⟩
  | _ => exact .inr (refused rfl)

/-- What follows a key: a colon and a value. -/
theorem colonAt {cs : List Char} (value : ∀ rest, rest.length < cs.length → ValueAt rest) (ready : Ready cs)
    (start : Nat) (members : List (Key × Node)) (name : Except Fault String) (ended : Nat)
    (outer : List Enclosing) (offset : Nat) (solid : ∀ e ∈ outer, e.Solid) :
    (∃ rest key node stop, (∃ w : Written, cs = ':' :: (w.text ++ rest)) ∧ Ready rest ∧
        rest.length < cs.length ∧ run (.colon start members name ended outer) offset cs =
          run (.objectMore start ((key, node) :: members) outer) stop rest) ∨
      (run (.colon start members name ended outer) offset cs).Breaks := by
  have solid' (key : Key) : ∀ e ∈ Enclosing.object start members key :: outer, e.Solid :=
    List.forall_mem_cons.mpr ⟨trivial, solid⟩
  by_cases empty : cs = []
  · subst empty
    rw [run_nil]
    exact .inr (finish_breaks (fun size => solid' ⟨name, ended, size⟩) (fun _ => .broken _ _) fun _ => rfl)
  obtain ⟨kind, lexeme, gap, rest, span, stop, rfl, spells, next, shorter, step⟩ :=
    exists_step offset ready empty
  rw [step]
  cases kind with
  | colon =>
    obtain rfl : lexeme = [':'] := spells
    rcases value rest shorter next false _ stop (solid' ⟨name, ended, span.start⟩) with
      ⟨rest', node, stop', text, ready', shorter', -, read⟩ | breaks
    · obtain ⟨w, text⟩ := text gap
      exact .inl ⟨rest', _, node, stop', ⟨w, by simp [text]⟩, ready', shorter'.trans shorter, read⟩
    · exact .inr breaks
  | closeObject => exact .inr (abandon_breaks (solid' _) (.broken _ _) _ _)
  | _ => exact .inr (abandon_breaks (solid' ⟨name, ended, span.start⟩) (.broken _ _) _ _)

theorem memberAt {cs : List Char} (value : ∀ rest, rest.length < cs.length → ValueAt rest) : MemberAt cs := by
  intro ready afterComma start members outer offset solid inside
  by_cases ended : cs = []
  · subst ended
    rw [run_nil]
    exact .inr (finish_breaks (fun _ => solid) (fun _ => .object _ _ _) fun _ => rfl)
  obtain ⟨kind, lexeme, gap, rest, span, stop, rfl, spells, next, shorter, step⟩ :=
    exists_step offset ready ended
  rw [step]
  have refused {cut : Break} (cuts : Progress.take (.key afterComma start members outer) ⟨span, kind⟩ =
      cutObject start members outer cut) :
      (run (Progress.take (.key afterComma start members outer) ⟨span, kind⟩) stop rest).Breaks := by
    rw [cuts]
    exact abandon_breaks solid (.object _ _ _) _ _
  cases kind with
  | string name =>
    obtain ⟨letters, rfl⟩ : ∃ letters, lexeme = stringText letters := spells
    have value' (more : List Char) (less : more.length < rest.length) := value more (less.trans shorter)
    rcases colonAt value' next start members name span.stop outer stop solid with
      ⟨rest', key, node, stop', text, ready', shorter', read⟩ | breaks
    · refine .inl ⟨rest', key, node, stop', fun before => ?_, ready', shorter'.trans shorter, read⟩
      obtain ⟨w, text⟩ := text
      refine ⟨⟨⟨before, gap⟩, letters⟩, w, ?_⟩
      simp [Label.text, text]
    · exact .inr breaks
  | closeObject =>
    obtain rfl : lexeme = ['\x7d'] := spells
    cases afterComma with
    | true => exact .inr (refused rfl)
    | false => exact absurd rfl (inside rfl)
  | torn quoted kept skipped => cases quoted <;> exact .inr (refused rfl)
  | _ => exact .inr (refused rfl)

theorem membersAt {cs : List Char} (member : ∀ rest, rest.length < cs.length → MemberAt rest)
    (more : ∀ rest, rest.length < cs.length → MembersAt rest) : MembersAt cs := by
  intro ready start members outer offset solid
  by_cases ended : cs = []
  · subst ended
    rw [Goes, run_nil]
    exact .inr (finish_breaks (fun _ => solid) (fun _ => .object _ _ _) fun _ => rfl)
  obtain ⟨kind, lexeme, gap, rest, span, stop, rfl, spells, next, shorter, step⟩ :=
    exists_step offset ready ended
  cases kind with
  | comma =>
    obtain rfl : lexeme = [','] := spells
    rcases member rest shorter next true start members outer stop solid (fun first => by cases first) with
      ⟨rest', key, node, stop', text, ready', shorter', read⟩ | breaks
    · have less : rest'.length < _ := shorter'.trans shorter
      refine (more rest' less ready' start ((key, node) :: members) outer stop' solid).behind less
        ((step _).trans read) ?_
      rintro left ⟨others, gap', rfl⟩
      obtain ⟨label, w, text⟩ := text gap
      exact ⟨(label, w) :: others, gap', by simp [text, Written.membersText]⟩
    · exact .inr (step _ ▸ breaks)
  | closeObject =>
    obtain rfl : lexeme = ['\x7d'] := spells
    exact .inl ⟨rest, .object _ _ none, stop, ⟨[], gap, rfl⟩, next, shorter, trivial, step _⟩
  | _ => exact .inr (step _ ▸ abandon_breaks solid (.object _ _ _) _ _)

/-- The rest of a list is read from behind its bracket, up to and with what closes it. -/
theorem listAt {cs : List Char} (value : ValueAt cs) (items : ∀ rest, rest.length < cs.length → ItemsAt rest)
    (ready : Ready cs) (start : Nat) (outer : List Enclosing) (offset : Nat) (solid : ∀ e ∈ outer, e.Solid) :
    Goes (.listStart start outer) offset cs outer fun rest =>
      ∀ before inner : Gap, ∃ w : Written, before.1 ++ '[' :: (inner.1 ++ cs) = w.text ++ rest := by
  have solid' : ∀ e ∈ Enclosing.list start [] :: outer, e.Solid :=
    List.forall_mem_cons.mpr ⟨nofun, solid⟩
  by_cases ended : cs = []
  · subst ended
    rw [Goes, run_nil]
    exact .inr (finish_breaks (fun _ => solid) (fun _ => .list _ _ (List.forall_mem_nil _)) fun _ => rfl)
  obtain ⟨kind, lexeme, gap, rest, span, stop, text, spells, next, shorter, step⟩ :=
    exists_step offset ready ended
  by_cases closed : kind = .closeList
  · subst closed
    obtain rfl : lexeme = [']'] := spells
    refine .inl ⟨rest, .array _ _ none, stop, fun before inner => ?_, next, shorter, trivial, step _⟩
    exact ⟨.list ⟨before, gap⟩ inner [], by simp [Written.text, Written.itemsText, text]⟩
  · have first : run (.listStart start outer) offset cs =
        run (.value false (.list start [] :: outer)) offset cs := by
      rw [step, step]
      cases kind <;> first | rfl | exact absurd rfl closed
    rcases value ready false _ offset solid' with
      ⟨rest', node, stop', text', ready', shorter', here, read⟩ | breaks
    · have nodes : ∀ e ∈ Enclosing.list start [node] :: outer, e.Solid :=
        List.forall_mem_cons.mpr ⟨List.forall_mem_singleton.mpr here, solid⟩
      refine (items rest' shorter' ready' start [node] outer stop' nodes).behind shorter' (first.trans read) ?_
      rintro left ⟨more, gap', rfl⟩ before inner
      obtain ⟨w, text'⟩ := text' noGap
      rw [noGap, List.nil_append] at text'
      exact ⟨.list ⟨before, gap'⟩ inner (w :: more), by simp [Written.text, Written.itemsText, text']⟩
    · exact .inr (first ▸ breaks)

/-- The rest of an object is read from behind its brace, up to and with what closes it. -/
theorem objectAt {cs : List Char} (member : MemberAt cs)
    (members : ∀ rest, rest.length < cs.length → MembersAt rest) (ready : Ready cs) (start : Nat)
    (outer : List Enclosing) (offset : Nat) (solid : ∀ e ∈ outer, e.Solid) :
    Goes (.key false start [] outer) offset cs outer fun rest =>
      ∀ before inner : Gap, ∃ w : Written, before.1 ++ '\x7b' :: (inner.1 ++ cs) = w.text ++ rest := by
  by_cases closed : cs.head? = some '\x7d'
  · obtain ⟨cs, rfl⟩ := List.head?_eq_some_iff.mp closed
    obtain ⟨gap, rest, rfl, next⟩ := exists_gap cs
    have scanned : ∀ offset cs, scanToken offset '\x7d' cs = (.closeObject, offset + 1, cs) := fun _ _ => rfl
    refine .inl ⟨rest, .object _ _ none, _, fun before inner => ?_, next, ?_, trivial,
      (run_mark '\x7d' .closeObject (by decide) scanned _ _ _).trans (run_gap _ _ _ _)⟩
    · exact ⟨.object ⟨before, gap⟩ inner [], by simp [Written.text, Written.membersText]⟩
    · simp only [List.length_append, List.length_cons]
      omega
  · rcases member ready false start [] outer offset solid fun _ => closed with
      ⟨rest', key, node, stop', text', ready', shorter', read⟩ | breaks
    · refine (members rest' shorter' ready' start [(key, node)] outer stop' solid).behind shorter' read ?_
      rintro left ⟨more, gap', rfl⟩ before inner
      obtain ⟨label, w, text'⟩ := text' noGap
      rw [noGap, List.nil_append] at text'
      exact ⟨.object ⟨before, gap'⟩ inner ((label, w) :: more), by
        simp [Written.text, Written.membersText, text']⟩
    · exact .inr breaks

theorem valueAt {cs : List Char} (value : ∀ rest, rest.length < cs.length → ValueAt rest)
    (items : ∀ rest, rest.length < cs.length → ItemsAt rest)
    (member : ∀ rest, rest.length < cs.length → MemberAt rest)
    (members : ∀ rest, rest.length < cs.length → MembersAt rest) : ValueAt cs := by
  intro ready afterComma outer offset solid
  by_cases ended : cs = []
  · subst ended
    rw [Goes, run_nil]
    exact .inr (finish_breaks (fun _ => solid) (fun _ => .broken _ _) fun _ => rfl)
  obtain ⟨kind, lexeme, gap, rest, span, stop, rfl, spells, next, shorter, step⟩ :=
    exists_step offset ready ended
  have single (value : Single) (lexeme_eq : lexeme = value.text) (node : Node) (solid : node.Solid)
      (placed : Progress.take (.value afterComma outer) ⟨span, kind⟩ = place node outer) :
      Goes (.value afterComma outer) offset (lexeme ++ (gap.1 ++ rest)) outer fun left =>
        ∀ before : Gap, ∃ w : Written, before.1 ++ (lexeme ++ (gap.1 ++ rest)) = w.text ++ left := by
    refine .inl ⟨rest, node, stop, fun before => ?_, next, shorter, solid, by rw [step, placed]⟩
    exact ⟨.single ⟨before, gap⟩ value, by simp [Written.text, lexeme_eq]⟩
  cases kind with
  | null => exact single .null spells (.null span) trivial rfl
  | bool b => exact single (.bool b) spells (.bool span b) trivial rfl
  | number read =>
    obtain ⟨n, text⟩ := spells
    exact single (.number n) text (.number span read) trivial rfl
  | string read =>
    obtain ⟨letters, text⟩ := spells
    exact single (.string letters) text (.string span read) trivial rfl
  | openList =>
    obtain rfl : lexeme = ['['] := spells
    refine (listAt (value rest shorter) (fun more less => items more (less.trans shorter)) next span.start outer
      stop solid).behind shorter (step _) fun left text before => ?_
    simpa using text before gap
  | openObject =>
    obtain rfl : lexeme = ['\x7b'] := spells
    refine (objectAt (member rest shorter) (fun more less => members more (less.trans shorter)) next span.start
      outer stop solid).behind shorter (step _) fun left text before => ?_
    simpa using text before gap
  | closeList =>
    rw [Goes, step]
    cases afterComma <;> exact .inr (abandon_breaks solid (.broken _ _) _ _)
  | _ => exact .inr (step _ ▸ abandon_breaks solid (.broken _ _) _ _)

/-- From every place, what is due is read, or the text breaks off. -/
theorem allAt (n : Nat) :
    ∀ cs : List Char, cs.length = n → ValueAt cs ∧ ItemsAt cs ∧ MemberAt cs ∧ MembersAt cs := by
  induction n using Nat.strong_induction_on with
  | _ n ih =>
    rintro cs rfl
    have value (rest : List Char) (less : rest.length < cs.length) := (ih _ less rest rfl).1
    have items (rest : List Char) (less : rest.length < cs.length) := (ih _ less rest rfl).2.1
    have member (rest : List Char) (less : rest.length < cs.length) := (ih _ less rest rfl).2.2.1
    have members (rest : List Char) (less : rest.length < cs.length) := (ih _ less rest rfl).2.2.2
    exact ⟨valueAt value items member members, itemsAt value items, memberAt value, membersAt member members⟩

/-- A text is that of a document, or it breaks off, or something stands behind its value. -/
theorem ofText_cases (text : String) :
    (∃ w : Written, text = String.ofList w.text) ∨ Broken (ofText text).root ∨
      (ofText text).trailing ≠ none := by
  obtain ⟨gap, cs, whole, ready⟩ := exists_gap text.toList
  have ran : (tokens 0 text.toList).foldl Progress.take (.value false []) =
      run (.value false []) gap.1.length cs := by
    rw [whole]
    show run (.value false []) 0 (gap.1 ++ cs) = _
    rw [run_gap, Nat.zero_add]
  simp only [ofText, ran]
  rcases (allAt _ cs rfl).1 ready false [] gap.1.length (List.forall_mem_nil _) with
    ⟨rest, node, stop, text', ready', -, -, read⟩ | breaks
  · obtain ⟨w, text'⟩ := text' gap
    by_cases ended : rest = []
    · subst ended
      refine .inl ⟨w, ?_⟩
      rw [List.append_nil] at text'
      rw [← text', ← whole, String.ofList_toList]
    · obtain ⟨kind, lexeme, behind, more, span, stop', -, -, -, -, step⟩ := exists_step stop ready' ended
      refine .inr (.inr ?_)
      rw [read]
      show ((run (.done node none) stop rest).contents _).trailing ≠ none
      rw [step]
      show ((run (.done node (some _)) stop' more).contents _).trailing ≠ none
      rw [run_failed]
      exact Option.some_ne_none _
  · exact .inr (.inl (breaks _))

end PolicyLint.Document
