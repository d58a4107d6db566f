import PolicyLint.Proofs.Text.Folding
import PolicyLint.Proofs.Xml.Nesting
/-!
XML texts by a grammar of their own. A mark goes up to a `>`: that of a tag is the first outside of quotes, and
comments, character data, instructions and document types each have a rule for theirs. Main statement: the tags
read of a text are those that its marks open, and none are read where the marks do not nest or the last one has
no end.
-/
namespace PolicyLint.Xml

/-! ### Up to the end of a tag -/

/-- Every quote is closed, and no `>` stands outside of quotes. -/
inductive Quoted : List Char → Prop
  | nil : Quoted []
  | plain {c : Char} {cs : List Char} : c ∉ ['>', '"', '\x27'] → Quoted cs → Quoted (c :: cs)
  | quote {q : Char} {inside cs : List Char} : q ∈ ['"', '\x27'] → q ∉ inside → Quoted cs →
      Quoted (q :: (inside ++ q :: cs))

/-- The same behind a quote that may be open. -/
def QuotedFrom : Option Char → List Char → Prop
  | none, cs => Quoted cs
  | some q, cs => ∃ inside rest, q ∉ inside ∧ cs = inside ++ q :: rest ∧ Quoted rest

theorem quotedFrom_of_tagContent {quote : Option Char} {cs content rest : List Char}
    (read : tagContent quote cs = some (content, rest)) :
    QuotedFrom quote content ∧ cs = content ++ '>' :: rest := by
  induction cs generalizing quote content with
  | nil => cases read
  | cons c cs ih =>
    rw [tagContent] at read
    split at read
    · rename_i ends
      obtain ⟨rfl, rfl⟩ := ends
      cases read
      exact ⟨.nil, rfl⟩
    rename_i goesOn
    obtain ⟨⟨content, _⟩, further, same⟩ := Option.map_eq_some_iff.mp read
    obtain ⟨rfl, rfl⟩ := Prod.mk.inj same
    obtain ⟨inner, rfl⟩ := ih further
    refine ⟨?_, rfl⟩
    cases quote with
    | none =>
      have noEnd : c ≠ '>' := fun ends => goesOn ⟨rfl, ends⟩
      by_cases opens : c = '"' ∨ c = '\x27'
      · rw [if_pos rfl, if_pos opens] at inner
        obtain ⟨inside, rest, free, rfl, closed⟩ := inner
        exact .quote (by simpa using opens) free closed
      · rw [if_pos rfl, if_neg opens] at inner
        exact .plain (by simpa [noEnd] using opens) inner
    | some q =>
      rw [if_neg (Option.some_ne_none q)] at inner
      by_cases closes : q = c
      · subst closes
        rw [if_pos rfl] at inner
        exact ⟨[], content, List.not_mem_nil, rfl, inner⟩
      · rw [if_neg (by simpa using closes)] at inner
        obtain ⟨inside, rest, free, rfl, closed⟩ := inner
        exact ⟨c :: inside, rest, by simp [closes, free], rfl, closed⟩

theorem Quoted.tagContent {content : List Char} (quoted : Quoted content) (rest : List Char) :
    tagContent none (content ++ '>' :: rest) = some (content, rest) := by
  induction quoted with
  | nil => rfl
  | @plain c cs other _ ih =>
    simp only [List.mem_cons, List.not_mem_nil, or_false, not_or] at other
    simp [Xml.tagContent, other, ih]
  | @quote q inside cs quote free _ ih =>
    have opens : q = '"' ∨ q = '\x27' := by simpa using quote
    have noEnd : q ≠ '>' := by
      rcases opens with rfl | rfl <;> decide
    have closed := tagContent_quoted free (cs ++ '>' :: rest)
    simp [Xml.tagContent, noEnd, opens, closed, ih]

theorem tagContent_iff {cs content rest : List Char} :
    tagContent none cs = some (content, rest) ↔ Quoted content ∧ cs = content ++ '>' :: rest := by
  constructor
  · exact quotedFrom_of_tagContent
  · rintro ⟨quoted, rfl⟩
    exact quoted.tagContent rest

/-! ### Up to the end of a document type -/

/-- Every `<` has its `>`. -/
inductive Balanced : List Char → Prop
  | nil : Balanced []
  | plain {c : Char} {cs : List Char} : c ∉ ['<', '>'] → Balanced cs → Balanced (c :: cs)
  | angle {inside cs : List Char} : Balanced inside → Balanced cs → Balanced ('<' :: (inside ++ '>' :: cs))

/-- The same with as many `>` more. -/
def BalancedFrom : Nat → List Char → Prop
  | 0, cs => Balanced cs
  | depth + 1, cs => ∃ inside rest, Balanced inside ∧ cs = inside ++ '>' :: rest ∧ BalancedFrom depth rest

theorem BalancedFrom.plain {depth : Nat} {c : Char} {cs : List Char} (other : c ∉ ['<', '>'])
    (balanced : BalancedFrom depth cs) : BalancedFrom depth (c :: cs) := by
  cases depth with
  | zero => exact Balanced.plain other balanced
  | succ depth =>
    obtain ⟨inside, rest, inner, rfl, outer⟩ := balanced
    exact ⟨c :: inside, rest, .plain other inner, rfl, outer⟩

theorem BalancedFrom.angle {depth : Nat} {inside cs : List Char} (inner : Balanced inside)
    (balanced : BalancedFrom depth cs) : BalancedFrom depth ('<' :: (inside ++ '>' :: cs)) := by
  cases depth with
  | zero => exact Balanced.angle inner balanced
  | succ depth =>
    obtain ⟨inside', rest, inner', rfl, outer⟩ := balanced
    exact ⟨'<' :: (inside ++ '>' :: inside'), rest, .angle inner inner', by simp, outer⟩

theorem balancedFrom_of_untilBalanced {depth : Nat} {cs content rest : List Char}
    (read : untilBalanced depth cs = some (content, rest)) :
    BalancedFrom depth content ∧ cs = content ++ '>' :: rest := by
  induction cs generalizing depth content with
  | nil => cases read
  | cons c cs ih =>
    rw [untilBalanced] at read
    split at read
    · rename_i ends
      obtain ⟨rfl, rfl⟩ := ends
      cases read
      exact ⟨Balanced.nil, rfl⟩
    rename_i goesOn
    obtain ⟨⟨content, _⟩, further, same⟩ := Option.map_eq_some_iff.mp read
    obtain ⟨rfl, rfl⟩ := Prod.mk.inj same
    obtain ⟨inner, rfl⟩ := ih further
    refine ⟨?_, rfl⟩
    by_cases opens : c = '<'
    · subst opens
      rw [if_pos rfl] at inner
      obtain ⟨inside, rest, balanced, rfl, outer⟩ := inner
      exact .angle balanced outer
    rw [if_neg opens] at inner
    by_cases closes : c = '>'
    · subst closes
      rw [if_pos rfl] at inner
      cases depth with
      | zero => exact absurd ⟨rfl, rfl⟩ goesOn
      | succ depth => exact ⟨[], content, .nil, rfl, inner⟩
    · rw [if_neg closes] at inner
      exact .plain (by simp [opens, closes]) inner

theorem Balanced.untilBalanced {content : List Char} (balanced : Balanced content) (depth : Nat)
    (rest : List Char) : untilBalanced depth (content ++ rest) =
      (untilBalanced depth rest).map fun r => (content ++ r.1, r.2) := by
  induction balanced generalizing depth rest with
  | nil => simp
  | @plain c cs other _ ih =>
    simp only [List.mem_cons, List.not_mem_nil, or_false, not_or] at other
    simp [Xml.untilBalanced, other, ih, Function.comp_def]
  | @angle inside cs _ _ inner outer =>
    simp [Xml.untilBalanced, inner, outer, Function.comp_def]

theorem untilBalanced_iff {cs content rest : List Char} :
    untilBalanced 0 cs = some (content, rest) ↔ Balanced content ∧ cs = content ++ '>' :: rest := by
  constructor
  · exact balancedFrom_of_untilBalanced
  · rintro ⟨balanced, rfl⟩
    rw [balanced.untilBalanced]
    simp [untilBalanced]

/-! ### Up to the end of other marks -/

/-- The first `>` that closes is the end. -/
theorem untilClosed_iff {closes : List Char → Bool} {before cs content rest : List Char} :
    untilClosed closes before cs = some (content, rest) ↔
      ∃ body, content = before.reverse ++ body ∧ cs = body ++ '>' :: rest ∧
        closes (body.reverse ++ before) = true ∧
          ∀ front back, body = front ++ '>' :: back → closes (front.reverse ++ before) = false := by
  induction cs generalizing before with
  | nil => simp [untilClosed]
  | cons c cs ih =>
    rw [untilClosed]
    by_cases ends : c = '>' ∧ closes before = true
    · rw [if_pos ends]
      obtain ⟨rfl, closed⟩ := ends
      constructor
      · intro same
        obtain ⟨rfl, rfl⟩ := Prod.mk.inj (Option.some.inj same)
        exact ⟨[], by simp, rfl, closed, by simp⟩
      · rintro ⟨body, rfl, split, -, first⟩
        cases body with
        | nil =>
          obtain ⟨-, rfl⟩ := List.cons.inj split
          simp
        | cons d body =>
          obtain ⟨rfl, -⟩ := List.cons.inj split
          have open' := first [] body rfl
          rw [List.reverse_nil, List.nil_append, closed] at open'
          cases open'
    · rw [if_neg ends, ih]
      constructor
      · rintro ⟨body, rfl, rfl, closed, first⟩
        refine ⟨c :: body, by simp, rfl, by simpa using closed, fun front back split => ?_⟩
        cases front with
        | nil =>
          obtain ⟨rfl, -⟩ := List.cons.inj split
          simpa using ends
        | cons d front =>
          obtain ⟨rfl, rfl⟩ := List.cons.inj split
          simpa using first front back rfl
      · rintro ⟨body, rfl, split, closed, first⟩
        cases body with
        | nil =>
          obtain ⟨rfl, -⟩ := List.cons.inj split
          exact absurd ⟨rfl, closed⟩ ends
        | cons d body =>
          obtain ⟨rfl, rfl⟩ := List.cons.inj split
          refine ⟨body, by simp, rfl, by simpa using closed, fun front back split => ?_⟩
          simpa using first (c :: front) back (by rw [split, List.cons_append])

/-- What ends in the part behind the lead begins there. -/
theorem exists_behind {lead rest front back : List Char} (free : '>' ∉ lead)
    (split : lead ++ rest = front ++ '>' :: back) :
    ∃ inner, front = lead ++ inner ∧ rest = inner ++ '>' :: back := by
  rcases List.append_eq_append_iff.mp split with ⟨inner, rfl, rest⟩ | ⟨inner, rfl, rest⟩
  · exact ⟨inner, rfl, rest⟩
  · cases inner with
    | nil => exact ⟨[], by simp, by simpa using rest.symm⟩
    | cons c inner =>
      obtain ⟨rfl, -⟩ := List.cons.inj rest
      exact absurd (List.mem_append_right front List.mem_cons_self) free

/-- What ends before the tail lies there. -/
theorem prefix_before {inner tail front back : List Char} (free : '>' ∉ tail)
    (split : inner ++ tail = front ++ '>' :: back) : front ++ ['>'] <+: inner := by
  rcases List.append_eq_append_iff.mp split with ⟨more, rfl, rest⟩ | ⟨more, rfl, rest⟩
  · exact absurd (rest ▸ List.mem_append_right more List.mem_cons_self) free
  · cases more with
    | nil => exact absurd (by simp [← show _ = tail from rest]) free
    | cons c more =>
      obtain ⟨rfl, -⟩ := List.cons.inj rest
      exact ⟨more, by simp⟩

/-- Between a lead and the first `>` behind a tail, the tail and that sign do not stand. -/
theorem untilClosed_lead (closes : List Char → Bool) (lead tail : List Char) (leads : '>' ∉ lead)
    (ends : '>' ∉ tail) (closed : ∀ inner, closes (lead ++ inner).reverse = true ↔ ∃ body, inner = body ++ tail)
    {cs content rest : List Char} :
    untilClosed closes [] cs = some (content, rest) ∧ lead <+: content ↔
      ∃ body, ¬ tail ++ ['>'] <:+: body ∧ content = lead ++ (body ++ tail) ∧ cs = content ++ '>' :: rest := by
  simp only [untilClosed_iff, List.reverse_nil, List.nil_append, List.append_nil]
  constructor
  · rintro ⟨⟨_, rfl, rfl, last, first⟩, inner, rfl⟩
    obtain ⟨body, rfl⟩ := (closed inner).mp last
    refine ⟨body, ?_, rfl, rfl⟩
    rintro ⟨front, back, rfl⟩
    have earlier := first (lead ++ (front ++ tail)) (back ++ tail) (by simp)
    rw [(closed _).mpr ⟨front, rfl⟩] at earlier
    cases earlier
  · rintro ⟨body, free, rfl, rfl⟩
    refine ⟨⟨_, rfl, rfl, (closed _).mpr ⟨body, rfl⟩, fun front back split => ?_⟩, List.prefix_append _ _⟩
    obtain ⟨inner, rfl, behind⟩ := exists_behind leads split
    have before := prefix_before ends behind
    refine Bool.eq_false_iff.mpr fun last => free ?_
    obtain ⟨body', rfl⟩ := (closed inner).mp last
    rw [List.append_assoc] at before
    exact (List.suffix_append body' _).isInfix.trans before.isInfix

/-! ### Marks -/

/-- A tag begins with none of the signs of other marks. -/
def StartsTag (cs : List Char) : Prop :=
  ∀ c ∈ cs.head?, c ∉ ['!', '?', '/']

/-- What stands between `<` and the `>` of a mark. -/
inductive Marked : Markup → List Char → Prop
  | opening {content : List Char} : StartsTag content → Quoted content → content.getLast? ≠ some '/' →
      Marked (.opening content) content
  | empty {content : List Char} : StartsTag (content ++ ['/']) → Quoted (content ++ ['/']) →
      Marked (.empty content) (content ++ ['/'])
  | closing {name gap : List Char} : Quoted (name ++ gap) → (∃ c ∈ name.getLast?, isSpace c = false) →
      (∀ c ∈ gap, isSpace c = true) → Marked (.closing name) ('/' :: (name ++ gap))
  /-- Where only spaces stand, they are the name. -/
  | nameless {gap : List Char} : (∀ c ∈ gap, isSpace c = true) → Marked (.closing gap) ('/' :: gap)
  | comment {body : List Char} : ¬ "-->".toList <:+: body →
      Marked .other ("!--".toList ++ (body ++ "--".toList))
  | data {body : List Char} : ¬ "]]>".toList <:+: body →
      Marked .other ("![CDATA[".toList ++ (body ++ "]]".toList))
  | doctype {word name : List Char} : word.map Char.toLower = "doctype".toList → Balanced (word ++ name) →
      (∃ c ∈ name, isSpace c = false) → Marked .other ('!' :: (word ++ name))
  | instruction {body : List Char} : ¬ "?>".toList <:+: '?' :: body → Marked .other ('?' :: (body ++ ['?']))

theorem take_reverse_iff {c d : Char} {cs : List Char} : cs.reverse.take 2 = [d, c] ↔ [c, d] <:+ cs := by
  rw [← List.reverse_prefix, List.prefix_iff_eq_take]
  exact eq_comm

theorem closes_comment (inner : List Char) :
    decide (("--".toList ++ inner).reverse.take 2 = ['-', '-'] ∧ 4 < ("--".toList ++ inner).reverse.length + 1) =
      true ↔ ∃ body, inner = body ++ "--".toList := by
  rw [decide_eq_true_iff, take_reverse_iff]
  constructor
  · rintro ⟨ends, long⟩
    have room : "--".toList.length ≤ inner.length := by
      have long : 4 < inner.length + 2 + 1 := by simpa using long
      show 2 ≤ inner.length
      omega
    obtain ⟨body, rfl⟩ := List.suffix_of_suffix_length_le ends (List.suffix_append _ _) room
    exact ⟨body, rfl⟩
  · rintro ⟨body, rfl⟩
    exact ⟨⟨"--".toList ++ body, by simp⟩, by simp⟩

theorem closes_data (inner : List Char) :
    decide (("[CDATA[".toList ++ inner).reverse.take 2 = [']', ']']) = true ↔
      ∃ body, inner = body ++ "]]".toList := by
  rw [decide_eq_true_iff, take_reverse_iff]
  constructor
  · intro ends
    by_cases room : "]]".toList.length ≤ inner.length
    · obtain ⟨body, rfl⟩ := List.suffix_of_suffix_length_le ends (List.suffix_append _ _) room
      exact ⟨body, rfl⟩
    · exfalso
      match inner with
      | [] => revert ends; decide
      | [c] =>
        have leads := take_reverse_iff.mpr ends
        simp at leads
      | _ :: _ :: _ => simp at room
  · rintro ⟨body, rfl⟩
    exact ⟨"[CDATA[".toList ++ body, by simp⟩

theorem closes_instruction (inner : List Char) :
    decide (([] ++ inner).reverse.head? = some '?') = true ↔ ∃ body, inner = body ++ ['?'] := by
  rw [decide_eq_true_iff, List.nil_append, List.head?_reverse, List.getLast?_eq_some_iff]

theorem comment_iff {cs content rest : List Char} :
    untilClosed (fun b => b.take 2 = ['-', '-'] ∧ 4 < b.length + 1) [] cs = some (content, rest) ∧
        content.take 2 = ['-', '-'] ↔
      ∃ body, ¬ "-->".toList <:+: body ∧ content = "--".toList ++ (body ++ "--".toList) ∧
        cs = content ++ '>' :: rest := by
  rw [eq_comm (a := content.take 2)]
  refine .trans (and_congr_right fun _ => ?_)
    (untilClosed_lead _ ['-', '-'] ['-', '-'] (by decide) (by decide) closes_comment)
  exact List.prefix_iff_eq_take.symm

theorem data_iff {cs content rest : List Char} :
    untilClosed (fun b => b.take 2 = [']', ']']) [] cs = some (content, rest) ∧ content.take 7 = "[CDATA[".toList ↔
      ∃ body, ¬ "]]>".toList <:+: body ∧ content = "[CDATA[".toList ++ (body ++ "]]".toList) ∧
        cs = content ++ '>' :: rest := by
  rw [eq_comm (a := content.take 7)]
  refine .trans (and_congr_right fun _ => ?_)
    (untilClosed_lead _ "[CDATA[".toList [']', ']'] (by decide) (by decide) closes_data)
  exact List.prefix_iff_eq_take.symm

theorem instruction_iff {cs content rest : List Char} :
    untilClosed (fun b => b.head? = some '?') ['?'] cs = some (content, rest) ∧ ¬ content.length < 2 ↔
      ∃ body, ¬ "?>".toList <:+: '?' :: body ∧ content = '?' :: (body ++ ['?']) ∧
        '?' :: cs = content ++ '>' :: rest := by
  have whole : untilClosed (fun b => b.head? = some '?') ['?'] cs = some (content, rest) ↔
      ∃ body, ¬ "?>".toList <:+: body ∧ content = body ++ ['?'] ∧ '?' :: cs = content ++ '>' :: rest := by
    refine .trans ?_
      (untilClosed_lead (fun b => b.head? = some '?') [] ['?'] (by decide) (by decide) closes_instruction)
    rw [and_iff_left List.nil_prefix, untilClosed, if_neg (by decide)]
  rw [whole]
  constructor
  · rintro ⟨⟨body, free, rfl, text⟩, long⟩
    cases body with
    | nil => exact absurd (by decide) long
    | cons c body =>
      obtain ⟨rfl, -⟩ := List.cons.inj text
      exact ⟨body, free, rfl, text⟩
  · rintro ⟨body, free, rfl, text⟩
    exact ⟨⟨'?' :: body, free, rfl, text⟩, by simp⟩

theorem marked_of_bang {cs rest : List Char} {m : Markup} (read : bang cs = .ok (m, rest)) :
    ∃ text, Marked m text ∧ '!' :: cs = text ++ '>' :: rest := by
  unfold bang at read
  split at read
  case h_1 =>
    split at read
    · split at read
      · rename_i ended leads
        obtain ⟨body, free, rfl, text⟩ := comment_iff.mp ⟨ended, leads⟩
        cases read
        exact ⟨_, .comment free, congrArg (List.cons '!') text⟩
      · cases read
    · cases read
  case h_2 =>
    split at read
    · split at read
      · rename_i ended leads
        obtain ⟨body, free, rfl, text⟩ := data_iff.mp ⟨ended, leads⟩
        cases read
        exact ⟨_, .data free, congrArg (List.cons '!') text⟩
      · cases read
    · cases read
  case h_3 | h_4 =>
    split at read
    · rename_i content rest ended
      split at read
      · rename_i leads
        split at read
        · cases read
        · rename_i named
          cases read
          obtain ⟨balanced, text⟩ := untilBalanced_iff.mp ended
          rw [← List.take_append_drop 7 content] at balanced text
          exact ⟨_, .doctype leads balanced (by simpa using named), congrArg (List.cons '!') text⟩
      · cases read
    · cases read
  case h_5 => cases read

theorem exists_trimSpace {cs : List Char} (visible : ¬ cs.all isSpace = true) :
    ∃ gap, cs = trimSpace cs ++ gap ∧ (∃ c ∈ (trimSpace cs).getLast?, isSpace c = false) ∧
      ∀ c ∈ gap, isSpace c = true := by
  refine ⟨(cs.reverse.takeWhile isSpace).reverse, ?_, ?_, fun c member => ?_⟩
  · rw [trimSpace, ← List.reverse_append, List.takeWhile_append_dropWhile, List.reverse_reverse]
  · rw [trimSpace, List.getLast?_reverse]
    cases left : cs.reverse.dropWhile isSpace with
    | nil =>
      rw [List.dropWhile_eq_nil_iff] at left
      exact absurd (List.all_eq_true.mpr fun c member => left c (List.mem_reverse.mpr member)) visible
    | cons c rest =>
      exact ⟨c, rfl, Text.stop_dropWhile isSpace cs.reverse c (by rw [left]; rfl)⟩
  · exact List.mem_takeWhile_imp (List.mem_reverse.mp member)

theorem trimSpace_append {name gap : List Char} (ends : ∃ c ∈ name.getLast?, isSpace c = false)
    (spaces : ∀ c ∈ gap, isSpace c = true) : trimSpace (name ++ gap) = name := by
  obtain ⟨c, last, visible⟩ := ends
  obtain ⟨name, rfl⟩ := List.getLast?_eq_some_iff.mp last
  have blank : ∀ c ∈ gap.reverse, isSpace c = true := fun c member => spaces c (List.mem_reverse.mp member)
  rw [trimSpace, List.reverse_append, Text.dropWhile_run blank (by simpa using visible), List.reverse_reverse]

theorem quoted_spaces {gap : List Char} (spaces : ∀ c ∈ gap, isSpace c = true) : Quoted gap := by
  induction gap with
  | nil => exact .nil
  | cons c gap ih =>
    obtain ⟨here, others⟩ := List.forall_mem_cons.mp spaces
    refine .plain (fun sign => ?_) (ih others)
    simp only [List.mem_cons, List.not_mem_nil, or_false] at sign
    rcases sign with rfl | rfl | rfl <;> cases here

theorem marked_of_closing {cs rest : List Char} {m : Markup} (read : markup ('/' :: cs) = .ok (m, rest)) :
    ∃ text, Marked m text ∧ '/' :: cs = text ++ '>' :: rest := by
  rw [markup] at read
  split at read
  · rename_i content rest ended
    cases read
    obtain ⟨quoted, rfl⟩ := tagContent_iff.mp ended
    refine ⟨'/' :: content, ?_, rfl⟩
    split
    · rename_i spaces
      exact .nameless (List.all_eq_true.mp spaces)
    · rename_i visible
      obtain ⟨gap, split, ends, spaces⟩ := exists_trimSpace visible
      rw [split] at quoted
      nth_rewrite 2 [split]
      exact .closing quoted ends spaces
  · cases read

theorem marked_of_tag {c : Char} {cs rest : List Char} {m : Markup} (other : c ∉ ['!', '?', '/'])
    (read : markup (c :: cs) = .ok (m, rest)) : ∃ text, Marked m text ∧ c :: cs = text ++ '>' :: rest := by
  rw [markup_tag other] at read
  split at read
  · rename_i content rest ended
    obtain ⟨quoted, text⟩ := tagContent_iff.mp ended
    have starts : StartsTag content := by
      intro d first
      cases content with
      | nil => cases first
      | cons e content =>
        obtain ⟨rfl, -⟩ := List.cons.inj text
        obtain rfl : c = d := Option.some.inj first
        exact other
    cases read
    split
    · rename_i last
      obtain ⟨content, rfl⟩ := List.getLast?_eq_some_iff.mp last
      rw [List.dropLast_concat]
      exact ⟨_, .empty starts quoted, text⟩
    · rename_i last
      exact ⟨_, .opening starts quoted last, text⟩
  · cases read

/-- The first sign tells which kind of mark it is. -/
theorem marked_of_markup {cs rest : List Char} {m : Markup} (read : markup cs = .ok (m, rest)) :
    ∃ text, Marked m text ∧ cs = text ++ '>' :: rest := by
  cases cs with
  | nil => cases read
  | cons c cs =>
  by_cases bang' : c = '!'
  · subst bang'
    exact marked_of_bang read
  by_cases question : c = '?'
  · subst question
    rw [markup] at read
    split at read
    · split at read
      · cases read
      · rename_i ended long
        cases read
        obtain ⟨body, free, rfl, text⟩ := instruction_iff.mp ⟨ended, long⟩
        exact ⟨_, .instruction free, text⟩
    · cases read
  by_cases slash : c = '/'
  · subst slash
    exact marked_of_closing read
  · exact marked_of_tag (by simp [bang', question, slash]) read

theorem toLower_eq_d {c : Char} (lower : c.toLower = 'd') : c = 'D' ∨ c = 'd' := by
  have letters : ∀ n : Fin 26, (Char.ofNat (n + 65)).toLower = 'd' → Char.ofNat (n + 65) = 'D' := by decide
  rcases Text.toLower_cases c with same | ⟨n, rfl⟩
  · exact .inr (same.symm.trans lower)
  · exact .inl (letters n lower)

theorem Quoted.markup {content : List Char} (quoted : Quoted content) (starts : StartsTag content)
    (rest : List Char) : Xml.markup (content ++ '>' :: rest) =
      .ok (if content.getLast? = some '/' then .empty content.dropLast else .opening content, rest) := by
  obtain ⟨c, cs, split, other⟩ : ∃ c cs, content ++ '>' :: rest = c :: cs ∧ c ∉ ['!', '?', '/'] := by
    cases content with
    | nil => exact ⟨'>', rest, rfl, by decide⟩
    | cons c content => exact ⟨c, _, rfl, starts c rfl⟩
  have ended := quoted.tagContent rest
  rw [split] at ended ⊢
  rw [markup_tag other, ended]

theorem markup_doctype {word name : List Char} (known : word.map Char.toLower = "doctype".toList)
    (balanced : Balanced (word ++ name)) (named : ∃ c ∈ name, isSpace c = false) (rest : List Char) :
    markup ('!' :: (word ++ name) ++ '>' :: rest) = .ok (.other, rest) := by
  have seven : word.length = 7 := by simpa using congrArg List.length known
  have nameless : ¬ name.all isSpace = true := by simpa using named
  have ended : untilBalanced 0 (word ++ name ++ '>' :: rest) = some (word ++ name, rest) :=
    untilBalanced_iff.mpr ⟨balanced, rfl⟩
  have front : (word ++ name).take 7 = word := List.take_left' seven
  have back : (word ++ name).drop 7 = name := List.drop_left' seven
  obtain ⟨c, letters, rfl⟩ := List.exists_cons_of_length_eq_add_one seven
  have first : c = 'D' ∨ c = 'd' := toLower_eq_d (List.cons.inj known).1
  rw [List.cons_append, List.cons_append] at ended
  rcases first with rfl | rfl
  all_goals
    simp only [List.cons_append, markup, bang, ended] at front back ⊢
    simp only [front, back, known, if_true, nameless]
    rfl

theorem Marked.markup {m : Markup} {text : List Char} (marked : Marked m text) (rest : List Char) :
    Xml.markup (text ++ '>' :: rest) = .ok (m, rest) := by
  cases marked with
  | opening starts quoted last => rw [quoted.markup starts, if_neg last]
  | empty starts quoted => rw [quoted.markup starts, if_pos (by simp), List.dropLast_concat]
  | @closing name gap quoted ends spaces =>
    obtain ⟨c, last, visible⟩ := ends
    have named : ¬ (name ++ gap).all isSpace = true := by
      intro blank
      have space := List.all_eq_true.mp blank c (List.mem_append_left gap (List.mem_of_getLast? last))
      rw [visible] at space
      cases space
    rw [List.cons_append, Xml.markup, quoted.tagContent rest]
    simp only [named, trimSpace_append ⟨c, last, visible⟩ spaces]
    rfl
  | @nameless gap spaces =>
    have blank : gap.all isSpace = true := List.all_eq_true.mpr spaces
    rw [List.cons_append, Xml.markup, (quoted_spaces spaces).tagContent rest]
    simp only [blank]
    rfl
  | @comment body free =>
    have ended : untilClosed _ [] ('-' :: '-' :: (body ++ ['-', '-'] ++ '>' :: rest)) = some (_, rest) :=
      (comment_iff.mpr ⟨body, free, rfl, rfl⟩).1
    show bang ('-' :: '-' :: (body ++ ['-', '-'] ++ '>' :: rest)) = _
    rw [bang, ended]
    exact if_pos rfl
  | @data body free =>
    have ended : untilClosed _ [] ('[' :: ("CDATA[".toList ++ (body ++ [']', ']']) ++ '>' :: rest)) =
        some (_, rest) :=
      (data_iff.mpr ⟨body, free, rfl, rfl⟩).1
    show bang ('[' :: ("CDATA[".toList ++ (body ++ [']', ']']) ++ '>' :: rest)) = _
    rw [bang, ended]
    exact if_pos rfl
  | doctype known balanced named => exact markup_doctype known balanced named rest
  | @instruction body free =>
    have ended : untilClosed _ ['?'] (body ++ ['?'] ++ '>' :: rest) = some ('?' :: (body ++ ['?']), rest) :=
      (instruction_iff.mpr ⟨body, free, rfl, rfl⟩).1
    show Xml.markup ('?' :: (body ++ ['?'] ++ '>' :: rest)) = _
    rw [Xml.markup, ended]
    exact if_neg (by simp)

/-- Every mark is read for what it is, and nothing else is. -/
theorem markup_iff {cs rest : List Char} {m : Markup} :
    markup cs = .ok (m, rest) ↔ ∃ text, Marked m text ∧ cs = text ++ '>' :: rest := by
  constructor
  · exact marked_of_markup
  · rintro ⟨text, marked, rfl⟩
    exact marked.markup rest

/-! ### Texts -/

/-- A tag's name goes up to the first space. -/
structure IsTag (content : List Char) (tag : Tag) : Prop where
  split : content = tag.name ++ tag.rest
  name : ∀ c ∈ tag.name, isSpace c = false
  rest : ∀ c ∈ tag.rest.head?, isSpace c = true

theorem isTag_iff {content : List Char} {tag : Tag} : IsTag content tag ↔ Tag.of content = tag := by
  constructor
  · rintro ⟨rfl, name, rest⟩
    have inside : ∀ c ∈ tag.name, (!isSpace c) = true := fun c member => by simp [name c member]
    have stop : ∀ c ∈ tag.rest.head?, (!isSpace c) = false := fun c first => by simp [rest c first]
    rw [Tag.of, Text.takeWhile_run inside stop, Text.dropWhile_run inside stop]
  · rintro rfl
    refine ⟨List.takeWhile_append_dropWhile.symm, fun c member => ?_, fun c first => ?_⟩
    · simpa using List.mem_takeWhile_imp member
    · simpa using Text.stop_dropWhile (fun c => !isSpace c) content c first

/-- The tags that the marks of a text open, inside the elements that are open before it. A closing tag closes
the element opened last; what is still open in the end does not matter. -/
inductive Tagged : List (List Char) → List Char → List Tag → Prop
  | plain {opened : List (List Char)} {cs : List Char} : '<' ∉ cs → Tagged opened cs []
  | passed {opened : List (List Char)} {text rest : List Char} {tags : List Tag} (before : Plain) :
      Marked .other text → Tagged opened rest tags → Tagged opened (before.1 ++ '<' :: (text ++ '>' :: rest)) tags
  | opening {opened : List (List Char)} {content text rest : List Char} {tag : Tag} {tags : List Tag}
      (before : Plain) : Marked (.opening content) text → IsTag content tag →
      Tagged (tag.name :: opened) rest tags →
      Tagged opened (before.1 ++ '<' :: (text ++ '>' :: rest)) (tag :: tags)
  | empty {opened : List (List Char)} {content text rest : List Char} {tag : Tag} {tags : List Tag}
      (before : Plain) : Marked (.empty content) text → IsTag content tag → Tagged opened rest tags →
      Tagged opened (before.1 ++ '<' :: (text ++ '>' :: rest)) (tag :: tags)
  | closing {opened : List (List Char)} {name text rest : List Char} {tags : List Tag} (before : Plain) :
      Marked (.closing name) text → Tagged opened rest tags →
      Tagged (name :: opened) (before.1 ++ '<' :: (text ++ '>' :: rest)) tags

theorem tagged_of_tags {opened : List (List Char)} {cs : List Char} {ts : List Tag}
    (read : tags opened cs = .ok ts) : Tagged opened cs ts := by
  induction size : cs.length using Nat.strongRecOn generalizing opened cs ts with
  | _ n ih =>
  by_cases marks : '<' ∈ cs
  · obtain ⟨before, more, rfl, plain⟩ := List.eq_append_cons_of_mem marks
    rw [tags_mark opened ⟨before, plain⟩] at read
    cases mark : markup more with
    | error fault =>
      rw [mark] at read
      cases read
    | ok r =>
    obtain ⟨m, rest⟩ := r
    obtain ⟨text, marked, rfl⟩ := markup_iff.mp mark
    have less : rest.length < n := by
      rw [← size, List.length_append, List.length_cons, List.length_append, List.length_cons]
      omega
    rw [mark] at read
    cases m with
    | opening content =>
      cases further : tags ((Tag.of content).name :: opened) rest with
      | error fault => simp [Except.bind, further] at read
      | ok others =>
        obtain rfl : Tag.of content :: others = ts := by simpa [Except.bind, further] using read
        exact .opening ⟨before, plain⟩ marked (isTag_iff.mpr rfl) (ih _ less further rfl)
    | empty content =>
      cases further : tags opened rest with
      | error fault => simp [Except.bind, further] at read
      | ok others =>
        obtain rfl : Tag.of content :: others = ts := by simpa [Except.bind, further] using read
        exact .empty ⟨before, plain⟩ marked (isTag_iff.mpr rfl) (ih _ less further rfl)
    | closing name =>
      cases opened with
      | nil => cases read
      | cons expected opened =>
        by_cases same : name = expected
        · subst same
          exact .closing ⟨before, plain⟩ marked (ih _ less (by simpa [Except.bind] using read) rfl)
        · simp [Except.bind, same] at read
    | other => exact .passed ⟨before, plain⟩ marked (ih _ less read rfl)
  · rw [tags_plain opened marks] at read
    cases read
    exact .plain marks

theorem Tagged.tags {opened : List (List Char)} {cs : List Char} {ts : List Tag} (tagged : Tagged opened cs ts) :
    Xml.tags opened cs = .ok ts := by
  induction tagged with
  | plain plain => exact tags_plain _ plain
  | passed before marked _ ih =>
    rw [tags_mark, marked.markup]
    exact ih
  | opening before marked tag _ ih | empty before marked tag _ ih =>
    obtain rfl := isTag_iff.mp tag
    rw [tags_mark, marked.markup]
    show (_ :: ·) <$> Xml.tags _ _ = _
    rw [ih]
    rfl
  | closing before marked _ ih =>
    rw [tags_mark, marked.markup]
    exact (if_pos rfl).trans ih

theorem tags_iff {opened : List (List Char)} {cs : List Char} {ts : List Tag} :
    tags opened cs = .ok ts ↔ Tagged opened cs ts :=
  ⟨tagged_of_tags, Tagged.tags⟩

/-- Text behind the last mark opens nothing, and no tag ends in it. -/
theorem tagged_append_iff {opened : List (List Char)} {cs behind : List Char} {ts : List Tag}
    (start : '<' ∉ behind) (stop : '>' ∉ behind) : Tagged opened (cs ++ behind) ts ↔ Tagged opened cs ts := by
  have inner {before text rest cs : List Char} (split : before ++ '<' :: (text ++ '>' :: rest) = cs ++ behind) :
      ∃ left, cs = before ++ '<' :: (text ++ '>' :: left) ∧ rest = left ++ behind := by
    have closed : cs ++ behind = (before ++ '<' :: text) ++ '>' :: rest := by simp [← split]
    obtain ⟨left, rfl⟩ := prefix_before stop closed
    exact ⟨left, by simp, by simpa using split⟩
  constructor
  · intro tagged
    generalize whole : cs ++ behind = text at tagged
    induction tagged generalizing cs with
    | plain plain => exact .plain fun member => plain (whole ▸ List.mem_append_left behind member)
    | passed before marked _ ih =>
      obtain ⟨left, rfl, rfl⟩ := inner whole.symm
      exact .passed before marked (ih rfl)
    | opening before marked tag _ ih =>
      obtain ⟨left, rfl, rfl⟩ := inner whole.symm
      exact .opening before marked tag (ih rfl)
    | empty before marked tag _ ih =>
      obtain ⟨left, rfl, rfl⟩ := inner whole.symm
      exact .empty before marked tag (ih rfl)
    | closing before marked _ ih =>
      obtain ⟨left, rfl, rfl⟩ := inner whole.symm
      exact .closing before marked (ih rfl)
  · intro tagged
    induction tagged with
    | plain plain => exact .plain (List.not_mem_append plain start)
    | passed before marked _ ih => simpa using Tagged.passed before marked ih
    | opening before marked tag _ ih => simpa using Tagged.opening before marked tag ih
    | empty before marked tag _ ih => simpa using Tagged.empty before marked tag ih
    | closing before marked _ ih => simpa using Tagged.closing before marked ih

end PolicyLint.Xml
