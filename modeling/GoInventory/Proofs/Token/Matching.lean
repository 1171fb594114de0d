import GoInventory.Proofs.Token.Respelling

/-!
# The longest match

Tokens are given by a table of rules (`TokenRule`): runs of blanks, line breaks,
the openings of comments, keywords, identifiers, the starts of numbers and
quoted literals, operators. What is cut from a text is settled by the rule that
takes the longest run at its head; of two rules that take the same run the one
that is not the identifiers wins (`LongestMatch`). Numbers, quoted literals and
comments are then read on from there (`TokenRule.cut`). Where no rule takes
anything, one character is cut as a fault.

The cut goes by cases on the first characters instead, so the two have to be
compared (`chosen_iff`). The first character leaves few rules (`Opening`), and
among those the runs are compared. Everything about single tokens follows from
the rule that was chosen for them (`tokens_matched`).
-/

namespace GoInventory

open Lexeme

/-! ## The rules -/

/-- What the pattern of identifiers takes. -/
def IsWord (run : List Char) : Prop :=
  ∃ c tail, run = c :: tail ∧ isIdentStart c = true ∧ ∀ d ∈ tail, isIdentPart d = true

/-- The rules by which tokens and what stands between them are recognised. -/
inductive TokenRule where
  | blanks | byteOrderMark | lineBreak | lineComment | blockComment
  | keyword (word : Keyword)
  | ident | number | string | rawString | rune
  | op (operator : Operator)
deriving DecidableEq, Repr

namespace TokenRule

/-- The runs that a rule takes. Of a number, a quoted literal and a comment this
is the start. -/
def Takes (rule : TokenRule) (run : List Char) : Prop :=
  match rule with
  | blanks => run ≠ [] ∧ ∀ c ∈ run, isBlank c = true
  | byteOrderMark => run = ['\uFEFF']
  | lineBreak => run = ['\r', '\n'] ∨ run = ['\n'] ∨ run = ['\r']
  | lineComment => run = ['/', '/']
  | blockComment => run = ['/', '*']
  | keyword word => run = word.spelling.toList
  | ident => IsWord run
  | number => ∃ d, d.isDigit = true ∧ (run = [d] ∨ run = ['.', d])
  | string => run = ['\x22']
  | rawString => run = ['\x60']
  | rune => run = ['\x27']
  | op operator => run = operator.spelling

/-- What is cut where a rule has taken a run and `behind` follows it. -/
def cut (rule : TokenRule) (run behind : List Char) : Cut :=
  match rule with
  | blanks => (.blank, run.length - 1)
  | byteOrderMark => (.byteOrderMark, run.length - 1)
  | lineBreak => (.lineBreak, run.length - 1)
  | lineComment => (.lineComment, (behind.takeWhile (!isLineEnd ·)).length + 1)
  | blockComment =>
    match commentLength? behind with
    | some n => (.blockComment, n + 1)
    | none => (.fault .unterminatedComment, behind.length + 1)
  | keyword word => (.keyword word, run.length - 1)
  | ident => (.ident, run.length - 1)
  | number => cutNumber (run ++ behind)
  | string => cutQuoted '\x22' .string .unterminatedString behind
  | rawString => cutRawString behind
  | rune => cutRune behind
  | op operator => (.op operator, run.length - 1)

end TokenRule

/-- The rule takes this run at the head of the text, no rule takes a longer one,
and only the identifiers may take the same. -/
structure LongestMatch (text : List Char) (rule : TokenRule) (run : List Char) :
  Prop where
  leads : run <+: text
  takes : rule.Takes run
  longest : ∀ (other : TokenRule) run', run' <+: text → other.Takes run' →
    run'.length ≤ run.length
  first : ∀ other : TokenRule, other.Takes run → other = rule ∨ other = .ident

/-- No rule takes anything at the head of the text. -/
def Unmatched (text : List Char) : Prop :=
  ∀ (rule : TokenRule) run, run <+: text → ¬ rule.Takes run

/-- What the rules choose to cut from a text. -/
inductive Chosen (text : List Char) : Cut → Prop
  | matched {rule : TokenRule} {run behind : List Char} : text = run ++ behind →
      LongestMatch text rule run →
    Chosen text (rule.cut run behind)
  | unmatched : Unmatched text → Chosen text (.fault .invalidToken, 0)

/-! ## First characters -/

/-- What the first character of a text tells about the rules. -/
inductive Opening where
  | blank | lineEnd | mark | word | digit | string | rawString | rune | sign
deriving DecidableEq, Repr

/-- The opening that a character is. -/
def Opening.of (c : Char) : Opening :=
  if isBlank c then .blank
  else if isLineEnd c then .lineEnd
  else if c == '\uFEFF' then .mark
  else if isIdentStart c then .word
  else if c.isDigit then .digit
  else if c == '\x22' then .string
  else if c == '\x60' then .rawString
  else if c == '\x27' then .rune
  else .sign

/-- The openings of the runs that a rule takes. -/
def TokenRule.openings : TokenRule → List Opening
  | blanks => [.blank]
  | byteOrderMark => [.mark]
  | lineBreak => [.lineEnd]
  | keyword _ | ident => [.word]
  | number => [.digit, .sign]
  | string => [.string]
  | rawString => [.rawString]
  | rune => [.rune]
  | lineComment | blockComment | op _ => [.sign]

/-- The rule of an opening that has only one. -/
def Opening.rule? : Opening → Option TokenRule
  | blank => some .blanks
  | lineEnd => some .lineBreak
  | mark => some .byteOrderMark
  | digit => some .number
  | string => some .string
  | rawString => some .rawString
  | rune => some .rune
  | word | sign => none

/-- At most one rule can match where the text opens as it does. -/
theorem Opening.eq_of_rule? {opening : Opening} {rule other : TokenRule}
    (h : opening.rule? = some rule) (hother : opening ∈ other.openings) :
    other = rule := by
  cases opening <;> cases h <;> cases other <;> simp [TokenRule.openings] at hother ⊢

/-- A character of a class that leaves out these opens none of the
rules for them. -/
theorem Opening.of_class {p : Char → Bool} {c : Char} (h : p c = true)
    (hno : [' ', '\t', '\n', '\r', '\uFEFF'].any p = false) :
    Opening.of c = if isIdentStart c then .word
      else if c.isDigit then .digit
      else if c == '\x22' then .string
      else if c == '\x60' then .rawString
      else if c == '\x27' then .rune
      else .sign := by
  have hne : ∀ d ∈ [' ', '\t', '\n', '\r', '\uFEFF'], c ≠ d := by
    rintro d hd rfl
    exact List.any_eq_false.mp hno c hd h
  have hblank : isBlank c = false := by
    simp [isBlank, hne ' ' (by simp), hne '\t' (by simp)]
  have hline : isLineEnd c = false := by
    simp [isLineEnd, hne '\n' (by simp), hne '\r' (by simp)]
  have hmark : (c == '\uFEFF') = false := beq_false_of_ne (hne '\uFEFF' (by simp))
  simp [Opening.of, hblank, hline, hmark]

/-- A letter opens a word. -/
theorem Opening.of_isIdentStart {c : Char} (h : isIdentStart c = true) :
    Opening.of c = .word := by
  rw [Opening.of_class h (by decide +kernel), if_pos h]

/-- A digit opens a number. -/
theorem Opening.of_isDigit {c : Char} (h : c.isDigit = true) :
    Opening.of c = .digit := by
  rw [Opening.of_class h (by decide), isIdentStart_of_isDigit h,
    if_neg Bool.false_ne_true, if_pos h]

namespace TokenRule

variable {rule : TokenRule} {run : List Char} {c : Char} {rest : List Char}

/-- No rule matches the empty text. -/
theorem Takes.ne_nil (h : rule.Takes run) : run ≠ [] := by
  cases rule with
  | blanks => exact h.1
  | ident =>
    obtain ⟨c, tail, rfl, -, -⟩ := h
    exact List.cons_ne_nil _ _
  | keyword word =>
    obtain ⟨c, tail, hspell, -, -, -⟩ := keyword_spelling word
    rw [show run = _ from h, hspell]
    exact List.cons_ne_nil _ _
  | number =>
    obtain ⟨d, -, rfl | rfl⟩ := h <;> exact List.cons_ne_nil _ _
  | lineBreak =>
    obtain rfl | rfl | rfl := h <;> exact List.cons_ne_nil _ _
  | op o =>
    rw [show run = _ from h]
    cases o <;> exact List.cons_ne_nil _ _
  | byteOrderMark | lineComment | blockComment | string | rawString | rune =>
    rw [show run = _ from h]
    exact List.cons_ne_nil _ _

/-- A keyword is a word. -/
theorem isWord_keyword (word : Keyword) : IsWord word.spelling.toList := by
  obtain ⟨c, tail, hspell, hstart, htail, -⟩ := keyword_spelling word
  exact ⟨c, tail, hspell, hstart, htail⟩

/-- A run starts with an opening of its rule. -/
theorem Takes.opening {tail : List Char} (h : rule.Takes (c :: tail)) :
    Opening.of c ∈ rule.openings := by
  have hword : IsWord (c :: tail) → Opening.of c = .word := by
    rintro ⟨d, more, heq, hstart, -⟩
    cases heq
    exact Opening.of_isIdentStart hstart
  cases rule with
  | blanks =>
    have hblank : isBlank c = true := h.2 c List.mem_cons_self
    simp [openings, Opening.of, hblank]
  | ident => simp [openings, hword h]
  | keyword word =>
    have hspell : IsWord (c :: tail) := by
      rw [show c :: tail = _ from h]
      exact isWord_keyword word
    simp [openings, hword hspell]
  | number =>
    obtain ⟨d, hd, heq | heq⟩ := h
    · cases heq
      simp [openings, Opening.of_isDigit hd]
    · cases heq
      decide
  | lineBreak =>
    obtain heq | heq | heq := h <;> cases heq <;> decide
  | op o =>
    have hspell : c :: tail = o.spelling := h
    cases o <;> cases hspell <;> decide
  | byteOrderMark =>
    cases (show c :: tail = _ from h)
    decide +kernel
  | lineComment | blockComment | string | rawString | rune =>
    cases (show c :: tail = _ from h)
    decide

/-- What a rule takes of a text starts with the first character of the text,
which opens the rule. -/
theorem Takes.of_prefix (h : rule.Takes run) (hrun : run <+: c :: rest) :
    ∃ tail, run = c :: tail ∧ tail <+: rest ∧ Opening.of c ∈ rule.openings := by
  cases run with
  | nil => exact absurd rfl h.ne_nil
  | cons d tail =>
    obtain ⟨rfl, htail⟩ := List.cons_prefix_cons.mp hrun
    exact ⟨tail, rfl, htail, h.opening⟩

end TokenRule

/-! ## Words and operators -/

namespace TokenRule

variable {rule : TokenRule} {run : List Char} {c : Char} {rest : List Char}

/-- Where a word can start, only words are taken. -/
theorem Takes.isWord (h : rule.Takes run) (hrun : run <+: c :: rest)
    (hc : Opening.of c = .word) :
    IsWord run ∧ (rule = .ident ∨ ∃ word, rule = .keyword word ∧
      run = word.spelling.toList) := by
  obtain ⟨tail, -, -, hmem⟩ := h.of_prefix hrun
  rw [hc] at hmem
  cases rule with
  | ident => exact ⟨h, Or.inl rfl⟩
  | keyword word =>
    refine ⟨?_, Or.inr ⟨word, rfl, h⟩⟩
    rw [show run = _ from h]
    exact isWord_keyword word
  | _ => simp [openings] at hmem

/-- Where a sign stands, an operator, a fraction or a comment can start. -/
theorem Takes.sign (h : rule.Takes run) (hrun : run <+: c :: rest)
    (hc : Opening.of c = .sign) :
    (∃ o, rule = .op o ∧ run = o.spelling) ∨
      (rule = .number ∧ ∃ d, d.isDigit = true ∧ run = ['.', d]) ∨
    (rule = .lineComment ∧ run = ['/', '/']) ∨
      (rule = .blockComment ∧ run = ['/', '*']) := by
  obtain ⟨tail, htail, -, hmem⟩ := h.of_prefix hrun
  rw [hc] at hmem
  cases rule with
  | op o => exact Or.inl ⟨o, rfl, h⟩
  | lineComment => exact Or.inr (Or.inr (Or.inl ⟨rfl, h⟩))
  | blockComment => exact Or.inr (Or.inr (Or.inr ⟨rfl, h⟩))
  | number =>
    obtain ⟨d, hd, heq | heq⟩ := h
    · rw [htail] at heq
      cases heq
      rw [Opening.of_isDigit hd] at hc
      cases hc
    · exact Or.inr (Or.inl ⟨rfl, d, hd, heq⟩)
  | _ => simp [openings] at hmem

end TokenRule

/-- What stands at the start and has only such characters is no longer than the
longest of them. -/
theorem length_le_takeWhile {p : Char → Bool} {tail rest : List Char}
    (h : tail <+: rest) (hall : ∀ d ∈ tail, p d = true) :
    tail.length ≤ (rest.takeWhile p).length := by
  obtain ⟨more, rfl⟩ := h
  rw [List.takeWhile_append_of_pos hall, List.length_append]
  exact Nat.le_add_right _ _

/-- A word at the start of a text is no longer than all of its
letters and digits. -/
theorem IsWord.length_le {run rest : List Char} {c : Char} (h : IsWord run)
    (hrun : run <+: c :: rest) :
    run.length ≤ (rest.takeWhile isIdentPart).length + 1 := by
  obtain ⟨d, tail, rfl, -, htail⟩ := h
  exact Nat.succ_le_succ (length_le_takeWhile (List.cons_prefix_cons.mp hrun).2 htail)

/-- A keyword that is found for a text is spelled like it. -/
theorem Keyword.spelling_of_ofSpelling? {word : Keyword} {run : List Char}
    (h : ofSpelling? (String.ofList run) = some word) :
    run = word.spelling.toList := by
  have hfound := List.find?_some h
  rw [eq_of_beq hfound, String.toList_ofList]

/-- Every keyword is found by its spelling. -/
theorem Keyword.ofSpelling?_spelling (word : Keyword) :
    ofSpelling? (String.ofList word.spelling.toList) = some word := by
  obtain ⟨c, tail, hspell, -, -, hword⟩ := keyword_spelling word
  rw [hspell, hword]

namespace Operator

theorem mem_all (o : Operator) : o ∈ all := by
  cases o <;> decide

/-- Every operator is found at the start of its own spelling. -/
theorem leading?_spelling (o : Operator) : leading? o.spelling = some o := by
  cases o <;> rfl

/-- **Operators are told apart by their spelling.** -/
theorem spelling_injective {o o' : Operator} (h : o.spelling = o'.spelling) :
    o = o' := by
  have hfirst := leading?_spelling o
  rw [h, leading?_spelling] at hfirst
  exact (Option.some.inj hfirst).symm

/-- No operator is a dot with a digit behind it. -/
theorem not_prefix_fraction {d : Char} (hd : d.isDigit = true) (o : Operator) :
    ¬ ['.', d] <+: o.spelling := by
  intro h
  cases o <;> simp [spelling] at h
  subst h
  cases hd

/-- No operator opens a comment to the end of the line. -/
theorem not_prefix_lineComment (o : Operator) : ¬ ['/', '/'] <+: o.spelling := by
  cases o <;> decide

/-- No operator opens a comment in brackets. -/
theorem not_prefix_blockComment (o : Operator) : ¬ ['/', '*'] <+: o.spelling := by
  cases o <;> decide

/-- The longer operators are listed first. -/
theorem pairwise_all :
    all.Pairwise fun o o' => o'.spelling.length ≤ o.spelling.length := by
  decide

/-- The first operator found is the longest one. -/
theorem length_le_of_leading? {text : List Char} {o o' : Operator}
    (h : leading? text = some o) (h' : o'.spelling <+: text) :
    o'.spelling.length ≤ o.spelling.length := by
  obtain ⟨-, longer, shorter, hall, hno⟩ := List.find?_eq_some_iff_append.mp h
  have hmem := mem_all o'
  have hsorted := pairwise_all
  rw [hall] at hmem hsorted
  rcases List.mem_append.mp hmem with hlonger | hmem
  · have hnot := hno o' hlonger
    rw [List.isPrefixOf_iff_prefix.mpr h'] at hnot
    cases hnot
  rcases List.mem_cons.mp hmem with rfl | hshorter
  · exact Nat.le_refl _
  · exact List.rel_of_pairwise_cons (List.pairwise_append.mp hsorted).2.1 hshorter

end Operator

/-! ## One opening after the other -/

namespace Chosen

variable {run behind rest : List Char} {rule : TokenRule} {cut : Cut} {c d : Char}

/-- A rule is chosen if no run that is taken is longer than its own, and this
one is taken by no other rule but the identifiers. -/
theorem of_rule {text : List Char} (rule : TokenRule) (hsplit : text = run ++ behind)
    (htakes : rule.Takes run) (hcut : rule.cut run behind = cut)
    (h : ∀ (other : TokenRule) run', run' <+: text → other.Takes run' →
      run'.length ≤ run.length ∧ (run' = run → other = rule ∨ other = .ident)) :
    Chosen text cut := by
  have hleads : run <+: text := ⟨behind, hsplit.symm⟩
  rw [← hcut]
  exact .matched hsplit ⟨hleads, htakes,
    fun other run' hrun htakes' => (h other run' hrun htakes').1,
    fun other htakes' => (h other run hleads htakes').2 rfl⟩

/-- Where only one rule can start, its longest run is chosen. -/
theorem of_opening (run : List Char) (hrule : (Opening.of c).rule? = some rule)
    (hsplit : c :: rest = run ++ behind) (htakes : rule.Takes run)
    (hcut : rule.cut run behind = cut)
    (h : ∀ run', run' <+: c :: rest → rule.Takes run' → run'.length ≤ run.length) :
    Chosen (c :: rest) cut := by
  refine of_rule rule hsplit htakes hcut fun other run' hrun htakes' => ?_
  obtain ⟨-, -, -, hmem⟩ := htakes'.of_prefix hrun
  obtain rfl := Opening.eq_of_rule? hrule hmem
  exact ⟨h run' hrun htakes', fun _ => Or.inl rfl⟩

/-- White space is cut as long as it is. -/
theorem blanks (h : isBlank c = true) :
    Chosen (c :: rest) (.blank, (rest.takeWhile isBlank).length) := by
  have hrule : (Opening.of c).rule? = some .blanks := by
    simp [Opening.of, h, Opening.rule?]
  have hsplit : c :: rest
      = (c :: rest.takeWhile isBlank) ++ rest.dropWhile isBlank := by
    rw [List.cons_append, List.takeWhile_append_dropWhile]
  refine of_opening _ hrule hsplit ?_ ?_ ?_
  · exact ⟨List.cons_ne_nil _ _,
      List.forall_mem_cons.mpr ⟨h, fun d hd => List.mem_takeWhile_imp hd⟩⟩
  · simp [TokenRule.cut]
  · intro run' hrun htakes
    obtain ⟨tail, rfl, htail, -⟩ := htakes.of_prefix hrun
    exact Nat.succ_le_succ (length_le_takeWhile htail
      fun d hd => htakes.2 d (List.mem_cons_of_mem c hd))

/-- A byte order mark is cut by itself. -/
theorem mark : Chosen ('\uFEFF' :: rest) (.byteOrderMark, 0) := by
  have hrule : (Opening.of '\uFEFF').rule? = some .byteOrderMark := by decide +kernel
  refine of_opening ['\uFEFF'] hrule rfl rfl rfl fun run' _ htakes => ?_
  rw [show run' = _ from htakes]

theorem lineFeed : Chosen ('\n' :: rest) (.lineBreak, 0) := by
  have hrule : (Opening.of '\n').rule? = some .lineBreak := by decide
  refine of_opening ['\n'] hrule rfl (Or.inr (Or.inl rfl)) rfl
    fun run' hrun htakes => ?_
  obtain ⟨tail, rfl, -, -⟩ := htakes.of_prefix hrun
  obtain heq | heq | heq := htakes <;> cases heq
  exact Nat.le_refl 1

/-- A carriage return takes a line feed behind it along. -/
theorem carriageReturn :
    Chosen ('\r' :: rest) (.lineBreak, if rest.head? == some '\n' then 1 else 0) := by
  have hrule : (Opening.of '\r').rule? = some .lineBreak := by decide
  split
  next hfeed =>
    obtain ⟨behind, rfl⟩ := List.head?_eq_some_iff.mp (eq_of_beq hfeed)
    refine of_opening ['\r', '\n'] hrule rfl (Or.inl rfl) rfl fun run' _ htakes => ?_
    obtain rfl | rfl | rfl := htakes <;> decide
  next hfeed =>
    refine of_opening ['\r'] hrule rfl (Or.inr (Or.inr rfl)) rfl
      fun run' hrun htakes => ?_
    obtain rfl | rfl | rfl := htakes
    · obtain ⟨behind, hbehind⟩ := (List.cons_prefix_cons.mp hrun).2
      rw [← hbehind] at hfeed
      exact absurd rfl hfeed
    · exact Nat.le_refl 1
    · exact Nat.le_refl 1

/-- A digit opens a number. -/
theorem digit (h : c.isDigit = true) :
    Chosen (c :: rest) (cutNumber (c :: rest)) := by
  have hrule : (Opening.of c).rule? = some .number := by
    rw [Opening.of_isDigit h]; rfl
  refine of_opening [c] hrule rfl ⟨c, h, Or.inl rfl⟩ rfl fun run' hrun htakes => ?_
  obtain ⟨d, hd, rfl | rfl⟩ := htakes
  · exact Nat.le_refl 1
  · obtain ⟨rfl, -⟩ := List.cons_prefix_cons.mp hrun
    cases h

/-- A rule that takes a single quote is chosen there. -/
theorem quote (rule : TokenRule) (hrule : (Opening.of c).rule? = some rule)
    (htakes : ∀ run, rule.Takes run ↔ run = [c]) :
    Chosen (c :: rest) (rule.cut [c] rest) :=
  of_opening [c] hrule (List.singleton_append).symm ((htakes [c]).mpr rfl) rfl
    fun run' _ htakes' => by
    rw [(htakes run').mp htakes']

/-- The longest word is chosen, and it is a keyword if a keyword is spelled so. -/
theorem word (h : isIdentStart c = true) : Chosen (c :: rest) (cutWord c rest) := by
  have hc := Opening.of_isIdentStart h
  have hsplit : c :: rest
      = (c :: rest.takeWhile isIdentPart) ++ rest.dropWhile isIdentPart := by
    rw [List.cons_append, List.takeWhile_append_dropWhile]
  unfold cutWord
  dsimp only
  split
  next word hword =>
    have hspell := Keyword.spelling_of_ofSpelling? hword
    refine of_rule (.keyword word) hsplit hspell ?_ fun other run' hrun htakes => ?_
    · simp [TokenRule.cut]
    obtain ⟨hrun', hother⟩ := htakes.isWord hrun hc
    refine ⟨hrun'.length_le hrun, fun heq => ?_⟩
    obtain rfl | ⟨word', rfl, hspell'⟩ := hother
    · exact Or.inr rfl
    · left
      have hsame := Keyword.ofSpelling?_spelling word'
      rw [← hspell', heq, hword] at hsame
      cases hsame
      rfl
  next hnone =>
    refine of_rule .ident hsplit ⟨c, _, rfl, h,
      fun d hd => List.mem_takeWhile_imp hd⟩ ?_
      fun other run' hrun htakes => ?_
    · simp [TokenRule.cut]
    obtain ⟨hrun', hother⟩ := htakes.isWord hrun hc
    refine ⟨hrun'.length_le hrun, fun heq => ?_⟩
    obtain rfl | ⟨word', rfl, hspell'⟩ := hother
    · exact Or.inr rfl
    · have hsome := Keyword.ofSpelling?_spelling word'
      rw [← hspell', heq, hnone] at hsome
      cases hsome

/-- A rule that takes two signs is chosen there, if no operator
starts with these. -/
theorem pair (rule : TokenRule) (hc : Opening.of c = .sign)
    (htakes : rule.Takes [c, d]) (hno : ∀ o : Operator, ¬ [c, d] <+: o.spelling) :
    Chosen (c :: d :: rest) (rule.cut [c, d] rest) := by
  refine of_rule rule rfl htakes rfl
    fun other run' hrun htakes' => ⟨?_, fun heq => Or.inl ?_⟩
  · obtain ⟨o, -, rfl⟩ | ⟨-, e, -, rfl⟩ | ⟨-, rfl⟩ | ⟨-, rfl⟩ := htakes'.sign hrun hc
    · refine Nat.le_of_not_lt fun hlonger => hno o ?_
      exact List.prefix_of_prefix_length_le ⟨rest, rfl⟩ hrun (Nat.le_of_lt hlonger)
    all_goals exact Nat.le_refl 2
  · subst heq
    have hpair := htakes.sign hrun hc
    -- which rule takes two characters is told by the characters
    obtain ⟨o, -, heq⟩ | ⟨rfl, e, he, heq⟩ | ⟨rfl, heq⟩ | ⟨rfl, heq⟩ :=
      htakes'.sign hrun hc
    · exact absurd (heq ▸ List.prefix_refl _) (hno o)
    all_goals
      cases heq
      obtain ⟨o, -, heq⟩ | ⟨rfl, e', he', heq⟩ | ⟨rfl, heq⟩ | ⟨rfl, heq⟩ := hpair
      · exact absurd (heq ▸ List.prefix_refl _) (hno o)
      all_goals first | rfl | cases heq

/-- A comment is opened by two signs, whether or not it ends. -/
theorem comment (rest : List Char) :
    Chosen ('/' :: '*' :: rest) (TokenRule.blockComment.cut ['/', '*'] rest) :=
  .pair .blockComment (by decide) rfl Operator.not_prefix_blockComment

/-- Where neither a fraction nor a comment starts, the longest
operator is chosen. -/
theorem operator (hc : Opening.of c = .sign)
    (hfraction : ∀ d, d.isDigit = true → ¬ ['.', d] <+: c :: rest)
    (hline : ¬ ['/', '/'] <+: c :: rest) (hblock : ¬ ['/', '*'] <+: c :: rest) :
    Chosen (c :: rest) (cutOperator (c :: rest)) := by
  have honly : ∀ (other : TokenRule) run', run' <+: c :: rest → other.Takes run' →
      ∃ o, other = .op o ∧ run' = o.spelling := by
    intro other run' hrun htakes
    obtain ⟨o, rfl, rfl⟩ | ⟨-, d, hd, rfl⟩ | ⟨-, rfl⟩ | ⟨-, rfl⟩ :=
      htakes.sign hrun hc
    · exact ⟨o, rfl, rfl⟩
    · exact absurd hrun (hfraction d hd)
    · exact absurd hrun hline
    · exact absurd hrun hblock
  unfold cutOperator
  split
  next o ho =>
    obtain ⟨behind, hbehind⟩ := leading?_isPrefix ho
    refine of_rule (.op o) hbehind.symm rfl rfl fun other run' hrun htakes => ?_
    obtain ⟨o', rfl, rfl⟩ := honly other run' hrun htakes
    exact ⟨Operator.length_le_of_leading? ho hrun,
      fun heq => Or.inl (by rw [Operator.spelling_injective heq])⟩
  next hnone =>
    refine .unmatched fun other run' hrun htakes => ?_
    obtain ⟨o, rfl, rfl⟩ := honly other run' hrun htakes
    exact List.find?_eq_none.mp hnone o (Operator.mem_all o)
      (List.isPrefixOf_iff_prefix.mpr hrun)

end Chosen

/-- What only an operator can start is a sign. -/
theorem Lexeme.StartsOperator.opening_of {c : Char} {rest : List Char}
    (h : StartsOperator c rest) : Opening.of c = .sign := by
  simp [Opening.of, isLineEnd, h.not_blank, h.not_lineFeed,
    h.not_carriageReturn, h.not_mark,
    h.not_word, h.not_digit, h.not_quote, h.not_rune, h.not_rawString]

/-- Each way of cutting is what the rules choose. -/
theorem Lexeme.FirstCut.chosen {c : Char} {rest : List Char} {cut : Cut}
    (h : FirstCut c rest cut) : Chosen (c :: rest) cut := by
  cases h with
  | blank hblank => exact .blanks hblank
  | lineFeed => exact .lineFeed
  | carriageReturn => exact .carriageReturn
  | byteOrderMark => exact .mark
  | word hstart => exact .word hstart
  | number hdigit => exact .digit hdigit
  | quoted => exact .quote .string (by decide) fun _ => Iff.rfl
  | rune => exact .quote .rune (by decide) fun _ => Iff.rfl
  | rawString => exact .quote .rawString (by decide) fun _ => Iff.rfl
  | @fraction d _ hd =>
    exact .pair .number (by decide) ⟨d, hd, Or.inr rfl⟩
      (Operator.not_prefix_fraction hd)
  | lineComment =>
    exact .pair .lineComment (by decide) rfl Operator.not_prefix_lineComment
  | @blockComment rest _ hlength | @openComment rest hlength =>
    have hcomment := Chosen.comment rest
    rwa [TokenRule.cut, hlength] at hcomment
  | operator hstart =>
    refine .operator hstart.opening_of ?_ ?_ ?_
    · rintro d hd ⟨behind, heq⟩
      cases heq
      exact absurd (hstart.not_fraction rfl d rfl) (by simp [hd])
    · rintro ⟨behind, heq⟩
      cases heq
      exact hstart.not_lineComment rfl rfl
    · rintro ⟨behind, heq⟩
      cases heq
      exact hstart.not_blockComment rfl rfl

/-- **Cutting is matching.** What is cut from a text is what the rules choose. -/
theorem chosen_cutFirst (c : Char) (rest : List Char) :
    Chosen (c :: rest) (cutFirst c rest) :=
  (firstCut c rest).chosen

/-- The rules leave no choice. -/
theorem Chosen.unique {text : List Char} {cut cut' : Cut} (h : Chosen text cut)
    (h' : Chosen text cut') : cut = cut' := by
  cases h with
  | @matched rule run behind hsplit hmatch =>
    cases h' with
    | @matched rule' run' behind' hsplit' hmatch' =>
      have hlength : run.length = run'.length :=
        Nat.le_antisymm (hmatch'.longest rule run hmatch.leads hmatch.takes)
          (hmatch.longest rule' run' hmatch'.leads hmatch'.takes)
      obtain ⟨rfl, rfl⟩ := List.append_inj (hsplit.symm.trans hsplit') hlength
      obtain rfl | rfl := hmatch.first rule' hmatch'.takes
      · rfl
      · obtain rfl | rfl := hmatch'.first rule hmatch.takes <;> rfl
    | unmatched hno => exact absurd hmatch.takes (hno rule run hmatch.leads)
  | unmatched hno =>
    cases h' with
    | @matched rule' run' _ _ hmatch' =>
      exact absurd hmatch'.takes (hno rule' run' hmatch'.leads)
    | unmatched => rfl

/-- The rules choose what is cut, and nothing else. -/
theorem chosen_iff {c : Char} {rest : List Char} {cut : Cut} :
    Chosen (c :: rest) cut ↔ cut = cutFirst c rest :=
  ⟨fun h => h.unique (chosen_cutFirst c rest), fun h => h ▸ chosen_cutFirst c rest⟩

/-! ## Single tokens -/

/-- The run stands at the head of the text and the token covers it. -/
def Token.Covers (t : Token) (text run : List Char) : Prop :=
  run <+: text ∧ t.stop = t.start + Text.byteLength run

/-- The token covers what is cut from the text, and is the token of
that, or an error. -/
structure Token.OfCut (t : Token) (text : List Char) (cut : Cut) : Prop where
  covers : t.Covers text (text.take (cut.2 + 1))
  tok : t.tok = (Lexeme.mk cut.1 (text.take (cut.2 + 1))).tok?.getD .error

/-- The run is a word, and the text has no longer one at its head. -/
def LongestWord (text run : List Char) : Prop :=
  IsWord run ∧ ∀ run', run' <+: text → IsWord run' → run'.length ≤ run.length

/-- What the longest match says of a token at the head of a text. -/
structure Matched (text : List Char) (t : Token) : Prop where
  chosen : ∃ cut, Chosen text cut ∧ t.OfCut text cut
  ident : ∀ name, t.tok = .ident name →
    t.Covers text name.toList ∧ LongestWord text name.toList ∧
    ∀ word : Keyword, word.spelling ≠ name
  keyword : ∀ word, t.tok = .keyword word →
    t.Covers text word.spelling.toList ∧ LongestWord text word.spelling.toList
  operator : ∀ o, t.tok = .op o → t.Covers text o.spelling ∧
    (∀ o' : Operator, o'.spelling <+: text → o'.spelling.length ≤ o.spelling.length) ∧
    ¬ ['/', '/'] <+: text ∧ ¬ ['/', '*'] <+: text ∧ ∀ d : Char, d.isDigit = true →
      ¬ ['.', d] <+: text
  unmatched : Unmatched text → t.tok = .error ∧ ∃ c, t.Covers text [c]

/-- The rule that lexemes of this class are taken by, where the class tells. -/
def LexemeClass.rule? : LexemeClass → Option TokenRule
  | .ident => some .ident
  | .keyword word => some (.keyword word)
  | .op operator => some (.op operator)
  | _ => none

/-- Literals and faults have a rule only where they are cut by one. -/
theorem LexemeClass.rule?_eq_none {cls : LexemeClass}
    (h : cls.isLiteralOrFault = true) : cls.rule? = none := by
  cases cls with
  | literal | fault => rfl
  | _ => cases h

/-- A class that tells its rule is cut by that rule, which has taken all
of the lexeme. -/
theorem TokenRule.eq_of_cut {rule found : TokenRule} {run behind : List Char}
    (h : (rule.cut run behind).1.rule? = some found) :
    rule = found ∧ (rule.cut run behind).2 = run.length - 1 := by
  have hno : ∀ {p : Cut}, p.1.isLiteralOrFault = true →
      p.1.rule? = some found → False := by
    intro p hp hsome
    rw [LexemeClass.rule?_eq_none hp] at hsome
    cases hsome
  cases rule with
  | ident | keyword | op => exact ⟨Option.some.inj h, rfl⟩
  | blanks | byteOrderMark | lineBreak | lineComment => cases h
  | blockComment =>
    unfold cut at h
    dsimp only at h
    split at h <;> cases h
  | number => exact (hno (cutNumber_isLiteralOrFault _) h).elim
  | string => exact (hno (cutQuoted_isLiteralOrFault _ _ _ _) h).elim
  | rawString => exact (hno (cutRawString_isLiteralOrFault _) h).elim
  | rune => exact (hno (cutRune_isLiteralOrFault _) h).elim

/-- **What is chosen is the longest match of its rule**, if it has one. -/
theorem Chosen.longestMatch {text : List Char} {cut : Cut} (h : Chosen text cut)
    (rule : TokenRule) (hrule : cut.1.rule? = some rule) :
    LongestMatch text rule (text.take (cut.2 + 1)) := by
  cases h with
  | @matched rule' run behind hsplit hmatch =>
    obtain ⟨rfl, hlength⟩ := TokenRule.eq_of_cut hrule
    have hpos : 0 < run.length := List.length_pos_iff.mpr hmatch.takes.ne_nil
    rwa [hlength, Nat.sub_add_cancel hpos, hsplit, List.take_left, ← hsplit]
  | unmatched => cases hrule

namespace LongestMatch

variable {text run : List Char} {rule : TokenRule} {o : Operator} {c d : Char}

/-- If the longest match is a word, then it is the longest word. -/
theorem longestWord (h : LongestMatch text rule run) (hword : IsWord run) :
    LongestWord text run :=
  ⟨hword, fun run' hrun hword' => h.longest .ident run' hrun hword'⟩

/-- A keyword would have been chosen instead. -/
theorem ne_keyword (h : LongestMatch text .ident run) (word : Keyword) :
    run ≠ word.spelling.toList := by
  intro hspell
  obtain heq | heq := h.first (.keyword word) hspell <;> cases heq

/-- No two characters that another rule takes stand where an operator is the
longest match. -/
theorem not_pair (h : LongestMatch text (.op o) run) (rule : TokenRule)
    (htakes : rule.Takes [c, d]) (hno : ∀ o : Operator, ¬ [c, d] <+: o.spelling) :
    ¬ [c, d] <+: text := by
  intro hpair
  have hle := h.longest rule _ hpair htakes
  have hspell : run = o.spelling := h.takes
  exact hno o (hspell ▸ List.prefix_of_prefix_length_le hpair h.leads hle)

end LongestMatch

/-- What is said of a token follows from the rule that was chosen for it. -/
theorem Matched.of_chosen {c : Char} {rest : List Char} {t : Token} {cut : Cut}
    (h : Chosen (c :: rest) cut) (ht : t.OfCut (c :: rest) cut) :
    Matched (c :: rest) t := by
  obtain ⟨cls, n⟩ := cut
  have hcovers := ht.covers
  have htok := ht.tok
  -- only a lexeme of the class that belongs to it gives an identifier, a keyword
  -- or an operator
  refine ⟨⟨_, h, ht⟩, fun name hname => ?_, fun word hword => ?_, fun o ho => ?_,
    fun hno => ?_⟩
  · rw [hname] at htok
    obtain ⟨rfl, rfl⟩ : cls = .ident ∧
      name = String.ofList ((c :: rest).take (n + 1)) := by
      cases cls <;> cases htok
      exact ⟨rfl, rfl⟩
    have hmatch := h.longestMatch .ident rfl
    rw [String.toList_ofList]
    refine ⟨hcovers, hmatch.longestWord hmatch.takes,
      fun word hspell => hmatch.ne_keyword word ?_⟩
    rw [hspell, String.toList_ofList]
  · rw [hword] at htok
    obtain rfl : cls = .keyword word := by
      cases cls <;> cases htok
      rfl
    have hmatch := h.longestMatch (.keyword word) rfl
    have hspell : (c :: rest).take (n + 1) = word.spelling.toList := hmatch.takes
    rw [hspell] at hcovers hmatch
    exact ⟨hcovers, hmatch.longestWord (TokenRule.isWord_keyword word)⟩
  · rw [ho] at htok
    obtain rfl : cls = .op o := by
      cases cls <;> cases htok
      rfl
    have hmatch := h.longestMatch (.op o) rfl
    have hspell : (c :: rest).take (n + 1) = o.spelling := hmatch.takes
    rw [hspell] at hcovers hmatch
    exact ⟨hcovers, fun o' hrun => hmatch.longest (.op o') _ hrun rfl,
      hmatch.not_pair .lineComment rfl Operator.not_prefix_lineComment,
      hmatch.not_pair .blockComment rfl Operator.not_prefix_blockComment,
      fun d hd => hmatch.not_pair .number ⟨d, hd, Or.inr rfl⟩
        (Operator.not_prefix_fraction hd)⟩
  · obtain ⟨rfl, rfl⟩ := Prod.mk.inj (h.unique (.unmatched hno))
    exact ⟨htok, c, hcovers⟩

/-- What is a fault gives no token. -/
theorem Lexeme.tok?_of_fault {l : Lexeme} {canEnd : Bool} {offset : Nat}
    {fault : LexFault} (h : l.effect canEnd offset = .fault fault) :
    l.tok? = none := by
  unfold effect at h
  unfold tok?
  cases hcls : l.cls with
  | ident | literal | keyword | op =>
    rw [hcls] at h
    cases h
  | _ => rfl

/-- What is read of a lexeme covers all of it, if it is no inserted semicolon. -/
theorem Lexeme.token_of_effect {l : Lexeme} {canEnd : Bool} {offset stop : Nat}
    {r : Reading} (h : (l.effect canEnd offset).reading? offset stop = some r)
    (hwritten : r.token.isInserted = false) :
    r.token = ⟨offset, l.tok?.getD .error, stop⟩ := by
  cases heff : l.effect canEnd offset with
  | pass =>
    rw [heff] at h
    cases h
  | semicolon place =>
    rw [heff] at h
    cases h
    rw [show (Reading.semicolon place).token.isInserted = true from
      Semicolons.isInserted_insertedSemicolon place] at hwritten
    cases hwritten
  | token tok =>
    rw [heff] at h
    cases h
    rw [tok?_of_effect heff]
    rfl
  | fault fault =>
    rw [heff] at h
    cases h
    rw [tok?_of_fault heff]
    rfl

/-- What is read from the lexemes of a text is what was cut from the text
at some place. -/
theorem readings_written {text : List Char} : ∀ {canEnd : Bool} {offset : Nat},
    ∀ r ∈ readings canEnd offset (Lexeme.cut text), r.token.isInserted = false →
      ∃ before c rest, text = before ++ c :: rest ∧
        r.token.start = offset + Text.byteLength before ∧
        r.token.OfCut (c :: rest) (cutFirst c rest) := by
  fun_induction Lexeme.cut text with
  | case1 =>
    intro canEnd offset r hr hwritten
    cases canEnd with
    | false => cases hr
    | true =>
      rw [List.mem_singleton.mp hr, show (Reading.semicolon offset).token.isInserted
        = true from
        Semicolons.isInserted_insertedSemicolon offset] at hwritten
      cases hwritten
  | case2 c rest cls n hcut ih =>
    intro canEnd offset r hr hwritten
    rw [readings_cons] at hr
    rcases List.mem_append.mp hr with hr | hr
    · have htoken := token_of_effect (Option.mem_toList.mp hr) hwritten
      refine ⟨[], c, rest, rfl, by rw [htoken]; rfl, ⟨List.take_prefix _ _, ?_⟩, ?_⟩
      · rw [htoken, hcut]
        rfl
      · rw [htoken, hcut]
        rfl
    · obtain ⟨before, d, behind, hsplit, hstart, hof⟩ := ih r hr hwritten
      refine ⟨c :: rest.take n ++ before, d, behind, ?_, ?_, hof⟩
      · rw [List.append_assoc, ← hsplit, List.cons_append, List.take_append_drop]
      · rw [hstart, Text.byteLength_append, Nat.add_assoc]
        rfl

/-- **Matching is longest match.** Every token that is written in a source is
what the rules choose at its place. So an identifier is the longest word there
and no keyword, and a keyword is that word; an operator is the longest one
there, where neither a comment nor a fraction starts; and where no rule takes
anything there is an error that covers one character. -/
theorem tokens_matched {source : String} {t : Token}
    (h : t ∈ (tokenize source).tokens) (hwritten : t.isInserted = false) :
    ∃ before text, source.toList = before ++ text ∧ t.start = Text.byteLength before ∧
      Matched text t := by
  obtain ⟨r, hr, rfl⟩ := List.mem_map.mp h
  obtain ⟨before, c, rest, hsplit, hstart, hof⟩ := readings_written r hr hwritten
  exact ⟨before, c :: rest, hsplit, hstart.trans (Nat.zero_add _),
    .of_chosen (chosen_iff.mpr rfl) hof⟩

/-- A word that starts as a keyword does, an operator that two shorter ones
start, a fraction, and a character that nothing takes. -/
def sampleMatches : String :=
  "forx<<=.5#"

theorem tokens_matched_sampleMatches :
    (⟨4, .op .shlAssign, 7⟩ : Token) ∈ (tokenize sampleMatches).tokens ∧
    ∃ before text, sampleMatches.toList = before ++ text ∧
      4 = Text.byteLength before ∧
      Matched text ⟨4, .op .shlAssign, 7⟩ := by
  have hmem : (⟨4, .op .shlAssign, 7⟩ : Token) ∈ (tokenize sampleMatches).tokens := by
    decide +kernel
  exact ⟨hmem, tokens_matched hmem rfl⟩

end GoInventory
