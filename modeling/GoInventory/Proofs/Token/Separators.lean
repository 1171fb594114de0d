import GoInventory.Proofs.Token.Cutting

/-!
# Cutting a text off behind a token

Which lexeme a text starts with is decided by looking a little beyond the
lexeme: a word ends before the first character that is no part of one, an
operator before a character that no longer operator has there. A character that
is part of nothing of the kind separates (`Separates`), whatever stands before
it. So a token stays the first lexeme of a text when the text is cut off
anywhere behind the token and goes on with such a character
(`cutFirst_take_append`); in particular each token of a source is the first
lexeme of its own text, with nothing or a separator behind it
(`leads_of_mem_cut`).
-/

namespace GoInventory

/-- Lexemes of this class are tokens. -/
def LexemeClass.isToken : LexemeClass → Bool
  | ident | literal _ | keyword _ | op _ => true
  | byteOrderMark | blank | lineBreak | lineComment | blockComment | fault _ => false

namespace Lexeme

theorem isToken_of_tok? {l : Lexeme} {tok : Tok} (h : l.tok? = some tok) :
    l.cls.isToken = true := by
  unfold tok? at h
  cases hcls : l.cls with
  | ident | literal | keyword | op => rfl
  | _ =>
    rw [hcls] at h
    cases h

/-! ## A lexeme lies within the text -/

/-- A comment is no longer than the text. -/
theorem commentLength?_le {text : List Char} :
    ∀ {n : Nat}, commentLength? text = some n → n ≤ text.length := by
  fun_induction commentLength? text with
  | case1 rest =>
    intro n h
    cases h
    simp
  | case2 c rest _ ih =>
    intro n h
    obtain ⟨m, hm, rfl⟩ := Option.map_eq_some_iff.mp h
    exact Nat.succ_le_succ (ih hm)
  | case3 => intro n h; cases h

/-- An operator that is found stands at the start of the text. -/
theorem leading?_isPrefix {text : List Char} {o : Operator}
    (h : Operator.leading? text = some o) : o.spelling <+: text := by
  unfold Operator.leading? at h
  have hfound := List.find?_some h
  exact List.isPrefixOf_iff_prefix.mp hfound

/-- No more is cut for an operator than there is. -/
theorem cutOperator_le (c : Char) (rest : List Char) :
    (cutOperator (c :: rest)).2 ≤ rest.length := by
  unfold cutOperator
  split
  next o ho =>
    have hle := (leading?_isPrefix ho).length_le
    rw [List.length_cons] at hle
    dsimp only
    omega
  next => exact Nat.zero_le _

/-- No more is cut for a number than there is. -/
theorem cutNumber_le (c : Char) (rest : List Char) :
    (cutNumber (c :: rest)).2 ≤ rest.length := by
  have hle : Number.munch (c :: rest) ≤ rest.length + 1 :=
    Number.runLength_le _ (c :: rest)
  rw [cutNumber_snd]
  omega

theorem cutWord_snd (c : Char) (rest : List Char) :
    (cutWord c rest).2 = (rest.takeWhile isIdentPart).length := by
  unfold cutWord
  dsimp only
  split <;> rfl

/-- What is cut in these ways lies within the text. -/
theorem FirstCut.snd_le {c : Char} {rest : List Char} {cut : Cut}
    (h : FirstCut c rest cut) : cut.2 ≤ rest.length := by
  cases h with
  | blank => exact (List.takeWhile_prefix _).length_le
  | lineFeed | byteOrderMark => exact Nat.zero_le _
  | carriageReturn =>
    dsimp only
    split
    next hlf =>
      obtain ⟨tail, rfl⟩ := List.head?_eq_some_iff.mp (eq_of_beq hlf)
      exact Nat.le_add_left 1 _
    next => exact Nat.zero_le _
  | word =>
    rw [cutWord_snd]
    exact (List.takeWhile_prefix _).length_le
  | number => exact cutNumber_le c rest
  | fraction => exact cutNumber_le _ _
  | quoted => exact QuotedExtent.scan_length_le _ rest
  | rune =>
    rw [cutRune_snd]
    exact QuotedExtent.scan_length_le _ rest
  | rawString => exact cutRawString_snd_le rest
  | lineComment => exact Nat.succ_le_succ (List.takeWhile_prefix _).length_le
  | blockComment hlength => exact Nat.succ_le_succ (commentLength?_le hlength)
  | openComment => exact Nat.le_refl _
  | operator => exact cutOperator_le c rest

/-- The first lexeme of a text lies within it. -/
theorem cutFirst_le (c : Char) (rest : List Char) :
    (cutFirst c rest).2 ≤ rest.length :=
  (firstCut c rest).snd_le

/-- Each lexeme of a source leads the lexemes behind it. -/
theorem cuts_cut (source : List Char) : Cuts (cut source) [] := by
  fun_induction cut source with
  | case1 => trivial
  | case2 c rest cls n hcut ih =>
    have hle : n ≤ rest.length := by
      have := cutFirst_le c rest
      rwa [hcut] at this
    refine ⟨⟨c, rest.take n, rfl, ?_⟩, ih⟩
    rw [flatMap_text_cut, List.append_nil, List.take_append_drop, hcut,
      List.length_take, Nat.min_eq_left hle]

/-! ## Separators -/

/-- The character goes on with no token that stands before it, whatever
token that is. -/
structure Separates (d : Char) : Prop where
  not_word : isIdentPart d = false
  not_number : Number.isPart d = false
  not_sign : Number.isSign d = false
  not_operator : ∀ o ∈ Operator.all, d ∉ o.spelling.tail
  not_comment : d ≠ '/' ∧ d ≠ '*'

/-- A blank ends every token. -/
theorem separates_blank : Separates ' ' :=
  ⟨by decide, by decide, by decide, by decide, by decide⟩

/-- So does a line feed. -/
theorem separates_lineFeed : Separates '\n' :=
  ⟨by decide, by decide, by decide, by decide, by decide⟩

/-- So does a closing bracket, which is part of no other token. -/
theorem separates_closeBracket : Separates ']' :=
  ⟨by decide, by decide, by decide, by decide, by decide⟩

/-- The text goes on with no token. -/
def EndsToken (rest : List Char) : Prop :=
  ∀ d ∈ rest.head?, Separates d

namespace EndsToken

theorem nil : EndsToken [] := nofun

/-- A text that starts with a separator goes on with no token. -/
theorem cons {d : Char} (h : Separates d) (rest : List Char) :
    EndsToken (d :: rest) := by
  intro c hc
  rw [← Option.some.inj hc]
  exact h

variable {gap : List Char}

/-- What goes on with no token goes on with no word. -/
theorem endsWord (h : EndsToken gap) : EndsWord gap :=
  fun d hd => (h d hd).not_word

/-- Nor does it go on with a number. -/
theorem endsNumber (h : EndsToken gap) : Number.EndsNumber gap :=
  fun d hd => ⟨(h d hd).not_number, (h d hd).not_sign⟩

/-- What separates is no digit, so that a point before it starts no number. -/
theorem not_digit (h : EndsToken gap) : ∀ d ∈ gap.head?, d.isDigit = false := by
  intro d hd
  refine Bool.eq_false_iff.mpr fun hdigit => ?_
  cases (isPart_of_isDigit hdigit).symm.trans (h d hd).not_number

/-- What separates opens no comment behind a slash. -/
theorem not_comment (h : EndsToken gap) :
    gap.head? ≠ some '/' ∧ gap.head? ≠ some '*' :=
  ⟨fun hd => (h _ hd).not_comment.1 rfl, fun hd => (h _ hd).not_comment.2 rfl⟩

end EndsToken

section CutOff

variable {gap : List Char} {k : Nat}

/-- What is taken while a property holds does not depend on what follows, if the
property fails there. -/
theorem takeWhile_take_append {p : Char → Bool} (hgap : ∀ d ∈ gap.head?, p d = false) :
    ∀ {text : List Char} {k : Nat}, (text.takeWhile p).length ≤ k →
      (text.take k ++ gap).takeWhile p = text.takeWhile p := by
  have hstop : gap.takeWhile p = [] := by
    cases gap with
    | nil => rfl
    | cons d gap => simp [hgap d rfl]
  intro text
  induction text with
  | nil => intro k _; simpa using hstop
  | cons c text ih =>
    intro k hk
    cases hc : p c with
    | false =>
      rw [List.takeWhile_cons_of_neg (by simp [hc])]
      cases k with
      | zero => exact hstop
      | succ k => exact List.takeWhile_cons_of_neg (by simp [hc])
    | true =>
      rw [List.takeWhile_cons_of_pos hc, List.length_cons] at hk
      obtain ⟨k, rfl⟩ :=
        Nat.exists_eq_add_of_le' (Nat.le_trans (Nat.le_add_left 1 _) hk)
      rw [List.take_succ_cons, List.cons_append, List.takeWhile_cons_of_pos hc,
        List.takeWhile_cons_of_pos hc, ih (by omega)]

/-- **A word is cut alike**, whatever follows that does not go on with it. -/
theorem cutWord_take_append {c : Char} {rest : List Char} (hgap : EndsWord gap)
    (hk : (cutWord c rest).2 ≤ k) :
    cutWord c (rest.take k ++ gap) = cutWord c rest := by
  rw [cutWord_snd] at hk
  unfold cutWord
  rw [takeWhile_take_append hgap hk]

/-- An operator that stays is found at the head of the text that is cut
off behind it. -/
theorem leading?_take_append {text : List Char} {o : Operator} (hgap : EndsToken gap)
    (h : Operator.leading? text = some o) (hk : o.spelling.length ≤ k) :
    Operator.leading? (text.take k ++ gap) = some o := by
  have hlead := leading?_isPrefix h
  obtain ⟨-, before, behind, hall, hbefore⟩ := List.find?_eq_some_iff_append.mp h
  refine List.find?_eq_some_iff_append.mpr ⟨?_, before, behind, hall, fun p hp => ?_⟩
  · rw [List.isPrefixOf_iff_prefix]
    have htake : o.spelling <+: text.take k := by
      rw [List.prefix_take_iff]
      exact ⟨hlead, hk⟩
    exact htake.trans (List.prefix_append _ _)
  · -- an operator that would be found before it reaches beyond the cut
    have hp' := hbefore p hp
    rw [Bool.not_eq_true', ← Bool.not_eq_true, List.isPrefixOf_iff_prefix] at hp' ⊢
    intro hprefix
    rcases List.prefix_or_prefix_of_prefix hprefix
      (List.prefix_append (text.take k) gap) with
      hshort | ⟨more, hlong⟩
    · exact hp' (hshort.trans (List.take_prefix k text))
    · rw [← hlong, List.prefix_append_right_inj] at hprefix
      cases more with
      | nil =>
        rw [List.append_nil] at hlong
        exact hp' (hlong ▸ List.take_prefix k text)
      | cons d more =>
        have hhead : gap.head? = some d := by
          obtain ⟨rest, rfl⟩ := hprefix
          rfl
        refine (hgap d hhead).not_operator p (hall ▸ List.mem_append_left _ hp) ?_
        rw [← hlong]
        cases htake : text.take k with
        | nil =>
          have hne := hlead.length_le
          have hlen := congrArg List.length htake
          rw [List.length_take, List.length_nil] at hlen
          have hspell : 0 < o.spelling.length := by cases o <;> exact Nat.succ_pos _
          omega
        | cons c taken => simp

/-- **An operator is cut alike**, whatever follows that goes on with no token. -/
theorem cutOperator_take_append {c : Char} {rest : List Char} {o : Operator} {n : Nat}
    (hgap : EndsToken gap) (h : cutOperator (c :: rest) = (.op o, n)) (hk : n ≤ k) :
    cutOperator (c :: (rest.take k ++ gap)) = (.op o, n) := by
  unfold cutOperator at h
  split at h
  next o' ho =>
    cases h
    have hlead := leading?_take_append (k := k + 1) hgap ho (by omega)
    rw [List.take_succ_cons, List.cons_append] at hlead
    unfold cutOperator
    rw [hlead]
  next => cases h

theorem cutNumber_cons_take_append {c : Char} {rest : List Char}
    (hgap : Number.EndsNumber gap) (hk : (cutNumber (c :: rest)).2 ≤ k) :
    cutNumber (c :: (rest.take k ++ gap)) = cutNumber (c :: rest) := by
  rw [cutNumber_snd] at hk
  have hnum : cutNumber ((c :: rest).take (k + 1) ++ gap) = cutNumber (c :: rest) :=
    cutNumber_take_append hgap (by omega)
  exact hnum

variable {c : Char} {rest : List Char} {cls : LexemeClass} {n : Nat}

/-- The next character is the one that was there, or one that separates. -/
theorem head?_take_append (rest gap : List Char) (k : Nat) :
    (rest.take k ++ gap).head? = rest.head? ∨
      (rest.take k ++ gap).head? = gap.head? := by
  cases k with
  | zero => exact Or.inr rfl
  | succ k =>
    cases rest with
    | nil => exact Or.inr rfl
    | cons d rest => exact Or.inl rfl

/-- Where only an operator can start, none but an operator can start if the
text is cut off. -/
theorem StartsOperator.take_append (h : StartsOperator c rest) (hgap : EndsToken gap)
    (k : Nat) : StartsOperator c (rest.take k ++ gap) := by
  have hnext := head?_take_append rest gap k
  refine { h with not_fraction := ?_, not_lineComment := ?_, not_blockComment := ?_ }
  · intro hdot d hd
    rcases hnext with heq | heq
    · exact h.not_fraction hdot d (heq ▸ hd)
    · exact hgap.not_digit d (heq ▸ hd)
  · intro hslash hd
    rcases hnext with heq | heq
    · exact h.not_lineComment hslash (heq ▸ hd)
    · exact hgap.not_comment.1 (heq ▸ hd)
  · intro hslash hd
    rcases hnext with heq | heq
    · exact h.not_blockComment hslash (heq ▸ hd)
    · exact hgap.not_comment.2 (heq ▸ hd)

/-- A literal in quotes is the same whatever follows it. -/
theorem literal_take_append {cut : List Char → Cut}
    (hcls : (cut rest).1.isLiteralOrFault = true)
    (hkeeps : ∀ {kind n} more, cut rest = (.literal kind, n) →
      cut (rest.take n ++ more) = (.literal kind, n))
    (htok : (cut rest).1.isToken = true) (hk : (cut rest).2 ≤ k) :
    cut (rest.take k ++ gap) = cut rest := by
  obtain ⟨cls, n, hcut⟩ : ∃ cls n, cut rest = (cls, n) := ⟨_, _, rfl⟩
  rw [hcut] at hcls htok hk ⊢
  cases cls with
  | literal kind =>
    have hsplit : rest.take k ++ gap
        = rest.take n ++ ((rest.take k).drop n ++ gap) := by
      have htake : rest.take n = (rest.take k).take n := by
        rw [List.take_take, Nat.min_eq_left hk]
      rw [htake, ← List.append_assoc, List.take_append_drop]
    rw [hsplit]
    exact hkeeps _ hcut
  | fault => cases htok
  | _ => cases hcls

/-- An operator is the same, whatever follows that goes on with no token. -/
theorem operator_take_append (hgap : EndsToken gap)
    (htok : (cutOperator (c :: rest)).1.isToken = true)
    (hk : (cutOperator (c :: rest)).2 ≤ k) :
    cutOperator (c :: (rest.take k ++ gap)) = cutOperator (c :: rest) := by
  have hop : ∃ o n, cutOperator (c :: rest) = (.op o, n) := by
    unfold cutOperator at htok ⊢
    split at htok
    · exact ⟨_, _, rfl⟩
    · cases htok
  obtain ⟨o, n, hop⟩ := hop
  rw [hop] at hk ⊢
  exact cutOperator_take_append hgap hop hk

/-- A number that starts with a point reaches behind the digit that follows it. -/
theorem one_le_cutNumber {d : Char} (hd : d.isDigit = true) (rest : List Char) :
    1 ≤ (cutNumber ('.' :: d :: rest)).2 := by
  have hlt : 1 < Number.munch ('.' :: d :: rest) :=
    Number.one_lt_runLength (by rfl) (isPart_of_isDigit hd) rest
  rw [cutNumber_snd]
  omega

/-- **A token is cut in the same way** from a text that is cut off somewhere
behind it, if what then follows goes on with no token. -/
theorem FirstCut.take_append {cut : Cut} (h : FirstCut c rest cut)
    (htok : cut.1.isToken = true) (hk : cut.2 ≤ k) (hgap : EndsToken gap) :
    FirstCut c (rest.take k ++ gap) cut := by
  cases h with
  | blank | lineFeed | carriageReturn | byteOrderMark | lineComment | blockComment
      | openComment =>
    cases htok
  | word hstart =>
    rw [← cutWord_take_append hgap.endsWord hk]
    exact .word hstart
  | number hdigit =>
    rw [← cutNumber_cons_take_append hgap.endsNumber hk]
    exact .number hdigit
  | @fraction d rest hd =>
    rw [← cutNumber_cons_take_append hgap.endsNumber hk]
    -- the digit behind the point is part of the number, so the cut leaves it there
    obtain ⟨k, rfl⟩ := Nat.exists_eq_add_of_le' ((one_le_cutNumber hd rest).trans hk)
    exact .fraction hd
  | quoted =>
    rw [← literal_take_append (cutQuoted_isLiteralOrFault _ _ _ _)
      cutQuoted_take_append htok hk]
    exact .quoted
  | rune =>
    rw [← literal_take_append (cutRune_isLiteralOrFault _)
      cutRune_take_append htok hk]
    exact .rune
  | rawString =>
    rw [← literal_take_append (cutRawString_isLiteralOrFault _)
      cutRawString_take_append htok hk]
    exact .rawString
  | operator hstart =>
    rw [← operator_take_append hgap htok hk]
    exact .operator (hstart.take_append hgap k)

/-- **A token stays the first lexeme** of a text that is cut off somewhere
behind it, if what then follows goes on with no token. -/
theorem cutFirst_take_append (h : cutFirst c rest = (cls, n))
    (htok : cls.isToken = true) (hk : n ≤ k) (hgap : EndsToken gap) :
    cutFirst c (rest.take k ++ gap) = (cls, n) := by
  have hcut := firstCut c rest
  rw [h] at hcut
  exact (hcut.take_append htok hk hgap).cutFirst_eq

end CutOff

/-- A token of a source leads every text that goes on with no token. -/
theorem leads_of_mem_cut {source : List Char} {l : Lexeme} {tok : Tok}
    (h : l ∈ cut source) (htok : l.tok? = some tok) {gap : List Char}
    (hgap : EndsToken gap) : l.Leads gap := by
  obtain ⟨c, rest, cls, n, hcut, rfl⟩ := mem_cut h
  have hle : n ≤ rest.length := by
    have := cutFirst_le c rest
    rwa [hcut] at this
  refine ⟨c, rest.take n, rfl, ?_⟩
  rw [List.length_take, Nat.min_eq_left hle]
  exact cutFirst_take_append hcut (isToken_of_tok? htok) (Nat.le_refl n) hgap

end Lexeme

end GoInventory
