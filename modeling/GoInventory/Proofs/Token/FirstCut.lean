import GoInventory.Token.Stream

/-!
# The ways of cutting the first lexeme

The cut of a text tries one kind of lexeme after the other. `FirstCut` says
which ways there are, and what is known of the text when each of them is taken:
it is what the cut does (`firstCut`), and leaves it no choice
(`FirstCut.cutFirst_eq`). A statement about all lexemes is then proved by cases
on it, and no other proof about lexemes has to follow the order in which the
kinds are tried.
-/

namespace GoInventory

namespace Lexeme

/-- Nothing but an operator can start here: no blank and no end of a line, no
word, number or quote, and no comment. -/
structure StartsOperator (c : Char) (rest : List Char) : Prop where
  not_blank : isBlank c = false
  not_lineFeed : c ≠ '\n'
  not_carriageReturn : c ≠ '\r'
  not_mark : c ≠ '\uFEFF'
  not_word : isIdentStart c = false
  not_digit : c.isDigit = false
  not_quote : c ≠ '\x22'
  not_rune : c ≠ '\x27'
  not_rawString : c ≠ '\x60'
  not_fraction : c = '.' → ∀ d ∈ rest.head?, d.isDigit = false
  not_lineComment : c = '/' → rest.head? ≠ some '/'
  not_blockComment : c = '/' → rest.head? ≠ some '*'

/-- The ways in which the first lexeme of a text is cut. -/
inductive FirstCut : Char → List Char → Cut → Prop
  | blank {c : Char} {rest : List Char} : isBlank c = true →
    FirstCut c rest (.blank, (rest.takeWhile isBlank).length)
  | lineFeed {rest : List Char} : FirstCut '\n' rest (.lineBreak, 0)
  | carriageReturn {rest : List Char} :
    FirstCut '\r' rest (.lineBreak, if rest.head? == some '\n' then 1 else 0)
  | byteOrderMark {rest : List Char} : FirstCut '\uFEFF' rest (.byteOrderMark, 0)
  | word {c : Char} {rest : List Char} : isIdentStart c = true →
      FirstCut c rest (cutWord c rest)
  | number {c : Char} {rest : List Char} : c.isDigit = true →
    FirstCut c rest (cutNumber (c :: rest))
  | quoted {rest : List Char} :
    FirstCut '\x22' rest (cutQuoted '\x22' .string .unterminatedString rest)
  | rune {rest : List Char} : FirstCut '\x27' rest (cutRune rest)
  | rawString {rest : List Char} : FirstCut '\x60' rest (cutRawString rest)
  | fraction {d : Char} {rest : List Char} : d.isDigit = true →
    FirstCut '.' (d :: rest) (cutNumber ('.' :: d :: rest))
  | lineComment {rest : List Char} :
    FirstCut '/' ('/' :: rest)
      (.lineComment, (rest.takeWhile (!isLineEnd ·)).length + 1)
  | blockComment {rest : List Char} {n : Nat} : commentLength? rest = some n →
    FirstCut '/' ('*' :: rest) (.blockComment, n + 1)
  | openComment {rest : List Char} : commentLength? rest = none →
    FirstCut '/' ('*' :: rest) (.fault .unterminatedComment, rest.length + 1)
  | operator {c : Char} {rest : List Char} : StartsOperator c rest →
    FirstCut c rest (cutOperator (c :: rest))

/-- Two characters that are asked for are the first two of the text. -/
theorem slash_cons {c d : Char} {rest : List Char}
    (h : (c == '/' && rest.head? == some d) = true) :
    c = '/' ∧ ∃ tail, rest = d :: tail := by
  rw [Bool.and_eq_true] at h
  exact ⟨eq_of_beq h.1, List.head?_eq_some_iff.mp (eq_of_beq h.2)⟩

/-- Two characters that are asked for and are not there. -/
theorem not_slash {c d : Char} {rest : List Char}
    (h : ¬ (c == '/' && rest.head? == some d) = true) :
    c = '/' → rest.head? ≠ some d := by
  rintro rfl hhead
  rw [hhead] at h
  exact h (by simp)

/-- **The first lexeme is cut in one of these ways.** -/
theorem firstCut (c : Char) (rest : List Char) :
    FirstCut c rest (cutFirst c rest) := by
  unfold cutFirst
  by_cases hblank : isBlank c = true
  · rw [if_pos hblank]
    exact .blank hblank
  rw [if_neg hblank]
  by_cases hlf : (c == '\n') = true
  · rw [if_pos hlf, eq_of_beq hlf]
    exact .lineFeed
  rw [if_neg hlf]
  by_cases hcr : (c == '\r') = true
  · rw [if_pos hcr, eq_of_beq hcr]
    exact .carriageReturn
  rw [if_neg hcr]
  by_cases hbom : (c == '\uFEFF') = true
  · rw [if_pos hbom, eq_of_beq hbom]
    exact .byteOrderMark
  rw [if_neg hbom]
  by_cases hword : isIdentStart c = true
  · rw [if_pos hword]
    exact .word hword
  rw [if_neg hword]
  by_cases hdigit : c.isDigit = true
  · rw [if_pos hdigit]
    exact .number hdigit
  rw [if_neg hdigit]
  by_cases hquote : (c == '\x22') = true
  · rw [if_pos hquote, eq_of_beq hquote]
    exact .quoted
  rw [if_neg hquote]
  by_cases hrune : (c == '\x27') = true
  · rw [if_pos hrune, eq_of_beq hrune]
    exact .rune
  rw [if_neg hrune]
  by_cases hraw : (c == '\x60') = true
  · rw [if_pos hraw, eq_of_beq hraw]
    exact .rawString
  rw [if_neg hraw]
  by_cases hfraction : (c == '.' && rest.head?.any Char.isDigit) = true
  · rw [if_pos hfraction]
    obtain ⟨hdot, hany⟩ := Bool.and_eq_true_iff.mp hfraction
    obtain ⟨d, hhead, hd⟩ := (Option.any_eq_true _ _).mp hany
    obtain ⟨tail, rfl⟩ := List.head?_eq_some_iff.mp hhead
    obtain rfl := eq_of_beq hdot
    exact .fraction hd
  rw [if_neg hfraction]
  by_cases hline : (c == '/' && rest.head? == some '/') = true
  · rw [if_pos hline]
    obtain ⟨rfl, tail, rfl⟩ := slash_cons hline
    exact .lineComment
  rw [if_neg hline]
  by_cases hblock : (c == '/' && rest.head? == some '*') = true
  · rw [if_pos hblock]
    obtain ⟨rfl, tail, rfl⟩ := slash_cons hblock
    split
    next hlength => exact .blockComment hlength
    next hlength => exact .openComment hlength
  rw [if_neg hblock]
  refine .operator ⟨Bool.eq_false_iff.mpr hblank,
    ne_of_beq_false (Bool.eq_false_iff.mpr hlf),
    ne_of_beq_false (Bool.eq_false_iff.mpr hcr),
      ne_of_beq_false (Bool.eq_false_iff.mpr hbom),
    Bool.eq_false_iff.mpr hword, Bool.eq_false_iff.mpr hdigit,
    ne_of_beq_false (Bool.eq_false_iff.mpr hquote),
      ne_of_beq_false (Bool.eq_false_iff.mpr hrune),
    ne_of_beq_false (Bool.eq_false_iff.mpr hraw), ?_, not_slash hline,
      not_slash hblock⟩
  rintro rfl d hd
  refine Bool.eq_false_iff.mpr fun hdigit => hfraction ?_
  rw [Option.mem_def.mp hd]
  exact hdigit

/-- No character that starts an identifier has another meaning. -/
theorem cutFirst_of_isIdentStart {c : Char} (h : isIdentStart c = true)
    (rest : List Char) : cutFirst c rest = cutWord c rest := by
  have hne : ∀ d, isIdentStart d = false → c ≠ d := by
    intro d hd heq
    subst heq
    rw [hd] at h
    cases h
  have hblank : isBlank c = false := by
    simp [isBlank, hne ' ' (by decide), hne '\t' (by decide)]
  unfold cutFirst
  simp [hblank, hne '\n' (by decide), hne '\r' (by decide),
    hne '\uFEFF' (by decide +kernel), h]

/-- No digit starts an identifier. -/
theorem isIdentStart_of_isDigit {c : Char} (h : c.isDigit = true) :
    isIdentStart c = false := by
  have hrange : 48 ≤ c.toNat ∧ c.toNat ≤ 57 := by
    simpa [Char.isDigit, UInt32.le_iff_toNat_le] using h
  have hupper : c.isUpper = false := by
    have hsmall : ¬ c.val ≥ 'A'.val := by
      intro hge
      have hle : 65 ≤ c.toNat := UInt32.le_iff_toNat_le.mp hge
      omega
    exact decide_eq_false fun hrange => hsmall hrange.1
  have hlower : c.isLower = false := by
    have hsmall : ¬ c.val ≥ 'a'.val := by
      intro hge
      have hle : 97 ≤ c.toNat := UInt32.le_iff_toNat_le.mp hge
      omega
    exact Bool.and_eq_false_iff.mpr (Or.inl (decide_eq_false hsmall))
  have halpha : c.isAlpha = false := by
    show (c.isUpper || c.isLower) = false
    rw [hupper, hlower]
    rfl
  have hne : c ≠ '_' := by
    intro heq
    subst heq
    cases h
  unfold isIdentStart Text.isLetter
  rw [if_pos (by omega), halpha]
  simp [hne]

/-- No digit has another meaning. -/
theorem cutFirst_of_isDigit {c : Char} (h : c.isDigit = true) (rest : List Char) :
    cutFirst c rest = cutNumber (c :: rest) := by
  have hne : ∀ d, d.isDigit = false → c ≠ d := by
    intro d hd heq
    subst heq
    rw [hd] at h
    cases h
  have hblank : isBlank c = false := by
    simp [isBlank, hne ' ' (by decide), hne '\t' (by decide)]
  unfold cutFirst
  simp [hblank, hne '\n' (by decide), hne '\r' (by decide),
    hne '\uFEFF' (by decide +kernel), isIdentStart_of_isDigit h, h]

/-- Where only an operator can start, an operator is cut. -/
theorem cutFirst_of_startsOperator {c : Char} {rest : List Char}
    (h : StartsOperator c rest) : cutFirst c rest = cutOperator (c :: rest) := by
  have hfraction : (c == '.' && rest.head?.any Char.isDigit) = false := by
    by_cases hdot : c = '.'
    · have hnext := h.not_fraction hdot
      cases hhead : rest.head? with
      | none => simp
      | some d => simp [hnext d hhead]
    · simp [hdot]
  have hcomment : ∀ d, (c = '/' → rest.head? ≠ some d) →
      (c == '/' && rest.head? == some d) = false := by
    intro d hd
    by_cases hslash : c = '/'
    · simp [hd hslash]
    · simp [hslash]
  unfold cutFirst
  simp [h.not_blank, h.not_lineFeed, h.not_carriageReturn, h.not_mark,
    h.not_word, h.not_digit,
    h.not_quote, h.not_rune, h.not_rawString, hfraction, hcomment _ h.not_lineComment,
    hcomment _ h.not_blockComment]

/-- **The ways of cutting leave no choice.** -/
theorem FirstCut.cutFirst_eq {c : Char} {rest : List Char} {cut : Cut}
    (h : FirstCut c rest cut) : cutFirst c rest = cut := by
  cases h with
  | blank hblank => exact if_pos hblank
  | lineFeed | carriageReturn | byteOrderMark | quoted | rune | rawString
      | lineComment => rfl
  | word hstart => exact cutFirst_of_isIdentStart hstart rest
  | number hdigit => exact cutFirst_of_isDigit hdigit rest
  | @fraction d rest hd =>
    show (if ('.' == '.' && d.isDigit) = true then _ else _) = _
    rw [hd]
    rfl
  | blockComment hlength | openComment hlength =>
    have hslash : isIdentStart '/' = false := rfl
    simp [cutFirst, isBlank, hslash, hlength]
  | operator hstart => exact cutFirst_of_startsOperator hstart

end Lexeme

end GoInventory
