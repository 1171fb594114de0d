import GoInventory.Proofs.Token.Lexemes

/-!
# Cutting a text that is put together from lexemes

A lexeme leads a text if it is the first one that is cut from itself and the
text behind it (`Lexeme.Leads`). If each of a sequence of lexemes leads what
follows it, then the sequence is what is cut from its own text
(`Lexeme.cut_append`). The rest of the module says before which texts the
lexemes of a source go on to be cut as they were: words before anything that is
no part of a word, quoted literals before everything, numbers before anything
that is neither part of a number nor a sign.
-/

namespace GoInventory

/-- Lexemes of this class are identifiers or keywords. -/
def LexemeClass.isWord : LexemeClass → Bool
  | .ident | .keyword _ => true
  | _ => false

theorem LexemeClass.isWord_eq_false {cls : LexemeClass}
    (h : cls.isLiteralOrFault = true) : cls.isWord = false := by
  cases cls with
  | literal | fault => rfl
  | _ => cases h

/-- No operator is longer than this one and starts with it. -/
def Operator.standsAlone : Operator → Bool
  | .openParen | .closeParen | .openBracket | .closeBracket | .openBrace
      | .closeBrace => true
  | .comma | .arrow | .ellipsis => true
  | _ => false

/-! ## Quoted literals and numbers on their own -/

namespace QuotedExtent

/-- Only a backslash makes the scan look at more than one character. -/
theorem scan_cons {quote c : Char} (h : c ≠ '\\') (rest : List Char) :
    scan quote (c :: rest) =
      if c == '\n' then ⟨false, 0⟩ else if c == quote then ⟨true, 1⟩
        else (scan quote rest).shift 1 :=
  scan.eq_4 quote c rest (fun hc _ => absurd hc h) (fun _ _ hc _ => absurd hc h)

/-- What follows the closing quote has no influence. -/
theorem scan_take_append {quote : Char} {rest : List Char} (more : List Char)
    (h : (scan quote rest).closed = true) :
    scan quote (rest.take (scan quote rest).length ++ more) = scan quote rest := by
  have hplain : ∀ {c : Char} {rest : List Char}, (c = '\\' → rest = [] → False) →
      (∀ d more, c = '\\' → rest = d :: more → False) → c ≠ '\\' := by
    intro c rest hnil hcons hc
    cases rest with
    | nil => exact hnil hc rfl
    | cons d more => exact hcons d more hc rfl
  fun_induction scan quote rest with
  | case1 => cases h
  | case2 => cases h
  | case3 => cases h
  | case4 c rest hline ih =>
    show scan quote ('\\' :: c :: (rest.take (scan quote rest).length ++ more)) = _
    rw [scan, if_neg hline, ih h]
  | case5 => cases h
  | case6 c rest hnil hcons hline hquote =>
    show scan quote (c :: more) = _
    rw [scan_cons (hplain hnil hcons), if_neg hline, if_pos hquote]
  | case7 c rest hnil hcons hline hquote ih =>
    show scan quote (c :: (rest.take (scan quote rest).length ++ more)) = _
    rw [scan_cons (hplain hnil hcons), if_neg hline, if_neg hquote, ih h]

/-- A literal lies within the text. -/
theorem scan_length_le (quote : Char) (rest : List Char) :
    (scan quote rest).length ≤ rest.length := by
  fun_induction scan quote rest with
  | case1 => exact Nat.le_refl _
  | case2 => exact Nat.le_refl _
  | case3 => exact Nat.le_add_left 1 _
  | case4 c rest hline ih => exact Nat.add_le_add_right ih 2
  | case5 => exact Nat.zero_le _
  | case6 => exact Nat.le_add_left 1 _
  | case7 c rest hnil hcons hline hquote ih => exact Nat.add_le_add_right ih 1

end QuotedExtent

namespace Number

/-- A hexadecimal number starts with a zero and an x of either case. -/
theorem startsHex_iff {text : List Char} :
    startsHex text = true ↔ ∃ mark rest, text = '0' :: mark :: rest ∧
    (mark = 'x' ∨ mark = 'X') := by
  constructor
  · intro h
    unfold startsHex at h
    split at h
    next rest => exact ⟨'x', rest, rfl, Or.inl rfl⟩
    next rest => exact ⟨'X', rest, rfl, Or.inr rfl⟩
    next => cases h
  · intro hhex
    rcases hhex with ⟨mark, rest, rfl, rfl | rfl⟩
    · rfl
    · rfl

/-- A run is no longer than the text. -/
theorem runLength_le (hex : Bool) (text : List Char) :
    runLength hex text ≤ text.length := by
  fun_induction runLength hex text with
  | case1 c s rest _ ih => exact Nat.add_le_add_right ih 2
  | case2 c s rest _ _ ih => exact Nat.add_le_add_right ih 1
  | case3 => exact Nat.zero_le _
  | case4 => exact Nat.le_refl _
  | case5 => exact Nat.zero_le _
  | case6 => exact Nat.zero_le _

/-- The text does not go on with a number: not with a character of one, nor with
the sign of an exponent. -/
def EndsNumber (rest : List Char) : Prop :=
  ∀ d ∈ rest.head?, isPart d = false ∧ isSign d = false

/-- A letter that takes a sign is a character of numbers. -/
theorem isPart_of_takesSign {hex : Bool} {c : Char} (h : takesSign hex c = true) :
    isPart c = true := by
  unfold takesSign at h
  cases hex <;> simp at h <;> rcases h with rfl | rfl <;> rfl

/-- A run ends at a character that is no part of a number. -/
theorem runLength_eq_zero {hex : Bool} {c : Char} (h : isPart c = false)
    (rest : List Char) : runLength hex (c :: rest) = 0 := by
  have hsign : takesSign hex c = false := by
    cases htakes : takesSign hex c with
    | false => rfl
    | true =>
      rw [isPart_of_takesSign htakes] at h
      cases h
  cases rest with
  | nil => simp [runLength, h]
  | cons s rest => simp [runLength, h, hsign]

/-- Where a number ends, no run goes on. -/
theorem runLength_of_endsNumber {hex : Bool} {rest : List Char} (h : EndsNumber rest) :
    runLength hex rest = 0 := by
  cases rest with
  | nil => rfl
  | cons d rest => exact runLength_eq_zero (h d rfl).1 rest

/-- A character of a number counts as one, if it is not taken
together with a sign. -/
theorem runLength_cons {hex : Bool} {c : Char} {rest : List Char}
    (h : isPart c = true)
    (hsign : ∀ s ∈ rest.head?, (takesSign hex c && isSign s) = false) :
    runLength hex (c :: rest) = runLength hex rest + 1 := by
  cases rest with
  | nil => rw [runLength, if_pos h]; rfl
  | cons s rest => rw [runLength, if_neg (by simp [hsign s rfl]), if_pos h]

/-- What is taken as a number is still taken if the text is cut off
somewhere behind it. -/
theorem runLength_take_append {hex : Bool} {text gap : List Char}
    (hgap : EndsNumber gap) :
    ∀ {k : Nat}, runLength hex text ≤ k →
      runLength hex (text.take k ++ gap) = runLength hex text := by
  fun_induction runLength hex text with
  | case1 c s rest hsign ih =>
    intro k hk
    obtain ⟨k, rfl⟩ :=
      Nat.exists_eq_add_of_le' (Nat.le_trans (Nat.le_add_left 2 _) hk)
    show runLength hex (c :: s :: (rest.take k ++ gap)) = _
    rw [runLength, if_pos hsign, ih (by omega)]
  | case2 c s rest hsign hpart ih =>
    intro k hk
    obtain ⟨k, rfl⟩ :=
      Nat.exists_eq_add_of_le' (Nat.le_trans (Nat.le_add_left 1 _) hk)
    show runLength hex (c :: ((s :: rest).take k ++ gap)) = _
    rw [runLength_cons hpart ?_, ih (by omega)]
    -- the next character is the one that was not a sign, or what follows the cut,
    -- which is none
    intro d hd
    cases k with
    | zero => simp [(hgap d hd).2]
    | succ k =>
      cases hd
      simpa using hsign
  | case3 c s rest hsign hpart =>
    intro k _
    cases k with
    | zero => exact runLength_of_endsNumber hgap
    | succ k => exact runLength_eq_zero (by simpa using hpart) _
  | case4 c hpart =>
    intro k hk
    obtain ⟨k, rfl⟩ := Nat.exists_eq_add_of_le' hk
    show runLength hex (c :: ([].take k ++ gap)) = _
    rw [List.take_nil, List.nil_append, runLength_cons hpart ?_,
      runLength_of_endsNumber hgap]
    intro d hd
    simp [(hgap d hd).2]
  | case5 c hpart =>
    intro k _
    cases k with
    | zero => exact runLength_of_endsNumber hgap
    | succ k => exact runLength_eq_zero (by simpa using hpart) _
  | case6 =>
    intro k _
    rw [List.take_nil, List.nil_append]
    exact runLength_of_endsNumber hgap

/-- A number character at the head is taken. -/
theorem runLength_pos {hex : Bool} {c : Char} (h : isPart c = true) (rest : List Char) :
    0 < runLength hex (c :: rest) := by
  cases rest with
  | nil =>
    rw [runLength, if_pos h]
    exact Nat.one_pos
  | cons s rest =>
    rw [runLength, if_pos h]
    split <;> exact Nat.succ_pos _

/-- Two number characters at the head are both taken. -/
theorem one_lt_runLength {hex : Bool} {c d : Char} (hc : isPart c = true)
    (hd : isPart d = true) (rest : List Char) :
    1 < runLength hex (c :: d :: rest) := by
  have hpos : 0 < runLength hex (d :: rest) := runLength_pos hd rest
  rw [runLength, if_pos hc]
  split <;> omega

/-- A text that is cut off behind its number has the mark that it had before. -/
theorem startsHex_take_append {text gap : List Char} {k : Nat} (hgap : EndsNumber gap)
    (hk : munch text ≤ k) : startsHex (text.take k ++ gap) = startsHex text := by
  rw [Bool.eq_iff_iff, startsHex_iff, startsHex_iff]
  constructor
  · intro hhex
    obtain ⟨mark, rest, heq, hmark⟩ := hhex
    have hpart : isPart mark = true := by
      rcases hmark with rfl | rfl <;> rfl
    -- no character of the mark is what follows the cut
    have hno : ∀ {d : Char} {more : List Char}, gap = d :: more →
        isPart d = true → False := by
      intro d more hd hd'
      rw [(hgap d (by rw [hd]; rfl)).1] at hd'
      cases hd'
    have htext := List.take_append_drop k text
    generalize text.take k = taken at heq htext
    rcases taken with _ | ⟨c, _ | ⟨d, taken⟩⟩
    · exact (hno heq rfl).elim
    · exact (hno (List.cons.inj heq).2 hpart).elim
    · cases heq
      exact ⟨mark, _, htext.symm, hmark⟩
  · intro hhex
    obtain ⟨mark, rest, rfl, hmark⟩ := hhex
    have hpart : isPart mark = true := by
      rcases hmark with rfl | rfl <;> rfl
    have hlt : 1 < munch ('0' :: mark :: rest) := one_lt_runLength rfl hpart rest
    obtain ⟨k, rfl⟩ := Nat.exists_eq_add_of_le' (Nat.le_trans hlt hk)
    exact ⟨mark, rest.take k ++ gap, rfl, hmark⟩

/-- What is cut as a number is still cut if the text is cut off
somewhere behind it. -/
theorem munch_take_append {text gap : List Char} {k : Nat} (hgap : EndsNumber gap)
    (hk : munch text ≤ k) : munch (text.take k ++ gap) = munch text := by
  show runLength (startsHex (text.take k ++ gap)) _ = _
  rw [startsHex_take_append hgap hk]
  exact runLength_take_append hgap hk

end Number

namespace Lexeme

/-- The lexeme is cut from the start of its text and what follows. -/
def Leads (l : Lexeme) (rest : List Char) : Prop :=
  ∃ c tail, l.text = c :: tail ∧ cutFirst c (tail ++ rest) = (l.cls, tail.length)

/-- Each lexeme leads the ones behind it, and these lead what follows. -/
def Cuts : List Lexeme → List Char → Prop
  | [], _ => True
  | l :: ls, rest => l.Leads (ls.flatMap text ++ rest) ∧ Cuts ls rest

/-- What leads a text is cut off first. -/
theorem cut_cons {l : Lexeme} {rest : List Char} (h : l.Leads rest) :
    cut (l.text ++ rest) = l :: cut rest := by
  obtain ⟨cls, text⟩ := l
  obtain ⟨c, tail, rfl, hcut⟩ := h
  show cut (c :: (tail ++ rest)) = _
  rw [cut]
  dsimp only
  rw [hcut]
  simp

/-- Lexemes that lead each other are cut from their text. -/
theorem cut_append {ls : List Lexeme} {rest : List Char} (h : Cuts ls rest) :
    cut (ls.flatMap text ++ rest) = ls ++ cut rest := by
  induction ls with
  | nil => rfl
  | cons l ls ih =>
    rw [List.flatMap_cons, List.append_assoc, cut_cons h.1, ih h.2]
    rfl

/-- Lexemes that are cut one after the other are cut as one list. -/
theorem Cuts.append {a b : List Lexeme} {rest : List Char}
    (ha : Cuts a (b.flatMap text ++ rest)) (hb : Cuts b rest) :
    Cuts (a ++ b) rest := by
  induction a with
  | nil => exact hb
  | cons l a ih =>
    refine ⟨?_, ih ha.2⟩
    have hl := ha.1
    rwa [← List.append_assoc, ← List.flatMap_append] at hl

/-! ## The branches of the cut -/

theorem cutOperator_isWord (text : List Char) :
    (cutOperator text).1.isWord = false := by
  unfold cutOperator
  split <;> rfl

/-- Only the way of cutting words gives a word. -/
theorem FirstCut.word_inv {c : Char} {rest : List Char} {cut : Cut}
    (h : FirstCut c rest cut) (hword : cut.1.isWord = true) :
    isIdentStart c = true ∧ cutWord c rest = cut := by
  cases h with
  | word hstart => exact ⟨hstart, rfl⟩
  | blank | lineFeed | carriageReturn | byteOrderMark | lineComment | blockComment
      | openComment =>
    cases hword
  | operator => cases (cutOperator_isWord (c :: rest)).symm.trans hword
  | number | fraction =>
    cases (LexemeClass.isWord_eq_false (cutNumber_isLiteralOrFault _)).symm.trans
      hword
  | quoted =>
    cases (LexemeClass.isWord_eq_false
      (cutQuoted_isLiteralOrFault _ _ _ _)).symm.trans hword
  | rune =>
    cases (LexemeClass.isWord_eq_false (cutRune_isLiteralOrFault _)).symm.trans hword
  | rawString =>
    cases (LexemeClass.isWord_eq_false (cutRawString_isLiteralOrFault _)).symm.trans
      hword

/-- A word is cut as a word. -/
theorem cutFirst_word {c : Char} {rest : List Char} {cls : LexemeClass} {n : Nat}
    (h : cutFirst c rest = (cls, n)) (hword : cls.isWord = true) :
    isIdentStart c = true ∧ cutWord c rest = (cls, n) := by
  have hcut := firstCut c rest
  rw [h] at hcut
  exact hcut.word_inv hword

/-! ## Words -/

/-- The text does not go on with a word. -/
def EndsWord (rest : List Char) : Prop :=
  ∀ d ∈ rest.head?, isIdentPart d = false

/-- What is taken while a property holds ends where it fails. -/
theorem takeWhile_append_stop {p : Char → Bool} {tail rest : List Char}
    (htail : ∀ d ∈ tail, p d = true) (hrest : ∀ d ∈ rest.head?, p d = false) :
    (tail ++ rest).takeWhile p = tail := by
  rw [List.takeWhile_append_of_pos htail]
  cases rest with
  | nil => simp
  | cons d rest => simp [hrest d rfl]

/-- If the longest run at the head of a text has the length of its first part,
then the first part is the run. -/
theorem forall_of_length_takeWhile {p : Char → Bool} {first behind : List Char}
    (h : first.length = ((first ++ behind).takeWhile p).length) :
    (∀ c ∈ first, p c = true) ∧ ∀ c ∈ behind.head?, p c = false := by
  have hrun : first = (first ++ behind).takeWhile p := by
    have hprefix := List.takeWhile_prefix p (l := first ++ behind)
    rw [List.prefix_iff_eq_take, ← h, List.take_left] at hprefix
    exact hprefix.symm
  have hall : ∀ c ∈ first, p c = true := by
    intro c hc
    rw [hrun] at hc
    exact List.mem_takeWhile_imp hc
  refine ⟨hall, fun c hc => ?_⟩
  obtain ⟨more, rfl⟩ := List.head?_eq_some_iff.mp hc
  rw [List.takeWhile_append_of_pos hall] at hrun
  cases hpc : p c with
  | false => rfl
  | true =>
    rw [List.takeWhile_cons_of_pos hpc] at hrun
    exact absurd hrun (by simp)

/-- A word is cut whole before a text that does not go on with it. -/
theorem cutWord_append {c : Char} {tail rest : List Char}
    (htail : ∀ d ∈ tail, isIdentPart d = true) (hrest : EndsWord rest) :
    cutWord c (tail ++ rest)
      = (match Keyword.ofSpelling? (String.ofList (c :: tail)) with
      | some word => .keyword word
      | none => .ident, tail.length) := by
  unfold cutWord
  rw [takeWhile_append_stop htail hrest]
  dsimp only
  cases Keyword.ofSpelling? (String.ofList (c :: tail)) <;> rfl

/-- A keyword is spelled as a word, and found by its spelling. -/
theorem keyword_spelling (word : Keyword) :
    ∃ c tail, word.spelling.toList = c :: tail ∧ isIdentStart c = true ∧
      (∀ d ∈ tail, isIdentPart d = true) ∧
      Keyword.ofSpelling? (String.ofList (c :: tail)) = some word := by
  have hall : word.spelling.toList.tail.all isIdentPart = true ∧
      word.spelling.toList.head?.any isIdentStart = true ∧
      Keyword.ofSpelling? word.spelling = some word := by
    cases word <;> decide
  obtain ⟨htail, hhead, hword⟩ := hall
  cases hspell : word.spelling.toList with
  | nil =>
    rw [hspell] at hhead
    cases hhead
  | cons c tail =>
    rw [hspell] at htail hhead
    refine ⟨c, tail, rfl, hhead, fun d hd => List.all_eq_true.mp htail d hd, ?_⟩
    rw [← hspell, String.ofList_toList]
    exact hword

/-- A keyword leads a text that does not go on with a word. -/
theorem leads_keyword (word : Keyword) {rest : List Char} (hrest : EndsWord rest) :
    Leads ⟨.keyword word, word.spelling.toList⟩ rest := by
  obtain ⟨c, tail, hspell, hstart, htail, hword⟩ := keyword_spelling word
  refine ⟨c, tail, hspell, ?_⟩
  rw [cutFirst_of_isIdentStart hstart, cutWord_append htail hrest, hword]

/-- A keyword is cut where it is spelled out and no word goes on behind it. -/
theorem Leads.keyword {l : Lexeme} {word : Keyword} {rest : List Char}
    (h : l.Leads rest) (hcls : l.cls = .keyword word) :
    l.text = word.spelling.toList ∧ EndsWord rest := by
  obtain ⟨c, tail, htext, hcut⟩ := h
  rw [hcls] at hcut
  obtain ⟨-, hcut⟩ := cutFirst_word hcut rfl
  unfold cutWord at hcut
  dsimp only at hcut
  split at hcut
  next word' hspell =>
    obtain ⟨hword, hlength⟩ := Prod.mk.inj hcut
    cases hword
    obtain ⟨htail, hends⟩ := forall_of_length_takeWhile hlength.symm
    rw [takeWhile_append_stop htail hends] at hspell
    unfold Keyword.ofSpelling? at hspell
    have hbeq := List.find?_some hspell
    rw [htext, eq_of_beq hbeq, String.toList_ofList]
    exact ⟨rfl, hends⟩
  next => cases (Prod.mk.inj hcut).1

/-- An identifier of a source is a character that starts one, and then parts of
one, and no keyword. -/
theorem cutFirst_ident {c : Char} {rest : List Char} {n : Nat}
    (h : cutFirst c rest = (.ident, n)) :
    isIdentStart c = true ∧ (∀ d ∈ rest.take n, isIdentPart d = true) ∧
      Keyword.ofSpelling? (String.ofList (c :: rest.take n)) = none := by
  obtain ⟨hstart, hword⟩ := cutFirst_word h rfl
  refine ⟨hstart, ?_⟩
  unfold cutWord at hword
  dsimp only at hword
  split at hword
  next => cases hword
  next hnone =>
    cases hword
    rw [← List.prefix_iff_eq_take.mp (List.takeWhile_prefix isIdentPart)]
    exact ⟨fun d hd => List.mem_takeWhile_imp hd, hnone⟩

/-- An identifier of a source leads every text that does not go on with a word. -/
theorem leads_ident {source : List Char} {l : Lexeme} (h : l ∈ cut source)
    (hcls : l.cls = .ident) {rest : List Char} (hrest : EndsWord rest) :
    l.Leads rest := by
  obtain ⟨c, rest', cls, n, hcut, rfl⟩ := mem_cut h
  cases hcls
  obtain ⟨hstart, htail, hnone⟩ := cutFirst_ident hcut
  refine ⟨c, rest'.take n, rfl, ?_⟩
  rw [cutFirst_of_isIdentStart hstart, cutWord_append htail hrest, hnone]

/-! ## Literals -/

/-- What stands behind a number is not looked at, if it does not go on
with the number. -/
theorem cutNumber_take_append {text gap : List Char} {k : Nat}
    (hgap : Number.EndsNumber gap) (hk : Number.munch text ≤ k) :
    cutNumber (text.take k ++ gap) = cutNumber text := by
  have hle : Number.munch text ≤ text.length := Number.runLength_le _ text
  unfold cutNumber
  dsimp only
  rw [Number.munch_take_append hgap hk,
    List.take_append_of_le_length (by rw [List.length_take]; omega), List.take_take,
    Nat.min_eq_left hk]

/-- What stands behind the closing quote is not looked at. -/
theorem cutQuoted_take_append {quote : Char} {kind kind' : LiteralKind}
    {fault : LexFault} {rest : List Char} {n : Nat} (more : List Char)
    (h : cutQuoted quote kind fault rest = (.literal kind', n)) :
    cutQuoted quote kind fault (rest.take n ++ more) = (.literal kind', n) := by
  have hclosed : (QuotedExtent.scan quote rest).closed = true := by
    unfold cutQuoted at h
    dsimp only at h
    cases hc : (QuotedExtent.scan quote rest).closed with
    | true => rfl
    | false =>
      rw [hc] at h
      cases h
  have hn : n = (QuotedExtent.scan quote rest).length := (congrArg Prod.snd h).symm
  rw [hn] at h ⊢
  unfold cutQuoted at h ⊢
  rw [QuotedExtent.scan_take_append more hclosed]
  exact h

/-- The same for a rune. -/
theorem cutRune_take_append {kind : LiteralKind} {rest : List Char} {n : Nat}
    (more : List Char) (h : cutRune rest = (.literal kind, n)) :
    cutRune (rest.take n ++ more) = (.literal kind, n) := by
  unfold cutRune at h
  split at h
  next kind' m hquoted =>
    have hm : m = n := congrArg Prod.snd h
    subst hm
    unfold cutRune
    rw [cutQuoted_take_append more hquoted]
    exact h
  next hno => exact absurd h (hno kind n)

/-- A raw string ends with the first backquote. -/
theorem cutRawString_append {body : List Char} (h : ∀ d ∈ body, (d != '\x60') = true)
    (more : List Char) :
    cutRawString (body ++ '\x60' :: more)
      = (.literal .rawString, body.length + 1) := by
  have hbody : (body ++ '\x60' :: more).takeWhile (· != '\x60') = body :=
    takeWhile_append_stop h fun d hd => by cases hd; rfl
  unfold cutRawString
  rw [hbody]
  exact if_pos (by simp)

/-- What stands behind it is not looked at. -/
theorem cutRawString_take_append {kind : LiteralKind} {rest : List Char} {n : Nat}
    (more : List Char) (h : cutRawString rest = (.literal kind, n)) :
    cutRawString (rest.take n ++ more) = (.literal kind, n) := by
  have hsplit := List.takeWhile_append_dropWhile (p := (· != '\x60')) (l := rest)
  have hbody : ∀ d ∈ rest.takeWhile (· != '\x60'), (d != '\x60') = true :=
    fun d hd => List.mem_takeWhile_imp (p := (· != '\x60')) hd
  have hhead := List.head?_dropWhile_not (· != '\x60') rest
  have hlt : (rest.takeWhile (· != '\x60')).length < rest.length := by
    unfold cutRawString at h
    dsimp only at h
    split at h
    next hlt => exact hlt
    next => cases h
  generalize rest.takeWhile (· != '\x60') = body at hsplit hbody hlt
  cases hdrop : rest.dropWhile (· != '\x60') with
  | nil =>
    rw [hdrop, List.append_nil] at hsplit
    rw [hsplit] at hlt
    exact absurd hlt (Nat.lt_irrefl _)
  | cons c tail =>
    rw [hdrop] at hsplit hhead
    have hc : c = '\x60' := by simpa using hhead
    rw [← hsplit, hc] at h ⊢
    have hn : n = body.length + 1 :=
      congrArg Prod.snd (h.symm.trans (cutRawString_append hbody tail))
    rw [cutRawString_append hbody] at h
    rw [hn, List.take_length_add_append, List.append_assoc]
    exact (cutRawString_append hbody more).trans (hn ▸ h)

theorem cutNumber_snd (text : List Char) :
    (cutNumber text).2 = Number.munch text - 1 := by
  unfold cutNumber
  dsimp only
  split <;> rfl

theorem isPart_of_isDigit {c : Char} (h : c.isDigit = true) :
    Number.isPart c = true := by
  simp [Number.isPart, Char.isAlphanum, h]

theorem cutRune_snd (rest : List Char) :
    (cutRune rest).2 = (QuotedExtent.scan '\x27' rest).length := by
  unfold cutRune
  split
  next hquoted => exact (congrArg Prod.snd hquoted).symm
  next => rfl

/-- No more is cut than there is. -/
theorem cutRawString_snd_le (rest : List Char) :
    (cutRawString rest).2 ≤ rest.length := by
  have hle := (List.takeWhile_prefix (· != '\x60') (l := rest)).length_le
  unfold cutRawString
  dsimp only
  split
  next hlt => exact hlt
  next => exact hle

/-! ## Operators and blanks -/

/-- An operator that stands alone is cut off, whatever follows. -/
theorem leads_of_standsAlone {o : Operator} (h : o.standsAlone = true)
    (rest : List Char) : Leads ⟨.op o, o.spelling⟩ rest := by
  cases o <;> cases h <;> exact ⟨_, _, rfl, rfl⟩

/-- A star is cut off, unless an equals sign follows. -/
theorem leads_star {d : Char} (h : d ≠ '=') (rest : List Char) :
    Leads ⟨.op .star, Operator.star.spelling⟩ (d :: rest) := by
  refine ⟨'*', [], rfl, ?_⟩
  have hd : ('=' == d) = false := beq_false_of_ne h.symm
  have hlead : Operator.leading? ('*' :: d :: rest) = some .star := by
    simp [Operator.leading?, Operator.all, List.find?, Operator.spelling,
      List.isPrefixOf, hd]
  show cutOperator ('*' :: d :: rest) = _
  unfold cutOperator
  rw [hlead]
  rfl

/-- A dot is cut off before a name, as no number starts there. -/
theorem leads_dot {d : Char} (h : isIdentStart d = true) (rest : List Char) :
    Leads ⟨.op .dot, Operator.dot.spelling⟩ (d :: rest) := by
  have hdot : d ≠ '.' := by
    intro heq
    subst heq
    cases h
  have hdigit : d.isDigit = false := by
    cases hd : d.isDigit with
    | false => rfl
    | true =>
      rw [isIdentStart_of_isDigit hd] at h
      cases h
  refine ⟨'.', [], rfl, ?_⟩
  have hlead : Operator.leading? ('.' :: d :: rest) = some .dot := by
    simp [Operator.leading?, Operator.all, List.find?, Operator.spelling,
      List.isPrefixOf, hdot.symm]
  show (if ('.' == '.' && d.isDigit) = true then _
    else cutOperator ('.' :: d :: rest)) = _
  rw [hdigit]
  show cutOperator ('.' :: d :: rest) = _
  unfold cutOperator
  rw [hlead]
  rfl

/-- A blank is cut off before anything but another blank. -/
theorem leads_blank {d : Char} (h : isBlank d = false) (rest : List Char) :
    Leads ⟨.blank, [' ']⟩ (d :: rest) := by
  refine ⟨' ', [], rfl, ?_⟩
  show (LexemeClass.blank, ((d :: rest).takeWhile isBlank).length) = _
  rw [List.takeWhile_cons_of_neg (by simp [h])]

end Lexeme

end GoInventory
