import GoInventory.Proofs.Text.Slice
import GoInventory.Proofs.Token.FirstCut
import Mathlib.Data.List.TakeWhile

/-!
# What the lexemes of a source are

Every lexeme of a source is the first lexeme of the text that is left at
its place (`mem_cut`), so a statement about all lexemes is one about
`cutFirst`. Two such statements are used everywhere: a lexeme is never
empty, and of the lexemes that are no tokens only line breaks and block
comments can hold the end of a line.
-/

namespace GoInventory

namespace LexemeClass

/-- Lexemes of this class stand between tokens. -/
def isTrivia : LexemeClass → Bool
  | byteOrderMark | blank | lineBreak | lineComment | blockComment => true
  | ident | literal _ | keyword _ | op _ | fault _ => false

/-- Lexemes of this class are literals, or would be if they were not faulty. -/
def isLiteralOrFault : LexemeClass → Bool
  | literal _ | fault _ => true
  | _ => false

theorem isTrivia_eq_false {cls : LexemeClass} (h : cls.isLiteralOrFault = true) :
    cls.isTrivia = false := by
  cases cls with
  | literal | fault => rfl
  | _ => cases h

end LexemeClass

namespace Lexeme

/-- A lexeme of a source is what `cutFirst` takes from the text at its place. -/
theorem mem_cut {source : List Char} {l : Lexeme} (h : l ∈ cut source) :
    ∃ c rest cls n, cutFirst c rest = (cls, n) ∧ l = ⟨cls, c :: rest.take n⟩ := by
  fun_induction cut source with
  | case1 => cases h
  | case2 c rest cls n hcut ih =>
    rcases List.mem_cons.mp h with rfl | htail
    · exact ⟨c, rest, cls, n, hcut, rfl⟩
    · exact ih htail

/-- A lexeme of a source is not empty. -/
theorem text_ne_nil {source : List Char} {l : Lexeme} (h : l ∈ cut source) :
    l.text ≠ [] := by
  obtain ⟨c, rest, cls, n, -, rfl⟩ := mem_cut h
  exact List.cons_ne_nil _ _

/-- A lexeme of a source has at least one byte. -/
theorem byteLength_pos {source : List Char} {l : Lexeme} (h : l ∈ cut source) :
    0 < l.byteLength := by
  have hne := text_ne_nil h
  unfold byteLength
  cases htext : l.text with
  | nil => exact absurd htext hne
  | cons c cs =>
    rw [Text.byteLength_cons]
    have := Char.utf8Size_pos c
    omega

/-! ## The classes that each way of cutting gives -/

theorem cutQuoted_isLiteralOrFault (quote : Char) (kind : LiteralKind)
    (fault : LexFault) (rest : List Char) :
    (cutQuoted quote kind fault rest).1.isLiteralOrFault = true := by
  unfold cutQuoted
  dsimp only
  split <;> rfl

theorem cutRune_isLiteralOrFault (rest : List Char) :
    (cutRune rest).1.isLiteralOrFault = true := by
  have h := cutQuoted_isLiteralOrFault '\x27' .rune .unterminatedRune rest
  unfold cutRune
  split
  · dsimp only
    split <;> rfl
  · exact h

theorem cutRawString_isLiteralOrFault (rest : List Char) :
    (cutRawString rest).1.isLiteralOrFault = true := by
  unfold cutRawString
  dsimp only
  split <;> rfl

theorem cutNumber_isLiteralOrFault (text : List Char) :
    (cutNumber text).1.isLiteralOrFault = true := by
  unfold cutNumber
  dsimp only
  split <;> rfl

theorem cutWord_isTrivia (c : Char) (rest : List Char) :
    (cutWord c rest).1.isTrivia = false := by
  unfold cutWord
  dsimp only
  split <;> rfl

theorem cutOperator_isTrivia (text : List Char) :
    (cutOperator text).1.isTrivia = false := by
  unfold cutOperator
  split <;> rfl

/-- The ways in which trivia are cut from a text: what the text starts with, and
how far each kind reaches. -/
inductive TriviaCut : Char → List Char → LexemeClass → Nat → Prop
  | blank {c : Char} {rest : List Char} : isBlank c = true →
    TriviaCut c rest .blank (rest.takeWhile isBlank).length
  | lineFeed {rest : List Char} : TriviaCut '\n' rest .lineBreak 0
  | carriageReturn {rest : List Char} :
    TriviaCut '\r' rest .lineBreak (if rest.head? == some '\n' then 1 else 0)
  | byteOrderMark {rest : List Char} : TriviaCut '\uFEFF' rest .byteOrderMark 0
  | lineComment {rest : List Char} :
    TriviaCut '/' ('/' :: rest) .lineComment
      ((rest.takeWhile (!isLineEnd ·)).length + 1)
  | blockComment {rest : List Char} {n : Nat} : commentLength? rest = some n →
    TriviaCut '/' ('*' :: rest) .blockComment (n + 1)

/-- The ways of cutting that give trivia. -/
theorem FirstCut.trivia {c : Char} {rest : List Char} {cut : Cut}
    (h : FirstCut c rest cut) (ht : cut.1.isTrivia = true) :
    TriviaCut c rest cut.1 cut.2 := by
  cases h with
  | blank hblank => exact .blank hblank
  | lineFeed => exact .lineFeed
  | carriageReturn => exact .carriageReturn
  | byteOrderMark => exact .byteOrderMark
  | lineComment => exact .lineComment
  | blockComment hlength => exact .blockComment hlength
  | openComment => cases ht
  | word => cases (cutWord_isTrivia c rest).symm.trans ht
  | operator => cases (cutOperator_isTrivia (c :: rest)).symm.trans ht
  | number | fraction =>
    cases (LexemeClass.isTrivia_eq_false (cutNumber_isLiteralOrFault _)).symm.trans ht
  | quoted =>
    cases (LexemeClass.isTrivia_eq_false
      (cutQuoted_isLiteralOrFault _ _ _ _)).symm.trans ht
  | rune =>
    cases (LexemeClass.isTrivia_eq_false (cutRune_isLiteralOrFault _)).symm.trans ht
  | rawString =>
    cases (LexemeClass.isTrivia_eq_false
      (cutRawString_isLiteralOrFault _)).symm.trans ht

/-- Trivia are cut in these ways. -/
theorem TriviaCut.cutFirst_eq {c : Char} {rest : List Char} {cls : LexemeClass}
    {n : Nat} (h : TriviaCut c rest cls n) : cutFirst c rest = (cls, n) := by
  refine FirstCut.cutFirst_eq ?_
  cases h with
  | blank hblank => exact .blank hblank
  | lineFeed => exact .lineFeed
  | carriageReturn => exact .carriageReturn
  | byteOrderMark => exact .byteOrderMark
  | lineComment => exact .lineComment
  | blockComment hlength => exact .blockComment hlength

/-- And in no other. -/
theorem triviaCut_of_cutFirst {c : Char} {rest : List Char} {cls : LexemeClass}
    {n : Nat} (h : cutFirst c rest = (cls, n)) (ht : cls.isTrivia = true) :
    TriviaCut c rest cls n := by
  have hcut := firstCut c rest
  rw [h] at hcut
  exact hcut.trivia ht

/-! ## Line ends -/

theorem isLineEnd_iff {c : Char} : isLineEnd c = true ↔ c = '\n' ∨ c = '\r' := by
  simp [isLineEnd]

/-- The search for a line end in a lexeme is the search for a line end byte
in its bytes. -/
theorem lineEnd?_eq (l : Lexeme) :
    l.lineEnd? = (Text.encode l.text).findIdx? Text.isLineEndByte := by
  obtain ⟨cls, text⟩ := l
  unfold lineEnd?
  dsimp only
  induction text with
  | nil => rfl
  | cons c cs ih =>
    have hcons : Text.encode (c :: cs)
        = String.utf8EncodeChar c ++ Text.encode cs := by
      simp [Text.encode]
    rw [hcons, List.findIdx?_append]
    -- a line end is one byte, and no other character has its byte in its encoding
    cases hc : isLineEnd c with
    | true =>
      have hfirst : (String.utf8EncodeChar c).findIdx? Text.isLineEndByte
          = some 0 := by
        rcases isLineEnd_iff.mp hc with rfl | rfl <;> decide
      rw [hfirst]
      simp [hc]
    | false =>
      have hnone : (String.utf8EncodeChar c).findIdx? Text.isLineEndByte = none := by
        rw [List.findIdx?_eq_none_iff]
        refine Text.isLineEndByte_of_mem ?_ ?_
        · intro h; rw [isLineEnd_iff.mpr (Or.inl h)] at hc; cases hc
        · intro h; rw [isLineEnd_iff.mpr (Or.inr h)] at hc; cases hc
      rw [hnone, ← ih]
      simp only [hc, Bool.not_false, List.takeWhile_cons_of_pos, List.length_cons,
        String.length_utf8EncodeChar, Text.byteLength_cons, Option.none_or,
        Nat.add_lt_add_iff_right]
      split
      · simp [Nat.add_comm]
      · rfl

/-- A lexeme without a line end character has none to be found. -/
theorem lineEnd?_eq_none {l : Lexeme} (h : ∀ c ∈ l.text, isLineEnd c = false) :
    l.lineEnd? = none := by
  have hall : l.text.takeWhile (!isLineEnd ·) = l.text :=
    List.takeWhile_eq_self_iff.mpr fun c hc => by simp [h c hc]
  unfold lineEnd?
  dsimp only
  rw [hall, if_neg (Nat.lt_irrefl _)]

/-- Of the trivia, only line breaks and block comments can hold a line end. -/
theorem lineEnd?_of_trivia {source : List Char} {l : Lexeme} (h : l ∈ cut source)
    (ht : l.cls.isTrivia = true) (hb : l.cls ≠ .lineBreak)
    (hc : l.cls ≠ .blockComment) : l.lineEnd? = none := by
  obtain ⟨c, rest, cls, n, hcut, rfl⟩ := mem_cut h
  apply lineEnd?_eq_none
  cases triviaCut_of_cutFirst hcut ht with
  | blank hblank =>
    have hline : ∀ d, isBlank d = true → isLineEnd d = false := by
      intro d hd
      simp only [isBlank, Bool.or_eq_true, beq_iff_eq] at hd
      rcases hd with rfl | rfl <;> decide
    intro d hd
    dsimp only at hd
    rw [← List.prefix_iff_eq_take.mp (List.takeWhile_prefix isBlank)] at hd
    rcases List.mem_cons.mp hd with rfl | hd
    · exact hline _ hblank
    · exact hline _ (List.mem_takeWhile_imp hd)
  | lineFeed | carriageReturn => exact absurd rfl hb
  | byteOrderMark =>
    intro d hd
    simp only [List.take_zero, List.mem_singleton] at hd
    subst hd
    decide
  | lineComment =>
    intro d hd
    dsimp only at hd
    rw [List.take_succ_cons,
      ← List.prefix_iff_eq_take.mp (List.takeWhile_prefix _)] at hd
    rcases List.mem_cons.mp hd with rfl | hd
    · decide
    rcases List.mem_cons.mp hd with rfl | hd
    · decide
    · simpa using List.mem_takeWhile_imp hd
  | blockComment => exact absurd rfl hc

/-! ## What reading one lexeme can come to -/

/-- The token that a lexeme is, if it is one. -/
def tok? (l : Lexeme) : Option Tok :=
  match l.cls with
  | .ident => some (.ident (String.ofList l.text))
  | .literal kind => some (.literal kind (String.ofList l.text))
  | .keyword word => some (.keyword word)
  | .op operator => some (.op operator)
  | .byteOrderMark | .blank | .lineBreak | .lineComment | .blockComment | .fault _ =>
    none

/-- A token that carries a text carries that of its lexeme. -/
theorem text_of_tok? {l : Lexeme} {tok : Tok} {text : String} (h : l.tok? = some tok)
    (ht : tok.text? = some text) : text = String.ofList l.text := by
  unfold tok? at h
  cases hcls : l.cls <;> rw [hcls] at h <;> cases h
  · exact (Option.some.inj ht).symm
  · exact (Option.some.inj ht).symm
  · cases ht
  · cases ht

/-- Reading a lexeme passes over it, gives a semicolon for its first line end,
or gives a token or a fault that covers all of it. A line end is passed over
only where no statement can end. -/
theorem effect_cases {source : List Char} {l : Lexeme} (h : l ∈ cut source)
    (canEnd : Bool) (offset : Nat) :
    (l.effect canEnd offset = .pass ∧ (l.lineEnd? = none ∨ canEnd = false)) ∨
    (∃ n, l.effect canEnd offset = .semicolon (offset + n) ∧ canEnd = true ∧
      l.lineEnd? = some n) ∨
    (∃ tok, l.effect canEnd offset = .token tok ∧ l.tok? = some tok) ∨
    (∃ fault, l.effect canEnd offset = .fault fault) := by
  have hquiet := lineEnd?_of_trivia h
  unfold effect tok?
  cases hcls : l.cls with
  | byteOrderMark =>
    rw [hcls] at hquiet
    dsimp only
    split
    · exact Or.inl ⟨rfl, Or.inl (hquiet rfl (by simp) (by simp))⟩
    · exact Or.inr (Or.inr (Or.inr ⟨_, rfl⟩))
  | blank | lineComment =>
    rw [hcls] at hquiet
    exact Or.inl ⟨rfl, Or.inl (hquiet rfl (by simp) (by simp))⟩
  | lineBreak | blockComment =>
    dsimp only
    cases canEnd with
    | false => exact Or.inl ⟨rfl, Or.inr rfl⟩
    | true =>
      cases hend : l.lineEnd? with
      | none => exact Or.inl ⟨rfl, Or.inl rfl⟩
      | some n => exact Or.inr (Or.inl ⟨n, rfl, rfl, rfl⟩)
  | ident | literal kind | keyword word | op operator =>
    exact Or.inr (Or.inr (Or.inl ⟨_, rfl, rfl⟩))
  | fault fault => exact Or.inr (Or.inr (Or.inr ⟨_, rfl⟩))

/-- The reading that an effect adds for a lexeme between two offsets. -/
def Effect.reading? (start stop : Nat) : Effect → Option Reading
  | .pass => none
  | .semicolon place => some (.semicolon place)
  | .token tok => some (.ofTok start tok stop)
  | .fault found => some (.ofFault start found stop)

/-- Whether a statement can end after the effect. -/
def Effect.canEnd (before : Bool) : Effect → Bool
  | .pass => before
  | .token tok => tok.canEndStatement
  | .semicolon _ | .fault _ => false

end Lexeme

theorem readings_cons (canEnd : Bool) (offset : Nat) (l : Lexeme) (ls : List Lexeme) :
    readings canEnd offset (l :: ls)
      = ((l.effect canEnd offset).reading? offset (offset + l.byteLength)).toList
        ++ readings ((l.effect canEnd offset).canEnd canEnd)
          (offset + l.byteLength) ls := by
  rw [readings]
  cases l.effect canEnd offset <;> rfl

/-- The tokens read from a list of lexemes. -/
def tokensFrom (canEnd : Bool) (offset : Nat) (ls : List Lexeme) : List Token :=
  (readings canEnd offset ls).map (·.token)

/-- A source without diagnostics is read without a fault. -/
theorem fault?_of_diagnostics {source : String}
    (h : (tokenize source).diagnostics = []) :
    ∀ r ∈ readings false 0 (Lexeme.cut source.toList), r.fault? = none := by
  intro r hr
  have hnone := List.filterMap_eq_nil_iff.mp h r hr
  exact Option.map_eq_none_iff.mp hnone

end GoInventory
