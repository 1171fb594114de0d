import GoInventory.Proofs.Token.Lexemes
import Mathlib.Data.List.Chain

/-!
# Semicolon insertion

The reader of lexemes decides about semicolons piece by piece: a flag says
whether the last token can end a statement, a line break or a block comment may
answer it, and so may the end of the source. The rule of the language speaks of
whole gaps: between two neighbouring tokens stands one semicolon if the left one
can end a statement and the text between them holds a line end, and it stands at
the first line end; after the last token the end of the source counts as well.

`withSemicolons` states that rule on the tokens that are written in the
source, and `tokens_eq_withSemicolons` says that the token stream is its
result. The induction runs over the lexemes, and carries the text of the gap
that has been read so far: the flag is set exactly while the rule has found
nothing in it (`pending`).
-/

namespace GoInventory

/-- A semicolon that no byte of the source spells. -/
def Token.isInserted (t : Token) : Bool :=
  t.tok == .op .semicolon && t.start == t.stop

/-- The tokens after which the end of a line ends a statement: names, literals,
four keywords and five operators. -/
def Tok.EndsStatement (t : Tok) : Prop :=
  (∃ name, t = .ident name) ∨ (∃ kind text, t = .literal kind text) ∨
  t ∈ [.keyword .break, .keyword .continue, .keyword .fallthrough, .keyword .return,
    .op .increment, .op .decrement, .op .closeParen, .op .closeBracket,
      .op .closeBrace]

theorem Tok.canEndStatement_iff (t : Tok) :
    t.canEndStatement = true ↔ t.EndsStatement := by
  cases t with
  | ident name => exact ⟨fun _ => Or.inl ⟨name, rfl⟩, fun _ => rfl⟩
  | literal kind text =>
    exact ⟨fun _ => Or.inr (Or.inl ⟨kind, text, rfl⟩), fun _ => rfl⟩
  | keyword word => cases word <;> simp [canEndStatement, EndsStatement]
  | op operator => cases operator <;> simp [canEndStatement, EndsStatement]
  | error => simp [canEndStatement, EndsStatement]

instance (t : Tok) : Decidable t.EndsStatement :=
  decidable_of_iff (t.canEndStatement = true) t.canEndStatement_iff

/-- The place of the semicolon that the rule puts after `left`, if it puts one:
the first line end in the gap up to the token `right?`, or the end of the source
if no token follows. -/
def semicolonAfter? (source : String) (left : Token) (right? : Option Token) :
    Option Nat :=
  let stop := (right?.map (·.start)).getD (Text.byteLength source.toList)
  if left.tok.EndsStatement then
    match (Text.slice source left.stop stop).findIdx? Text.isLineEndByte, right? with
    | some i, _ => some (left.stop + i)
    | none, some _ => none
    | none, none => some stop
  else
    none

/-- The written tokens of a source with the semicolons that the rule
puts after them. -/
def withSemicolons (source : String) : List Token → List Token
  | [] => []
  | left :: rest =>
    left :: ((semicolonAfter? source left rest.head?).map
      Token.insertedSemicolon).toList
      ++ withSemicolons source rest

namespace Semicolons

/-- The semicolon that the rule finds after `left` in the part of the
gap read so far. -/
def pending (left : Token) (gap : List Char) : Option Nat :=
  if left.tok.canEndStatement then
    ((Text.encode gap).findIdx? Text.isLineEndByte).map (left.stop + ·)
  else none

/-- The reader's flag: the token can end a statement, and no semicolon has been
put after it. -/
def awaits (left : Token) (gap : List Char) : Bool :=
  left.tok.canEndStatement && (pending left gap).isNone

@[simp] theorem pending_nil (left : Token) : pending left [] = none := by
  unfold pending
  split <;> rfl

@[simp] theorem awaits_nil (left : Token) :
    awaits left [] = left.tok.canEndStatement := by
  simp [awaits]

/-- While a semicolon is awaited, none has been found. -/
theorem pending_of_awaits {left : Token} {gap : List Char}
    (h : awaits left gap = true) : pending left gap = none :=
  Option.isNone_iff_eq_none.mp (Bool.and_eq_true_iff.mp h).2

/-- More of the gap adds a semicolon only while one is awaited. -/
theorem pending_append (left : Token) (gap : List Char) (l : Lexeme) :
    pending left (gap ++ l.text) =
      if awaits left gap then l.lineEnd?.map (left.stop + Text.byteLength gap + ·)
      else pending left gap := by
  unfold awaits pending
  rw [Text.encode_append, List.findIdx?_append, ← Lexeme.lineEnd?_eq,
    Text.length_encode]
  cases left.tok.canEndStatement with
  | false => rfl
  | true =>
    cases (Text.encode gap).findIdx? Text.isLineEndByte with
    | some i => rfl
    | none =>
      cases l.lineEnd? with
      | none => rfl
      | some n => simp [Nat.add_comm, Nat.add_left_comm]

/-- Before another token the rule has the whole gap to search. -/
theorem semicolonAfter?_some {source : String} {left right : Token}
    {before gap rest : List Char} (hsource : source.toList = before ++ gap ++ rest)
    (hleft : left.stop = Text.byteLength before)
    (hright : right.start = left.stop + Text.byteLength gap) :
    semicolonAfter? source left (some right) = pending left gap := by
  have hslice : Text.slice source left.stop right.start = Text.encode gap :=
    Text.slice_eq_encode hsource hleft hright
  unfold semicolonAfter? pending
  simp only [Option.map_some, Option.getD_some, hslice, ← Tok.canEndStatement_iff]
  split
  · cases (Text.encode gap).findIdx? Text.isLineEndByte <;> rfl
  · rfl

/-- After the last token the end of the source stands for a line end. -/
theorem semicolonAfter?_none {source : String} {left : Token} {before gap : List Char}
    (hsource : source.toList = before ++ gap)
    (hleft : left.stop = Text.byteLength before) :
    semicolonAfter? source left none =
      if awaits left gap then some (left.stop + Text.byteLength gap)
        else pending left gap := by
  have hlen : Text.byteLength source.toList = left.stop + Text.byteLength gap := by
    rw [hsource, Text.byteLength_append, hleft]
  have hsplit : source.toList = before ++ gap ++ [] := by
    rw [hsource, List.append_nil]
  have hslice : Text.slice source left.stop (left.stop + Text.byteLength gap)
      = Text.encode gap :=
    Text.slice_eq_encode hsplit hleft rfl
  unfold semicolonAfter? awaits pending
  simp only [Option.map_none, Option.getD_none, hlen, hslice,
    ← Tok.canEndStatement_iff]
  cases left.tok.canEndStatement with
  | false => rfl
  | true => cases (Text.encode gap).findIdx? Text.isLineEndByte <;> rfl

/-- An inserted semicolon is one. -/
theorem isInserted_insertedSemicolon (offset : Nat) :
    (Token.insertedSemicolon offset).isInserted = true := by
  simp [Token.isInserted, Token.insertedSemicolon]

/-- A token that covers some bytes is no inserted semicolon. -/
theorem isInserted_of_lt {t : Token} (h : t.start < t.stop) :
    t.isInserted = false := by
  have hne : (t.start == t.stop) = false := by
    rw [beq_eq_false_iff_ne]
    omega
  simp [Token.isInserted, hne]

/-- Those of the tokens that are written in the source. -/
def written (tokens : List Token) : List Token :=
  tokens.filter (!·.isInserted)

theorem written_cons_inserted (offset : Nat) (tokens : List Token) :
    written (.insertedSemicolon offset :: tokens) = written tokens := by
  unfold written
  rw [List.filter_cons_of_neg (by simp [isInserted_insertedSemicolon])]

theorem written_cons_of_lt {t : Token} (h : t.start < t.stop) (tokens : List Token) :
    written (t :: tokens) = t :: written tokens := by
  unfold written
  rw [List.filter_cons_of_pos (by simp [isInserted_of_lt h])]

/-- The reader has read `gap` behind the token `left` and goes on as the rule
says: the semicolon that was found in the gap so far stands between the token
and what is still to be read. -/
def FollowsRule (source : String) (left : Token) (gap : List Char) (offset : Nat)
    (ls : List Lexeme) : Prop :=
  left :: ((pending left gap).map Token.insertedSemicolon).toList
      ++ tokensFrom (awaits left gap) offset ls
    = withSemicolons source (left :: written (tokensFrom (awaits left gap) offset ls))

section Gap

variable {source : String} {left : Token} {before gap : List Char} {offset : Nat}

/-- A lexeme in which nothing is found leaves the rule the same gap. -/
theorem pending_append_quiet {l : Lexeme}
    (hquiet : l.lineEnd? = none ∨ awaits left gap = false) :
    pending left (gap ++ l.text) = pending left gap ∧
    awaits left (gap ++ l.text) = awaits left gap := by
  have hsame : pending left (gap ++ l.text) = pending left gap := by
    rw [pending_append]
    rcases hquiet with hnone | hfalse
    · split
      next hawait =>
        rw [hnone, Option.map_none, pending_of_awaits hawait]
      next => rfl
    · rw [if_neg (by simp [hfalse])]
  exact ⟨hsame, by simp only [awaits, hsame]⟩

/-- The first line end in the gap is what the rule finds, and no
other is awaited. -/
theorem pending_append_lineEnd {l : Lexeme} {n : Nat}
    (hawait : awaits left gap = true) (hend : l.lineEnd? = some n) :
    pending left (gap ++ l.text) = some (left.stop + Text.byteLength gap + n) ∧
    awaits left (gap ++ l.text) = false := by
  have hfound : pending left (gap ++ l.text)
      = some (left.stop + Text.byteLength gap + n) := by
    rw [pending_append, if_pos hawait, hend]
    rfl
  exact ⟨hfound, by simp [awaits, hfound]⟩

/-- At the end of the source the reader inserts what the rule puts after
the last token. -/
theorem followsRule_nil (hsource : source.toList = before ++ gap)
    (hleft : left.stop = Text.byteLength before)
    (hoffset : offset = left.stop + Text.byteLength gap) :
    FollowsRule source left gap offset [] := by
  have hrule := semicolonAfter?_none hsource hleft
  unfold FollowsRule tokensFrom readings
  cases hawait : awaits left gap with
  | true =>
    have hnone := pending_of_awaits hawait
    rw [hawait, if_pos rfl, ← hoffset] at hrule
    simp [hnone, withSemicolons, Reading.semicolon, written,
      isInserted_insertedSemicolon, hrule]
  | false =>
    rw [hawait, if_neg (by simp)] at hrule
    simp [withSemicolons, written, hrule]

/-- A token that covers some bytes ends the gap, and a new one starts behind it. -/
theorem followsRule_token {rest : List Char} {ls : List Lexeme} {tok : Tok}
    {length : Nat} (hsource : source.toList = before ++ gap ++ rest)
    (hleft : left.stop = Text.byteLength before)
    (hoffset : offset = left.stop + Text.byteLength gap) (hpos : 0 < length)
    (hnext : FollowsRule source ⟨offset, tok, offset + length⟩ []
      (offset + length) ls) :
    left :: ((pending left gap).map Token.insertedSemicolon).toList
        ++ ⟨offset, tok, offset + length⟩ :: tokensFrom tok.canEndStatement
          (offset + length) ls
      = withSemicolons source (left :: written (⟨offset, tok, offset + length⟩
          :: tokensFrom tok.canEndStatement (offset + length) ls)) := by
  have hrule : semicolonAfter? source left (some ⟨offset, tok, offset + length⟩)
      = pending left gap := semicolonAfter?_some hsource hleft hoffset
  unfold FollowsRule at hnext
  rw [pending_nil, awaits_nil] at hnext
  rw [written_cons_of_lt (show offset < offset + length by omega), withSemicolons,
    List.head?_cons, hrule, List.cons_append, ← hnext]
  rfl

/-- A lexeme makes the gap longer or ends it. -/
theorem followsRule_cons {l : Lexeme} {ls : List Lexeme} {rest : List Char}
    (hl : l ∈ Lexeme.cut source.toList)
    (hsource : source.toList = before ++ gap ++ rest)
    (hleft : left.stop = Text.byteLength before)
    (hoffset : offset = left.stop + Text.byteLength gap)
    (hlonger : FollowsRule source left (gap ++ l.text) (offset + l.byteLength) ls)
    (hnext : ∀ tok, FollowsRule source ⟨offset, tok, offset + l.byteLength⟩ []
      (offset + l.byteLength) ls) : FollowsRule source left gap offset (l :: ls) := by
  have hpos := Lexeme.byteLength_pos hl
  unfold FollowsRule tokensFrom readings
  dsimp only
  rcases Lexeme.effect_cases hl (awaits left gap) offset with
    ⟨heff, hquiet⟩ | ⟨n, heff, hawait, hend⟩ | ⟨tok, heff, -⟩ | ⟨fault, heff⟩
  · obtain ⟨hsame, hflag⟩ := pending_append_quiet hquiet
    unfold FollowsRule at hlonger
    rw [hsame, hflag] at hlonger
    rw [heff]
    exact hlonger
  · obtain ⟨hfound, hflag⟩ := pending_append_lineEnd hawait hend
    unfold FollowsRule at hlonger
    rw [hfound, hflag] at hlonger
    rw [heff, hoffset, pending_of_awaits hawait]
    rw [hoffset] at hlonger
    dsimp only [Reading.semicolon]
    rw [List.map_cons, written_cons_inserted]
    exact hlonger
  · rw [heff]
    exact followsRule_token hsource hleft hoffset hpos (hnext tok)
  · rw [heff]
    exact followsRule_token hsource hleft hoffset hpos (hnext .error)

end Gap

/-- From a token on, with some of the gap after it read, the reader goes on as
the rule says. -/
theorem followsRule {source : String} :
    ∀ (ls : List Lexeme) (left : Token) (before gap : List Char) (offset : Nat),
      (∀ l ∈ ls, l ∈ Lexeme.cut source.toList) →
      source.toList = before ++ gap ++ ls.flatMap Lexeme.text →
      left.stop = Text.byteLength before → offset = left.stop + Text.byteLength gap →
      FollowsRule source left gap offset ls := by
  intro ls
  induction ls with
  | nil =>
    intro left before gap offset _ hsource hleft hoffset
    rw [List.flatMap_nil, List.append_nil] at hsource
    exact followsRule_nil hsource hleft hoffset
  | cons l ls ih =>
    intro left before gap offset hmem hsource hleft hoffset
    have hrest : ∀ m ∈ ls, m ∈ Lexeme.cut source.toList :=
      fun m hm => hmem m (List.mem_cons_of_mem _ hm)
    rw [List.flatMap_cons] at hsource
    refine followsRule_cons (hmem l (List.mem_cons_self ..))
      hsource hleft hoffset ?longer
      fun tok => ?next
    case longer =>
      refine ih left before (gap ++ l.text) _ hrest (by rw [hsource]; simp) hleft ?_
      rw [Text.byteLength_append, hoffset, Nat.add_assoc]
      rfl
    case next =>
      refine ih ⟨offset, tok, offset + l.byteLength⟩
        (before ++ gap ++ l.text) [] _ hrest
        (by rw [hsource]; simp) ?_ (by simp)
      simp only [Text.byteLength_append, hoffset, hleft]
      rfl

/-- Before the first token nothing is inserted, and from there on the
rule decides. -/
theorem tokensFrom_start {source : String} :
    ∀ (ls : List Lexeme) (before : List Char) (offset : Nat),
      (∀ l ∈ ls, l ∈ Lexeme.cut source.toList) →
      source.toList = before ++ ls.flatMap Lexeme.text →
      offset = Text.byteLength before →
      tokensFrom false offset ls
        = withSemicolons source (written (tokensFrom false offset ls)) := by
  intro ls
  induction ls with
  | nil => intro before offset _ _ _; rfl
  | cons l ls ih =>
    intro before offset hmem hsource hoffset
    have hl : l ∈ Lexeme.cut source.toList := hmem l (List.mem_cons_self ..)
    have hrest : ∀ m ∈ ls, m ∈ Lexeme.cut source.toList :=
      fun m hm => hmem m (List.mem_cons_of_mem _ hm)
    rw [List.flatMap_cons, ← List.append_assoc] at hsource
    have hpos := Lexeme.byteLength_pos hl
    have hstop : offset + l.byteLength = Text.byteLength (before ++ l.text) := by
      rw [Text.byteLength_append, hoffset]
      rfl
    -- the first token starts a gap, from which `followsRule` goes on
    have htoken : ∀ tok, (⟨offset, tok, offset + l.byteLength⟩ : Token)
          :: tokensFrom tok.canEndStatement (offset + l.byteLength) ls
        = withSemicolons source (written (⟨offset, tok, offset + l.byteLength⟩
            :: tokensFrom tok.canEndStatement (offset + l.byteLength) ls)) := by
      intro tok
      have hstep :=
        followsRule ls ⟨offset, tok, offset + l.byteLength⟩ (before ++ l.text) []
        (offset + l.byteLength) hrest (by rw [hsource, List.append_nil])
          hstop (by simp)
      unfold FollowsRule at hstep
      rw [pending_nil, awaits_nil] at hstep
      rw [written_cons_of_lt (show offset < offset + l.byteLength by omega)]
      exact hstep
    unfold tokensFrom readings
    dsimp only
    rcases Lexeme.effect_cases hl false offset with
      ⟨heff, -⟩ | ⟨n, -, hfalse, -⟩ | ⟨tok, heff, -⟩ | ⟨fault, heff⟩
    · rw [heff]
      exact ih (before ++ l.text) (offset + l.byteLength) hrest hsource hstop
    · cases hfalse
    · rw [heff]
      exact htoken tok
    · rw [heff]
      exact htoken .error

/-- The rule never puts a semicolon first. -/
theorem head?_withSemicolons (source : String) (tokens : List Token) :
    (withSemicolons source tokens).head? = tokens.head? := by
  cases tokens with
  | nil => rfl
  | cons t rest => rfl

/-- The rule never puts two semicolons next to each other. -/
theorem isChain_withSemicolons (source : String) :
    ∀ tokens : List Token, (∀ t ∈ tokens, t.isInserted = false) →
      (withSemicolons source tokens).IsChain
        fun a b => ¬(a.isInserted = true ∧ b.isInserted = true)
  | [], _ => List.IsChain.nil
  | left :: rest, h => by
    have hleft := h left (List.mem_cons_self ..)
    have hrest : ∀ t ∈ rest, t.isInserted = false :=
      fun t ht => h t (List.mem_cons_of_mem _ ht)
    have htail := isChain_withSemicolons source rest hrest
    have hhead : ∀ t ∈ (withSemicolons source rest).head?, t.isInserted = false := by
      intro t ht
      rw [head?_withSemicolons] at ht
      exact hrest t (List.mem_of_mem_head? ht)
    rw [withSemicolons]
    cases semicolonAfter? source left rest.head? with
    | none =>
      refine List.isChain_cons.mpr ⟨fun t _ => ?_, htail⟩
      simp [hleft]
    | some place =>
      refine List.isChain_cons.mpr ⟨fun t _ => ?_,
        List.isChain_cons.mpr ⟨fun t ht => ?_, htail⟩⟩
      · simp [hleft]
      · simp [hhead t ht]

end Semicolons

open Semicolons in
/-- **Semicolon insertion is the rule.** The token stream of a source is what
the rule makes of its written tokens: exactly one inserted semicolon in every
gap that calls for one, at the first line end of the gap or at the end of the
source, and none anywhere else. So the stream never starts with an inserted
semicolon, and no two of them are neighbours. -/
theorem tokens_eq_withSemicolons (source : String) :
    (tokenize source).tokens
        = withSemicolons source ((tokenize source).tokens.filter (!·.isInserted)) ∧
    (∀ t ∈ (tokenize source).tokens.head?, t.isInserted = false) ∧
    (tokenize source).tokens.IsChain
      fun a b => ¬(a.isInserted = true ∧ b.isInserted = true) := by
  have hrule : (tokenize source).tokens
      = withSemicolons source ((tokenize source).tokens.filter (!·.isInserted)) :=
    tokensFrom_start (Lexeme.cut source.toList) [] 0 (fun _ h => h)
      (by rw [Lexeme.flatMap_text_cut]; rfl) rfl
  have hwritten : ∀ t ∈ (tokenize source).tokens.filter (!·.isInserted),
      t.isInserted = false := by
    intro t ht
    simpa using (List.mem_filter.mp ht).2
  refine ⟨hrule, fun t ht => ?_, ?_⟩
  · rw [hrule, head?_withSemicolons] at ht
    exact hwritten t (List.mem_of_mem_head? ht)
  · rw [hrule]
    exact isChain_withSemicolons source _ hwritten

end GoInventory
