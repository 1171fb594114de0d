import GoInventory.Proofs.Declaration.Joining
import GoInventory.Proofs.Syntax.Nodes
import GoInventory.Proofs.Tag.Escapes
import GoInventory.Proofs.Tag.Quoted
import Mathlib.Data.List.DropRight

/-!
# The tag of a member

The tag of a struct member is a string literal. The lexer ends a raw one at
the first back quote, and an interpreted one at the first quote that no
backslash takes with it, so each is a body between its two delimiters
(`Lexeme.raw_body`, `Lexeme.interpreted_body`). It does not look at the
escapes, hence an interpreted literal need not stand for any text; the tag is
then the body as it is written.

The delimiters are taken off by trimming quotes from both ends of the literal.
That takes one quote too many from a body that ends with a quote, which has a
backslash before it (`trimEnds_interpreted`), and is exact for all others
(`rawTag_of_literal`).
-/

namespace GoInventory

/-! ## The literals of a source -/

namespace QuotedExtent

/-- What the scan takes is a body, and the quote that ends it. -/
theorem quotedBody_of_scan {rest : List Char} (h : (scan '\x22' rest).closed = true) :
    ∃ body, rest.take (scan '\x22' rest).length = body ++ ['\x22'] ∧
      QuotedBody '\x22' '\\' body := by
  fun_induction scan '\x22' rest with
  | case1 => cases h
  | case2 => cases h
  | case3 => cases h
  | case4 c rest hline ih =>
    obtain ⟨body, htake, hbody⟩ := ih h
    refine ⟨'\\' :: c :: body, ?_, .pair hbody⟩
    show '\\' :: c :: rest.take (scan '\x22' rest).length = _
    rw [htake]
    rfl
  | case5 => cases h
  | case6 c rest _ _ _ hquote =>
    refine ⟨[], ?_, .nil⟩
    rw [eq_of_beq hquote]
    rfl
  | case7 c rest hnil hcons _ hquote ih =>
    obtain ⟨body, htake, hbody⟩ := ih h
    have hslash : c ≠ '\\' := by
      intro hc
      cases rest with
      | nil => exact hnil hc rfl
      | cons d rest => exact hcons d rest hc rfl
    refine ⟨c :: body, ?_, .single (fun hc => hquote (beq_iff_eq.mpr hc))
      hslash hbody⟩
    show c :: rest.take (scan '\x22' rest).length = _
    rw [htake]
    rfl

end QuotedExtent

theorem Number.kindFrom_cases {radix : Radix} {digit point : Bool} {text : List Char}
    {kind : LiteralKind} (h : kindFrom radix digit point text = some kind) :
    kind = .int ∨ kind = .float := by
  fun_induction kindFrom radix digit point text with
  | case1 => cases h
  | case2 =>
    cases h
    exact Or.inl rfl
  | case3 => cases h
  | case4 =>
    cases h
    exact Or.inr rfl
  | case5 _ _ _ _ _ ih => exact ih h
  | case6 _ _ _ _ _ _ ih => exact ih h
  | case7 =>
    cases h
    exact Or.inr rfl
  | case8 => cases h
  | case9 _ _ _ _ _ _ _ _ ih => exact ih h
  | case10 => cases h

/-- Lexemes of this class are string literals. -/
def LexemeClass.isText : LexemeClass → Bool
  | literal .string | literal .rawString => true
  | _ => false

namespace Lexeme

theorem cutNumber_isText (text : List Char) : (cutNumber text).1.isText = false := by
  have hreal : ∀ {body kind}, Number.realKind body = some kind →
      (LexemeClass.literal kind).isText = false := by
    intro body kind h
    rcases Number.kindFrom_cases h with rfl | rfl
    · rfl
    · rfl
  unfold cutNumber
  dsimp only
  split
  next kind h =>
    unfold Number.classify at h
    split at h
    next =>
      obtain ⟨-, -, rfl⟩ := Option.map_eq_some_iff.mp h
      rfl
    next => exact hreal h
  next => rfl

theorem cutRune_isText (rest : List Char) : (cutRune rest).1.isText = false := by
  have hquoted : (cutQuoted '\x27' .rune .unterminatedRune rest).1.isText
      = false := by
    unfold cutQuoted
    dsimp only
    split <;> rfl
  unfold cutRune
  split
  next h =>
    rw [h] at hquoted
    dsimp only
    split
    · rfl
    · exact hquoted
  next => exact hquoted

theorem cutWord_isText (c : Char) (rest : List Char) :
    (cutWord c rest).1.isText = false := by
  unfold cutWord
  dsimp only
  split <;> rfl

theorem cutOperator_isText (text : List Char) :
    (cutOperator text).1.isText = false := by
  unfold cutOperator
  split <;> rfl

/-- Only the ways of cutting strings give a text. -/
theorem FirstCut.text_inv {c : Char} {rest : List Char} {cut : Cut}
    (h : FirstCut c rest cut) (htext : cut.1.isText = true) :
    (c = '\x22' ∧ cutQuoted '\x22' .string .unterminatedString rest = cut) ∨
    (c = '\x60' ∧ cutRawString rest = cut) := by
  cases h with
  | quoted => exact Or.inl ⟨rfl, rfl⟩
  | rawString => exact Or.inr ⟨rfl, rfl⟩
  | blank | lineFeed | carriageReturn | byteOrderMark | lineComment | blockComment
      | openComment =>
    cases htext
  | word => cases (cutWord_isText c rest).symm.trans htext
  | operator => cases (cutOperator_isText (c :: rest)).symm.trans htext
  | number | fraction => cases (cutNumber_isText _).symm.trans htext
  | rune => cases (cutRune_isText rest).symm.trans htext

/-- Strings are cut at their quotes. -/
theorem cutFirst_text {c : Char} {rest : List Char} {cls : LexemeClass} {n : Nat}
    (h : cutFirst c rest = (cls, n)) (htext : cls.isText = true) :
    (c = '\x22' ∧ cutQuoted '\x22' .string .unterminatedString rest = (cls, n)) ∨
    (c = '\x60' ∧ cutRawString rest = (cls, n)) := by
  have hcut := firstCut c rest
  rw [h] at hcut
  exact hcut.text_inv htext

/-- An interpreted literal is a body between quotes. -/
theorem interpreted_body {source : List Char} {text : List Char}
    (h : ⟨.literal .string, text⟩ ∈ cut source) :
    ∃ body, text = '\x22' :: (body ++ ['\x22']) ∧ QuotedBody '\x22' '\\' body := by
  obtain ⟨c, rest, cls, n, hcut, heq⟩ := mem_cut h
  cases heq
  rcases cutFirst_text hcut rfl with ⟨rfl, hquoted⟩ | ⟨-, hraw⟩
  · unfold cutQuoted at hquoted
    dsimp only at hquoted
    obtain ⟨hcls, rfl⟩ := Prod.mk.inj hquoted
    split at hcls
    next hclosed =>
      obtain ⟨body, htake, hbody⟩ := QuotedExtent.quotedBody_of_scan hclosed
      exact ⟨body, by rw [htake], hbody⟩
    next => cases hcls
  · unfold cutRawString at hraw
    dsimp only at hraw
    split at hraw <;> cases hraw

/-- A raw literal is a body between back quotes, and has no other ones. -/
theorem raw_body {source : List Char} {text : List Char}
    (h : ⟨.literal .rawString, text⟩ ∈ cut source) :
    ∃ body, text = '\x60' :: (body ++ ['\x60']) ∧ '\x60' ∉ body := by
  obtain ⟨c, rest, cls, n, hcut, heq⟩ := mem_cut h
  cases heq
  rcases cutFirst_text hcut rfl with ⟨-, hquoted⟩ | ⟨rfl, hraw⟩
  · unfold cutQuoted at hquoted
    dsimp only at hquoted
    split at hquoted <;> cases hquoted
  · unfold cutRawString at hraw
    dsimp only at hraw
    split at hraw
    next hlt =>
      cases hraw
      have hbody : ∀ d ∈ rest.takeWhile (· != '\x60'), (d != '\x60') = true :=
        List.all_eq_true.mp List.all_takeWhile
      have hsplit := List.takeWhile_append_dropWhile (p := (· != '\x60')) (l := rest)
      have hhead := List.head?_dropWhile_not (· != '\x60') rest
      generalize rest.takeWhile (· != '\x60') = body at hlt hbody hsplit
      refine ⟨body, ?_, fun hmem => absurd rfl (bne_iff_ne.mp (hbody _ hmem))⟩
      -- there is more than the body, and that starts with a back quote
      cases hdrop : rest.dropWhile (· != '\x60') with
      | nil =>
        rw [hdrop, List.append_nil] at hsplit
        rw [hsplit] at hlt
        exact absurd hlt (Nat.lt_irrefl _)
      | cons d tail =>
        rw [hdrop] at hsplit hhead
        have hd : d = '\x60' := by simpa using hhead
        rw [← hsplit, hd, List.take_length_add_append]
        rfl
    next => cases hraw

end Lexeme

/-! ## Trimming -/

/-- Trimming takes off the delimiters, and more of a body that ends with one. -/
theorem trimEnds_delimited {c : Char} {body : List Char} (h : body.head? ≠ some c) :
    trimEnds c (c :: (body ++ [c])) = body.rdropWhile (· == c) := by
  unfold trimEnds
  cases body with
  | nil => simp
  | cons d rest =>
    have hd : (d == c) = false := beq_false_of_ne fun hdc => h (by rw [hdc]; rfl)
    have hstart : (c :: (d :: rest ++ [c])).dropWhile (· == c)
        = d :: rest ++ [c] := by
      simp [hd]
    rw [hstart, List.reverse_append]
    simp [List.rdropWhile]

theorem trimEnds_exact {c : Char} {body : List Char} (hhead : body.head? ≠ some c)
    (hlast : body.getLast? ≠ some c) : trimEnds c (c :: (body ++ [c])) = body := by
  rw [trimEnds_delimited hhead, List.rdropWhile_eq_self_iff]
  intro hne heq
  exact hlast (by rw [List.getLast?_eq_some_getLast hne, eq_of_beq heq])

/-- Trimming a raw literal leaves its body. -/
theorem trimEnds_raw {body : List Char} (h : '\x60' ∉ body) :
    trimEnds '\x60' ('\x60' :: (body ++ ['\x60'])) = body := by
  refine trimEnds_exact (fun hhead => h ?_) (fun hlast => h ?_)
  · exact List.mem_of_mem_head? hhead
  · exact List.mem_of_mem_getLast? hlast

/-- Trimming an interpreted literal leaves its body, but for a quote at
the end of it. -/
theorem trimEnds_interpreted {body : List Char} (h : QuotedBody '\x22' '\\' body) :
    trimEnds '\x22' ('\x22' :: (body ++ ['\x22']))
      = if body.getLast? = some '\x22' then body.dropLast else body := by
  have hhead := h.head?_ne (by decide)
  split
  next hlast =>
    obtain ⟨front, rfl⟩ := h.eq_append_of_getLast? hlast
    rw [trimEnds_delimited hhead]
    simp [List.rdropWhile]
  next hlast => exact trimEnds_exact hhead hlast

/-! ## Members -/

/-- Every token of a run is one of these. -/
def Placement.among (tokens : List Token) : Placement where
  allows := fun run => ∀ t ∈ run, t ∈ tokens
  fits := fun _ run => ∀ t ∈ run, t ∈ tokens
  allows_left := fun h t ht => h t (List.mem_append_left _ ht)
  allows_right := fun h t ht => h t (List.mem_append_right _ ht)
  fits_extent := fun h _ _ => h
  fits_since := fun h _ _ => h
  fits_join := fun h _ _ _ _ => h

/-- The members of a struct were read from tokens. -/
theorem Grammar.memberRun_of_hasType {F : Placement} {file : SourceFile}
    {run : List Token} {s : Span} {fields : List (Field TypeExpr)}
    {f : Field TypeExpr} (h : FileRun F file run)
    (ht : file.HasType (.struct s fields)) (hf : f ∈ fields) :
    ∃ part, MemberRun F (Spells F) f part := by
  have hform : ∃ part e, Spells F (.struct s fields) part e := by
    cases IsNode.of_fileRun h ht with
    | param hparam =>
      cases hparam with
      | plain hinner => exact ⟨_, hinner⟩
    | constraint hconstraint =>
      cases hconstraint with
      | plain hinner => exact ⟨_, hinner⟩
  obtain ⟨part, e, hspells⟩ := hform
  cases spells_iff.mp hspells with
  | struct _ _ hmembers _ => exact hmembers.item_of_mem hf

theorem Grammar.MemberRun.isString {F : Placement}
    {R : TypeExpr → List Token → Ending → Prop} {f : Field TypeExpr}
    {run : List Token} {lit : StringLit} (h : MemberRun F R f run)
    (htag : f.tag = some lit) : ∃ t, IsString F lit t := by
  cases h with
  | named _ _ hrun _ | embedded _ _ hrun _ =>
    cases hrun with
    | none => cases htag
    | some hlit =>
      cases htag
      exact ⟨_, hlit⟩

/-- The type of a declared struct stands in the file. -/
theorem SourceFile.hasType_of_declared {file : SourceFile} {name : String}
    {fields : List (Field TypeExpr)}
    (h : .type name (.struct fields) ∈ file.declarations) :
    ∃ s, file.HasType (.struct s fields) := by
  obtain ⟨d, hd, hof⟩ := List.mem_flatMap.mp h
  cases d with
  | imports => cases hof
  | consts group | vars group =>
    unfold Decl.declarations Declaration.ofValues at hof
    dsimp only at hof
    split at hof
    · cases hof
    · cases List.mem_singleton.mp hof
  | func decl => cases List.mem_singleton.mp hof
  | types group =>
    obtain ⟨spec, hspec, heq⟩ := List.mem_map.mp hof
    have htop : spec.type ∈ (Decl.types group).topTypes :=
      List.mem_flatMap.mpr ⟨spec, hspec, List.mem_append_right _ List.mem_cons_self⟩
    have htype : ∃ s, spec.type = .struct s fields := by
      have hunderlying : Underlying.ofType spec.type = .struct fields :=
        (Declaration.type.inj heq).2
      cases hspec : spec.type with
      | struct s fields' =>
        rw [hspec] at hunderlying
        cases hunderlying
        exact ⟨s, rfl⟩
      | _ =>
        rw [hspec] at hunderlying
        cases hunderlying
    obtain ⟨s, hs⟩ := htype
    exact ⟨s, _, hd, _, htop, hs ▸ .self⟩

/-- What the tag of a member is, by the token of its literal. A literal that
cannot be decoded loses its delimiters, and also the quote at the end of its
body, if there is one. -/
inductive TagOf : Tok → String → Prop
  | raw {text : String} {body : List Char} :
      text.toList = '\x60' :: (body ++ ['\x60']) → '\x60' ∉ body →
    TagOf (.literal .rawString text) (.ofList (body.filter (· != '\r')))
  | decoded {text content : String} {body : List Char} :
      text.toList = '\x22' :: (body ++ ['\x22']) →
    QuotedBody '\x22' '\\' body → EscapedText.Spells body (Text.bytes content) →
    TagOf (.literal .string text) content
  | undecoded {text : String} {body : List Char} :
      text.toList = '\x22' :: (body ++ ['\x22']) →
    QuotedBody '\x22' '\\' body →
      (∀ content, ¬ EscapedText.Spells body (Text.bytes content)) →
    body.getLast? ≠ some '\x22' → TagOf (.literal .string text) (.ofList body)
  | shortened {text : String} {front : List Char} :
    text.toList = '\x22' :: (front ++ ['\\', '\x22'] ++ ['\x22']) →
    QuotedBody '\x22' '\\' (front ++ ['\\', '\x22']) →
    (∀ content, ¬ EscapedText.Spells (front ++ ['\\', '\x22']) (Text.bytes content)) →
    TagOf (.literal .string text) (.ofList (front ++ ['\\']))

/-- The text of an interpreted literal gives its tag. -/
theorem tagOf_interpreted {text : String} {body : List Char} (s : Span)
    (htext : text.toList = '\x22' :: (body ++ ['\x22']))
    (hbody : QuotedBody '\x22' '\\' body) :
    TagOf (.literal .string text) (StringLit.tagText ⟨.interpreted, text, s⟩) := by
  unfold StringLit.tagText
  dsimp only
  cases hunquote : EscapedText.unquote? text.toList with
  | some content =>
    obtain ⟨body', htext', hspells⟩ := EscapedText.unquote?_eq_some_iff.mp hunquote
    -- the literal has one body only, so it is this one that spells the content
    have hsame : body = body' :=
      List.append_cancel_right (List.cons.inj (htext.symm.trans htext')).2
    subst hsame
    exact .decoded htext hbody hspells
  | none =>
    have hnone : ∀ content, ¬ EscapedText.Spells body (Text.bytes content) := by
      intro content hspells
      have hsome := EscapedText.unquote?_eq_some_iff.mpr ⟨body, htext, hspells⟩
      rw [hunquote] at hsome
      cases hsome
    rw [Option.getD_none, htext, trimEnds_interpreted hbody]
    split
    next hlast =>
      obtain ⟨front, rfl⟩ := hbody.eq_append_of_getLast? hlast
      have hdrop : (front ++ ['\\', '\x22']).dropLast = front ++ ['\\'] := by simp
      rw [hdrop]
      exact .shortened htext hbody hnone
    next hlast => exact .undecoded htext hbody hnone hlast

/-- A literal that was read from a token of a source has the tag that
the token gives. -/
theorem tagOf_of_isString {source : String} {F : Placement} {lit : StringLit}
    {t : Token} (h : Grammar.IsString F lit t) (ht : t ∈ (tokenize source).tokens) :
    TagOf t.tok lit.tagText := by
  have hplaced := (Token.tokenize_placed source).1 t ht
  cases h with
  | @interpreted _ text s htok _ =>
    obtain ⟨l, hl, hltok⟩ := hplaced.of_text text (by rw [htok]; rfl)
    rw [htok] at hltok ⊢
    rw [Lexeme.eq_of_tok?_literal hltok] at hl
    obtain ⟨body, htext, hbody⟩ := Lexeme.interpreted_body hl
    exact tagOf_interpreted s htext hbody
  | @raw _ text s htok _ =>
    obtain ⟨l, hl, hltok⟩ := hplaced.of_text text (by rw [htok]; rfl)
    rw [htok] at hltok ⊢
    rw [Lexeme.eq_of_tok?_literal hltok] at hl
    obtain ⟨body, htext, hbody⟩ := Lexeme.raw_body hl
    have htag : StringLit.tagText ⟨.raw, text, s⟩
        = .ofList (body.filter (· != '\r')) := by
      unfold StringLit.tagText
      dsimp only
      rw [htext, trimEnds_raw hbody]
    rw [htag]
    exact .raw htext hbody

/-- **The tag of a member is the content of its literal between the
delimiters**: without carriage returns if it is a raw one, decoded if it can
be, and as it is written if it cannot be decoded and does not end with an
escaped quote. -/
theorem rawTag_of_literal {source : String} {file : SourceFile} {name : String}
    {fields : List (Field TypeExpr)} {f : Field TypeExpr} {lit : StringLit}
    {m : Member} (h : parseSource source = .ok file)
    (hdeclared : .type name (.struct fields) ∈ file.declarations) (hf : f ∈ fields)
    (htag : f.tag = some lit) (hm : m ∈ Member.ofField f) :
    m ∈ file.membersOf name ∧
    ∃ t ∈ (tokenize source).tokens, t.tok.text? = some lit.text ∧
      TagOf t.tok m.rawTag := by
  have hrun : Grammar.FileRun (.among (tokenize source).tokens) file
      (tokenize source).tokens :=
    fileRun_of_parseTokens (parseTokens_of_parseSource h) fun _ ht => ht
  obtain ⟨s, hstruct⟩ := SourceFile.hasType_of_declared hdeclared
  obtain ⟨part, hmember⟩ := Grammar.memberRun_of_hasType hrun hstruct hf
  obtain ⟨t, hlit⟩ := hmember.isString htag
  have ht : t ∈ (tokenize source).tokens := by
    cases hlit with
    | interpreted _ hfits | raw _ hfits => exact hfits t List.mem_cons_self
  obtain ⟨n, -, rfl⟩ := List.mem_map.mp hm
  refine ⟨List.mem_flatMap.mpr ⟨_, hdeclared, ?_⟩, t, ht, ?_, ?_⟩
  · rw [Declaration.membersOf, if_pos (beq_self_eq_true name)]
    exact List.mem_flatMap.mpr ⟨f, hf, hm⟩
  · cases hlit with
    | interpreted htok _ | raw htok _ =>
      rw [htok]
      rfl
  · rw [htag]
    exact tagOf_of_isString hlit ht

/-- A struct whose one member has this tag. -/
def sampleTagged (literal : String) : String :=
  "package p\ntype S struct \x7b\n\tA int " ++ literal ++ "\n\x7d\n"

/-- A struct of which a named member has a tag. -/
def Declaration.isTagged : Declaration → Bool
  | type _ (.struct fields) => fields.any fun f => f.tag.isSome && !f.names.isEmpty
  | _ => false

/-- The literal of the sample cannot be decoded. -/
theorem rawTag_of_literal_undecoded :
    ∃ file name fields f lit m, parseSource (sampleTagged "\x22\\q\x22") = .ok file ∧
      .type name (.struct fields) ∈ file.declarations ∧ f ∈ fields ∧
      f.tag = some lit ∧ m ∈ Member.ofField f ∧
      m ∈ file.membersOf name ∧
      ∃ t ∈ (tokenize (sampleTagged "\x22\\q\x22")).tokens,
        t.tok.text? = some lit.text ∧ TagOf t.tok m.rawTag := by
  have hsample : (parseSource (sampleTagged "\x22\\q\x22")).toOption.any
      (fun file => file.declarations.any Declaration.isTagged) = true := by
    decide +kernel
  obtain ⟨file, hfile, htagged⟩ := exists_ok_of_any hsample
  obtain ⟨d, hdeclared, htagged⟩ := List.any_eq_true.mp htagged
  unfold Declaration.isTagged at htagged
  split at htagged
  next name fields =>
    obtain ⟨f, hf, hnamed⟩ := List.any_eq_true.mp htagged
    obtain ⟨htag, hnames⟩ := Bool.and_eq_true_iff.mp hnamed
    obtain ⟨lit, hlit⟩ := Option.isSome_iff_exists.mp htag
    obtain ⟨n, names, hcons⟩ :=
      List.exists_cons_of_ne_nil (show f.names ≠ [] by simpa using hnames)
    have hm : ⟨n.name, some f.type, tagText f.tag⟩ ∈ Member.ofField f :=
      List.mem_map.mpr ⟨n, hcons ▸ List.mem_cons_self, rfl⟩
    exact ⟨file, name, fields, f, lit, _, hfile, hdeclared, hf, hlit, hm,
      rawTag_of_literal hfile hdeclared hf hlit hm⟩
  next => cases htagged

/-- The literal `"\q\""` cannot be decoded, and its tag lacks the quote at the
end of the body `\q\"`. -/
theorem rawTag_shortened_quote :
    ∃ file, parseSource (sampleTagged "\x22\\q\\\x22\x22") = .ok file ∧
      (∃ t ∈ (tokenize (sampleTagged "\x22\\q\\\x22\x22")).tokens,
        t.tok = .literal .string "\x22\\q\\\x22\x22") ∧
      EscapedText.unquote? "\x22\\q\\\x22\x22".toList = none ∧
      (file.membersOf "S").map (·.rawTag) = ["\\q\\"] ∧
      (file.membersOf "S").map (·.rawTag) ≠ ["\\q\\\x22"] := by
  have hsample : (parseSource (sampleTagged "\x22\\q\\\x22\x22")).toOption.any
      (fun file => (file.membersOf "S").map (·.rawTag) == ["\\q\\"]) = true := by
    decide +kernel
  obtain ⟨file, hfile, htags⟩ := exists_ok_of_any hsample
  have htags := eq_of_beq htags
  refine ⟨file, hfile, ?_, rfl, htags, ?_⟩
  · have htokens : (tokenize (sampleTagged "\x22\\q\\\x22\x22")).tokens.any
        (fun t => t.tok == .literal .string "\x22\\q\\\x22\x22") = true := by
      decide +kernel
    obtain ⟨t, ht, htok⟩ := List.any_eq_true.mp htokens
    exact ⟨t, ht, eq_of_beq htok⟩
  · rw [htags]
    decide

end GoInventory
