import GoInventory.Proofs.Syntax.Accounting
import GoInventory.Proofs.Syntax.Completeness
import GoInventory.Proofs.TypeText.Spelling

/-!
# Reading the text of a type again

A source that declares a type by its canonical text is accepted, and declares
that type, with empty bodies (`declares_render`). Three things come together:
the text is cut into tokens that spell the type, no matter that the source goes
on (`tokenize_declaring`); the brackets of an array are not taken for type
parameters (`atTypeParameters_of_spells`); and the parser reads what is spelled
(`Parser.reads_file`).
-/

namespace GoInventory

open Lexeme Grammar

/-- A source that declares the type `T` by the text. -/
def declaring (text : String) : String :=
  "package p\ntype T " ++ text ++ "\n"

/-! ## Tokens -/

/-- The lexemes before the text. -/
def declaringHead : List Lexeme :=
  [⟨.keyword .package, Keyword.package.spelling.toList⟩, ⟨.blank, [' ']⟩,
    ⟨.ident, ['p']⟩,
    ⟨.lineBreak, ['\n']⟩, ⟨.keyword .type, Keyword.type.spelling.toList⟩,
    ⟨.blank, [' ']⟩,
    ⟨.ident, ['T']⟩, ⟨.blank, [' ']⟩]

/-- The lexeme behind the text. -/
def declaringEnd : Lexeme :=
  ⟨.lineBreak, ['\n']⟩

theorem toList_declaring (text : String) :
    (declaring text).toList
      = declaringHead.flatMap Lexeme.text ++ (text.toList ++ ['\n']) := by
  have hhead : "package p\ntype T ".toList = declaringHead.flatMap Lexeme.text := by
    decide
  unfold declaring
  rw [String.toList_append, String.toList_append, hhead, List.append_assoc]
  rfl

theorem cuts_declaringHead {text : List Char} (h : Opens text) (rest : List Char) :
    Cuts declaringHead (text ++ rest) := by
  obtain ⟨c, more, rfl, hblank, -⟩ := h
  refine ⟨leads_keyword .package (endsWord_cons (by decide) _), ⟨_, _, rfl, rfl⟩,
    ⟨_, _, rfl, ?_⟩, ⟨_, _, rfl, rfl⟩,
    leads_keyword .type (endsWord_cons (by decide) _),
    ⟨_, _, rfl, rfl⟩, ⟨_, _, rfl, ?_⟩, leads_blank hblank (more ++ rest), trivial⟩
  · rw [cutFirst_of_isIdentStart (by decide)]
    exact cutWord_append (by simp) (endsWord_cons (by decide) _)
  · rw [cutFirst_of_isIdentStart (by decide)]
    exact cutWord_append (by simp) (endsWord_cons (by decide) _)

/-- The readings of what stands before the text. -/
theorem readings_declaringHead (more : List Lexeme) :
    ∃ offset, readings false 0 (declaringHead ++ more)
      = [.ofTok 0 (.keyword .package) 7, .ofTok 8 (.ident "p") 9, .semicolon 9,
          .ofTok 10 (.keyword .type) 14, .ofTok 15 (.ident "T") 16]
            ++ readings true offset more :=
  ⟨17, rfl⟩

/-- The line break behind the text is read as a semicolon or not at all. -/
theorem readings_lineBreak (canEnd : Bool) (offset : Nat) :
    readings canEnd offset [declaringEnd] = [] ∨
      readings canEnd offset [declaringEnd] = [.semicolon offset] := by
  cases canEnd with
  | false => exact Or.inl rfl
  | true => exact Or.inr rfl

/-- A file that holds the tokens of a text behind those of the head. -/
theorem tokenize_declaring {P : List Token → Prop} {text : String}
    (h : PrintedItem P text) :
    (tokenize (declaring text)).diagnostics = [] ∧
    ∃ run behind, (tokenize (declaring text)).tokens
        = [⟨0, .keyword .package, 7⟩, ⟨8, .ident "p", 9⟩, ⟨9, .op .semicolon, 9⟩,
            ⟨10, .keyword .type, 14⟩, ⟨15, .ident "T", 16⟩] ++ (run ++ behind) ∧
      P run ∧ (behind = [] ∨ ∃ t, behind = [t] ∧ t.tok = .op .semicolon) := by
  obtain ⟨hopens, toks, ⟨ls, hflat, hcuts, hplain, rfl⟩, hrun⟩ := h
  have hends : EndsWord ['\n'] := endsWord_cons (by decide) _
  -- each of the three parts is cut as it is alone, because of what stands behind it
  have hcut : cut (declaring text).toList
      = declaringHead ++ (ls ++ [declaringEnd]) := by
    have hbreak : Cuts [declaringEnd] [] := ⟨⟨_, _, rfl, rfl⟩, trivial⟩
    have htext : Cuts ls ([declaringEnd].flatMap Lexeme.text ++ []) :=
      hcuts ['\n'] hends
    have htail : Cuts (ls ++ [declaringEnd]) [] := htext.append hbreak
    have hhead : Cuts declaringHead
        ((ls ++ [declaringEnd]).flatMap Lexeme.text ++ []) := by
      rw [List.flatMap_append, hflat, List.append_assoc]
      exact cuts_declaringHead hopens ([declaringEnd].flatMap Lexeme.text ++ [])
    have hall : Cuts (declaringHead ++ (ls ++ [declaringEnd])) [] :=
      Cuts.append hhead htail
    have htext : (declaring text).toList
        = (declaringHead ++ (ls ++ [declaringEnd])).flatMap Lexeme.text ++ [] := by
      rw [List.flatMap_append, List.flatMap_append, hflat, List.append_nil,
        toList_declaring]
      rfl
    rw [htext, cut_append hall, cut, List.append_nil]
  obtain ⟨offset, hhead⟩ := readings_declaringHead (ls ++ [declaringEnd])
  obtain ⟨found, canEnd, offset', hfound, htoks, hfaults⟩ :=
    readings_append hplain [declaringEnd] true offset
  -- nothing in the text is a fault, so the source is not rejected before it is parsed
  have hquiet : found.filterMap (·.diagnostic?) = [] := by
    refine List.filterMap_eq_nil_iff.mpr fun r hr => ?_
    unfold Reading.diagnostic?
    rw [hfaults r hr]
    rfl
  unfold tokenize
  dsimp only
  rw [hcut, hhead, hfound]
  refine ⟨?_, found.map (·.token),
    (readings canEnd offset' [declaringEnd]).map (·.token),
    ?_, ?_, ?_⟩
  · rw [List.filterMap_append, List.filterMap_append, hquiet]
    rcases readings_lineBreak canEnd offset' with heq | heq <;> rw [heq] <;> rfl
  · rw [List.map_append, List.map_append]
    rfl
  · refine hrun _ ?_
    rw [List.map_map]
    exact htoks
  · rcases readings_lineBreak canEnd offset' with heq | heq
    · exact Or.inl (by rw [heq]; rfl)
    · exact Or.inr ⟨_, by rw [heq]; rfl, rfl⟩

/-! ## The declaration -/

/-- A length that has a text is not taken for type parameters. -/
theorem bracketsDeclareTypes_of_bound {c : Cursor} {lb rb : Token}
    {lengthRun rest : List Token} {length : ArrayLength} {whole : Span}
    {text : String} (h : Bound .anywhere length lengthRun)
    (hr : length.render whole = .ok text) (hrb : rb.tok = .op .closeBracket)
    (hc : c.rest = lb :: lengthRun ++ rb :: rest) :
    c.bracketsDeclareTypes = false := by
  cases h with
  | ellipsis => cases hr
  | @expr length first run _ _ hlen =>
    have hpeek : c.peek? 1 = some first.tok := by simp [Cursor.peek?, hc]
    generalize hrun : first :: run = lengthRun at hlen
    cases hlen with
    | ident ht =>
      cases hrun
      have hpeek' : c.peek? 2 = some rb.tok := by simp [Cursor.peek?, hc]
      unfold Cursor.bracketsDeclareTypes declaresTypes
      rw [hpeek, hpeek', ht.1, hrb]
    | @selector s pkg sel t dot u ht hdot hu _ =>
      cases hrun
      have hpeek' : c.peek? 2 = some dot.tok := by simp [Cursor.peek?, hc]
      unfold Cursor.bracketsDeclareTypes declaresTypes
      rw [hpeek, hpeek', ht.1, hdot]
    | literal ht _ =>
      cases hrun
      unfold Cursor.bracketsDeclareTypes declaresTypes
      rw [hpeek, ht]
    | other => cases hr

/-- No type that has a text starts like type parameters do. -/
theorem atTypeParameters_of_spells {c : Cursor} {t : TypeExpr} {run rest : List Token}
    {e : Ending} {text : String} (h : Spells .anywhere t run e)
    (hr : t.render = .ok text) (hc : c.rest = run ++ rest) :
    c.atTypeParameters = false := by
  obtain ⟨first, more, hrun, hfirst⟩ := (spells_iff.mp h).announced
  have hpeek : c.peek? 0 = some first.tok := by simp [Cursor.peek?, hc, hrun]
  by_cases hbracket : first.tok = .op .openBracket
  · rw [hbracket] at hfirst
    refine Bool.and_eq_false_iff.mpr (Or.inr ?_)
    rcases eq_of_announcedBy_openBracket hfirst with ⟨s, elem, rfl⟩
      | ⟨s, length, elem, rfl⟩
    · cases spells_iff.mp h with
      | @slice _ _ lb rb run e _ hrb _ _ =>
        have hnext : c.peek? 1 = some rb.tok := by simp [Cursor.peek?, hc]
        unfold Cursor.bracketsDeclareTypes declaresTypes
        rw [hnext, hrb]
    · cases spells_iff.mp h with
      | array _ hbound hrb _ _ =>
        rw [TypeExpr.render] at hr
        obtain ⟨lengthText, hlength, -⟩ := except_bind_eq_ok hr
        exact bracketsDeclareTypes_of_bound hbound hlength hrb
          (by rw [hc, List.append_assoc]; rfl)
  · refine Bool.and_eq_false_iff.mpr (Or.inl ?_)
    rw [hpeek]
    simpa using hbracket

/-- The spec defines the type, up to spans, without type parameters. -/
def TypeSpec.Defines (t : TypeExpr) (spec : TypeSpec) : Prop :=
  spec.typeParams = [] ∧ spec.isAlias = false ∧ spec.type.eraseSpans = t.eraseSpans

namespace Parser

variable {c : Cursor} {rest : List Token}

theorem reads_semicolons_none (hc : c.rest = rest)
    (h : ∀ t ∈ rest.head?, t.tok ≠ .op .semicolon) :
    Reads semicolons c rest fun _ => True := by
  show Reads (semicolonItems (c.rest.length + 1)) c rest fun _ => True
  refine (reads_eat_not hc h).bind fun b c₁ hc₁ hb => ?_
  subst hb
  exact Reads.pure hc₁ trivial

theorem reads_terminator {expected : Expected} {t : Token} (hc : c.rest = t :: rest)
    (ht : t.tok = .op .semicolon) :
    Reads (terminator expected) c rest fun _ => True :=
  ⟨(), c.after t rest, by
    simp [terminator, AtCursor.terminator, hc, ht], rfl, trivial⟩

theorem reads_terminator_none {expected : Expected} (hc : c.rest = []) :
    Reads (terminator expected) c [] fun _ => True :=
  ⟨(), c, by simp [terminator, AtCursor.terminator, hc], hc, trivial⟩

/-- A name and a type that has a text are a type definition. -/
theorem reads_typeSpec {t : TypeExpr} {name : Token} {text word : String}
    {run : List Token} {e : Ending} (hname : name.tok = .ident word)
    (h : Spells .anywhere t run e) (hr : t.render = .ok text)
    (hc : c.rest = name :: (run ++ rest)) (hstop : e.Stops rest) :
    Reads typeSpec c rest (TypeSpec.Defines t) := by
  obtain ⟨first, more, hrun, hfirst⟩ := (spells_iff.mp h).announced
  have hassign : ∀ u ∈ (run ++ rest).head?, u.tok ≠ .op .assign := by
    intro u hu heq
    rw [hrun] at hu
    cases hu
    have hstarts := startsType_of_announcedBy hfirst
    rw [heq] at hstarts
    cases hstarts
  refine (reads_ident hc hname).bind fun n c₁ hc₁ _ => ?_
  have hparams : Reads specTypeParameters c₁ (run ++ rest) (· = []) := by
    refine (reads_ask _ hc₁).bind fun b c₂ hc₂ hb => ?_
    rw [hb, atTypeParameters_of_spells h hr hc₁]
    exact Reads.pure hc₂ rfl
  refine hparams.bind fun params c₂ hc₂ hparams => ?_
  refine (reads_eat_not hc₂ hassign).bind fun b c₃ hc₃ hb => ?_
  refine (readsTypes_typeExpr h hc₃ hstop).bind fun t' c₄ hc₄ ht' => ?_
  exact Reads.pure hc₄ ⟨hparams, hb, ht'⟩

/-- Behind its keyword, a definition is the only spec of a declaration. -/
theorem reads_typeDecl {D : TypeSpec → Prop} {kw name : Token} {word : String}
    {run : List Token} (hkw : kw.tok = .keyword .type)
    (hname : name.tok = .ident word)
    (hspec : ∀ {c : Cursor}, c.rest = name :: (run ++ rest) → Reads typeSpec c rest D)
    (hc : c.rest = kw :: name :: (run ++ rest)) :
    Reads decl c rest fun d => ∃ spec span, d = .types ⟨[spec], false,
      span⟩ ∧ D spec := by
  refine (reads_peek hc).bind fun tok c₁ hc₁ htok => ?_
  rw [htok, hkw]
  have hgroup : Reads (group fun _ => typeSpec) c₁ rest fun g =>
      ∃ spec span, g = ⟨[spec], false, span⟩ ∧ D spec := by
    refine (reads_here hc₁).bind fun start c₂ hc₂ _ => ?_
    refine (reads_advance hc₂).bind fun _ c₃ hc₃ _ => ?_
    refine (reads_eat_not hc₃ ?_).bind fun b c₄ hc₄ hb => ?_
    · intro u hu heq
      cases hu
      rw [hname] at heq
      cases heq
    subst hb
    refine (hspec hc₄).bind fun spec c₅ hc₅ hspec => ?_
    refine (reads_since hc₅).bind fun span c₆ hc₆ _ => ?_
    exact Reads.pure hc₆ ⟨spec, span, rfl, hspec⟩
  refine hgroup.bind fun g c₂ hc₂ hg => ?_
  obtain ⟨spec, span, rfl, hspec⟩ := hg
  exact Reads.pure hc₂ ⟨spec, span, rfl, hspec⟩

/-- At the end of the file there is no declaration. -/
theorem reads_declItems_none {bound : Nat} (hc : c.rest = []) :
    Reads (declItems decl (bound + 1)) c [] (· = []) := by
  refine (reads_semicolons_none hc fun u hu => by cases hu).bind fun _ c₁ hc₁ _ => ?_
  refine (reads_peek_none hc₁).bind fun tok c₂ hc₂ htok => ?_
  rw [htok]
  exact Reads.pure hc₂ rfl

/-- One declaration, up to the end of the file. -/
theorem reads_declItems {D : Decl → Prop} {first : Token} {run behind : List Token}
    {bound : Nat} (hfirst : first.tok ≠ .op .semicolon)
    (hbehind : behind = [] ∨ ∃ u, behind = [u] ∧ u.tok = .op .semicolon)
    (hdecl : ∀ {c : Cursor}, c.rest = first :: (run ++ behind) →
      Reads decl c behind D)
    (hc : c.rest = first :: (run ++ behind)) :
    Reads (declItems decl (bound + 2)) c [] fun ds => ∃ d, ds = [d] ∧ D d := by
  have hend : ∀ {c : Cursor}, c.rest = behind →
      Reads (terminator .declarationEnd) c [] fun _ => True := by
    intro c hc
    rcases hbehind with rfl | ⟨u, rfl, hu⟩
    · exact reads_terminator_none hc
    · exact reads_terminator hc hu
  refine (reads_semicolons_none hc ?_).bind fun _ c₁ hc₁ _ => ?_
  · intro u hu
    cases hu
    exact hfirst
  refine (reads_peek hc₁).bind fun tok c₂ hc₂ htok => ?_
  rw [htok]
  refine (hdecl hc₂).bind fun d c₃ hc₃ hd => ?_
  refine (hend hc₃).bind fun _ c₄ hc₄ _ => ?_
  refine (reads_declItems_none hc₄).bind fun ds c₅ hc₅ hds => ?_
  exact Reads.pure hc₅ ⟨d, by rw [hds], hd⟩

/-- A package clause and one declaration. -/
theorem reads_file_single {D : Decl → Prop} {package p semi first : Token}
    {pkg : String} {run behind : List Token}
    (hpackage : package.tok = .keyword .package) (hp : p.tok = .ident pkg)
    (hsemi : semi.tok = .op .semicolon) (hfirst : first.tok ≠ .op .semicolon)
    (hbehind : behind = [] ∨ ∃ u, behind = [u] ∧ u.tok = .op .semicolon)
    (hdecl : ∀ {c : Cursor}, c.rest = first :: (run ++ behind) →
      Reads decl c behind D)
    (hc : c.rest = package :: p :: semi :: first :: (run ++ behind)) :
    Reads file c [] fun f => f.package.name = pkg ∧ ∃ d, f.decls = [d] ∧ D d := by
  refine (reads_semicolons_none hc ?_).bind fun _ c₁ hc₁ _ => ?_
  · intro u hu heq
    cases hu
    rw [hpackage] at heq
    cases heq
  refine (reads_expect hc₁ hpackage).bind fun _ c₂ hc₂ _ => ?_
  refine (reads_ident hc₂ hp).bind fun n c₃ hc₃ hn => ?_
  refine (reads_terminator hc₃ hsemi).bind fun _ c₄ hc₄ _ => ?_
  have hdecls : Reads (declList decl) c₄ [] fun ds => ∃ d, ds = [d] ∧ D d := by
    show Reads (declItems decl (c₄.rest.length + 1)) c₄ [] _
    have hlength : c₄.rest.length = (run ++ behind).length + 1 := by rw [hc₄]; rfl
    rw [hlength]
    exact reads_declItems hfirst hbehind hdecl hc₄
  refine hdecls.bind fun ds c₅ hc₅ hds => ?_
  exact Reads.pure hc₅ ⟨hn, hds⟩

/-- The declaration of a type by what spells it. -/
theorem reads_file {t : TypeExpr} {package p semi kw name : Token}
    {text pkg word : String} {run behind : List Token} {e : Ending}
    (hpackage : package.tok = .keyword .package) (hp : p.tok = .ident pkg)
    (hsemi : semi.tok = .op .semicolon) (hkw : kw.tok = .keyword .type)
    (hname : name.tok = .ident word) (h : Spells .anywhere t run e)
    (hr : t.render = .ok text)
    (hbehind : behind = [] ∨ ∃ u, behind = [u] ∧ u.tok = .op .semicolon)
    (hc : c.rest = package :: p :: semi :: kw :: name :: (run ++ behind)) :
    Reads file c [] fun f =>
      ∃ spec span, f.decls = [.types ⟨[spec], false, span⟩] ∧ spec.Defines t := by
  have hstop : e.Stops behind := by
    rcases hbehind with rfl | ⟨u, rfl, hu⟩
    · intro u hu
      cases hu
    · exact Ending.stops_cons hu rfl nofun e []
  have hdecl : ∀ {c : Cursor}, c.rest = kw :: (name :: run ++ behind) →
    Reads decl c behind fun d =>
      ∃ spec span, d = .types ⟨[spec], false, span⟩ ∧ spec.Defines t :=
    fun hc => reads_typeDecl hkw hname
      (fun hc => reads_typeSpec hname h hr hc hstop) hc
  refine (reads_file_single hpackage hp hsemi (by rw [hkw]; nofun)
    hbehind hdecl hc).mono fun f hf => ?_
  obtain ⟨-, d, hdecls, spec, span, rfl, hspec⟩ := hf
  exact ⟨spec, span, hdecls, hspec⟩

end Parser

/-- **The text of a type declares the type again.** Take any type of an accepted
source, other than `...T`, that has a text and in which `...` stands before the
types of parameters only. A source that declares `T` by this text is accepted,
declares nothing else, and the type it declares is the one that the text was
made of, up to spans and with empty bodies. Its text is the same. -/
theorem declares_render {source text : String} {file : SourceFile} {t : TypeExpr}
    (h : parseSource source = .ok file) (ht : file.HasType t)
    (hdots : ∀ s elem, t ≠ .variadic s elem) (hparams : t.DotsInParams)
    (hr : t.render = .ok text) :
    ∃ file' spec span, parseSource (declaring text) = .ok file' ∧
      file'.decls = [.types ⟨[spec], false, span⟩] ∧ spec.typeParams = [] ∧
      spec.isAlias = false ∧
      spec.type.eraseSpans = t.withoutBodies.eraseSpans ∧
      spec.type.render = .ok text := by
  have hunion : ∀ s terms, t ≠ .union s terms := by
    intro s terms heq
    subst heq
    cases hr
  obtain ⟨run, e, hspells⟩ :=
    spells_of_hasType (parseTokens_of_parseSource h) ht hdots hunion
  obtain ⟨hquiet, run', behind, htokens, ⟨e', hrun⟩, hbehind⟩ :=
    tokenize_declaring (printed_of_spells t hspells hparams hr)
  have hr' : t.withoutBodies.render = .ok text := by
    rw [TypeExpr.render_withoutBodies, hr]
  obtain ⟨file', c', hok, -, spec, span, hdecls, htypeParams, halias, htype⟩ :=
    Parser.reads_file (c := .start (tokenize (declaring text)).tokens
      (Text.byteLength (declaring text).toList))
        rfl rfl rfl rfl rfl hrun hr' hbehind htokens
  refine ⟨file', spec, span, ?_, hdecls, htypeParams, halias, htype,
    TypeExpr.render_of_eraseSpans_eq htype hr'⟩
  unfold parseSource
  dsimp only
  rw [hquiet]
  unfold parseTokens
  rw [hok]
  rfl

/-- A variable whose type has a variadic parameter and a struct with a member. -/
def sampleVar : String :=
  "package p\nvar v func(a, b ...T) [5]struct\x7bx T\x7d\n"

/-- The type of the variable. -/
def sampleVarType : TypeExpr :=
  .func ⟨16, 46⟩
    ⟨[⟨[⟨"a", ⟨21, 22⟩⟩, ⟨"b", ⟨24, 25⟩⟩],
        .variadic ⟨26, 30⟩ (.named (.plain ⟨"T", ⟨29, 30⟩⟩)), none, ⟨21, 30⟩⟩],
      [⟨[], .array ⟨32, 46⟩ (.expr (.literal ⟨33, 34⟩ .int "5"))
        (.struct ⟨35, 46⟩
          [⟨[⟨"x", ⟨42, 43⟩⟩], .named (.plain ⟨"T", ⟨44, 45⟩⟩), none, ⟨42, 45⟩⟩]),
            none, ⟨32, 46⟩⟩],
      ⟨20, 46⟩⟩

/-- The tokens of the source. -/
def sampleVarTokens : List Token :=
  [⟨0, .keyword .package, 7⟩, ⟨8, .ident "p", 9⟩, ⟨9, .op .semicolon, 9⟩,
    ⟨10, .keyword .var, 13⟩,
    ⟨14, .ident "v", 15⟩, ⟨16, .keyword .func, 20⟩, ⟨20, .op .openParen, 21⟩,
    ⟨21, .ident "a", 22⟩,
    ⟨22, .op .comma, 23⟩, ⟨24, .ident "b", 25⟩, ⟨26, .op .ellipsis, 29⟩,
    ⟨29, .ident "T", 30⟩,
    ⟨30, .op .closeParen, 31⟩, ⟨32, .op .openBracket, 33⟩,
    ⟨33, .literal .int "5", 34⟩,
    ⟨34, .op .closeBracket, 35⟩, ⟨35, .keyword .struct, 41⟩, ⟨41, .op .openBrace, 42⟩,
    ⟨42, .ident "x", 43⟩, ⟨44, .ident "T", 45⟩, ⟨45, .op .closeBrace, 46⟩,
      ⟨46, .op .semicolon, 46⟩]

/-- The file that the source is. -/
def sampleVarFile : SourceFile :=
  ⟨⟨"p", ⟨8, 9⟩⟩,
    [.vars ⟨[⟨[⟨"v", ⟨14, 15⟩⟩], some sampleVarType, none⟩], false, ⟨10, 46⟩⟩]⟩

theorem parseSource_sampleVar : parseSource sampleVar = .ok sampleVarFile := by
  have htokens : tokenize sampleVar = ⟨sampleVarTokens, []⟩ := by decide +kernel
  have hparse : parseTokens sampleVarTokens (Text.byteLength sampleVar.toList)
      = .ok sampleVarFile := by
    rfl
  unfold parseSource
  rw [htokens]
  dsimp only
  rw [hparse]
  rfl

theorem sampleVarType_dotsInParams : sampleVarType.DotsInParams := by
  have hname : ∀ n, (TypeExpr.named n).DotsInParams := fun _ =>
    TypeExpr.dotsInParams_iff.mpr ⟨nofun, nofun⟩
  have hbody : ∀ s fields, (TypeExpr.struct s fields).DotsInParams := fun _ _ =>
    TypeExpr.dotsInParams_iff.mpr ⟨nofun, nofun⟩
  refine TypeExpr.dotsInParams_iff.mpr ⟨?_, ?_⟩
  · intro c hc
    rw [List.mem_singleton.mp hc]
    nofun
  · intro c hc
    rcases List.mem_cons.mp hc with rfl | hc
    · refine TypeExpr.dotsInParams_iff.mpr ⟨?_, ?_⟩ <;> intro c hc <;>
        rw [List.mem_singleton.mp hc]
      · nofun
      · exact hname _
    · rw [List.mem_singleton.mp hc]
      refine TypeExpr.dotsInParams_iff.mpr ⟨?_, ?_⟩ <;> intro c hc <;>
        rw [List.mem_singleton.mp hc]
      · nofun
      · exact hbody _ _

/-- The sample is declared again by its text, in which the member of the
struct is gone. -/
theorem declares_render_sampleVar :
    parseSource sampleVar = .ok sampleVarFile ∧ sampleVarFile.HasType sampleVarType ∧
    sampleVarType.DotsInParams ∧
    sampleVarType.render = .ok "func(a, b ...T) [5]struct\x7b\x7d" ∧
    ∃ file' spec span, parseSource (declaring "func(a, b ...T) [5]struct\x7b\x7d")
      = .ok file' ∧
      file'.decls = [.types ⟨[spec], false, span⟩] ∧ spec.typeParams = [] ∧
      spec.isAlias = false ∧
      spec.type.eraseSpans = sampleVarType.withoutBodies.eraseSpans ∧
      spec.type.render = .ok "func(a, b ...T) [5]struct\x7b\x7d" := by
  have htype : sampleVarFile.HasType sampleVarType :=
    ⟨_, List.mem_cons_self, _, List.mem_cons_self, .self⟩
  have htext : sampleVarType.render = .ok "func(a, b ...T) [5]struct\x7b\x7d" := rfl
  exact ⟨parseSource_sampleVar, htype, sampleVarType_dotsInParams, htext,
    declares_render parseSource_sampleVar htype nofun
      sampleVarType_dotsInParams htext⟩

end GoInventory
