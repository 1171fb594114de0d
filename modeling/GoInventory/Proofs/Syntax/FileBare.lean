import GoInventory.Proofs.Syntax.FileMoving
import GoInventory.Proofs.Syntax.TypeBare

/-!
# Files without their places

No parser decides anything by the offsets of its tokens, up to the parser of
whole files (`mirrors_file`). So whether tokens are a file, and which one up to
spans, depends on what the tokens are and in which order they stand
(`parseTokens_congr`), and an error is reported within the source
(`span_of_parseTokens_error`).
-/

namespace GoInventory

/-- The file with all its offsets mapped. -/
def SourceFile.mapOffsets (g : Nat → Nat) (file : SourceFile) : SourceFile :=
  ⟨file.package.mapOffsets g, file.decls.map (Decl.mapOffsets g)⟩

/-- The file without its offsets. Two files are the same up to spans if this
makes them equal. -/
def SourceFile.eraseSpans (file : SourceFile) : SourceFile :=
  file.mapOffsets forget

/-- Where a body ends does not depend on places. -/
theorem blockEnd?_map (g : Nat → Nat) (tokens : List Token) :
    ∀ depth, blockEnd? depth (tokens.map (Token.mapOffsets g))
      = (blockEnd? depth tokens).map
        fun r => (r.1.mapOffsets g, r.2.map (Token.mapOffsets g)) := by
  induction tokens with
  | nil => exact fun _ => rfl
  | cons t tokens ih =>
    intro depth
    rw [List.map_cons]
    rcases blockEnd?_step t.tok depth with ⟨-, hstop⟩ | ⟨inner, hstep⟩
    · rw [hstop t tokens rfl, hstop (t.mapOffsets g) _ rfl]
      rfl
    · rw [hstep t tokens rfl, hstep (t.mapOffsets g) _ rfl, ih]

namespace Parser

variable {n : Nat}

/-! ## Bodies and initializers -/

/-- An error at a body that does not end has the span of its start, which lies
within the source. -/
theorem mirrors_skipBody {s s' : Span} (hs : s.Within n) :
    Mirrors n id (skipBody s) (skipBody s') := by
  intro c hc
  have hbare : blockEnd? 0 c.bare.rest = _ := blockEnd?_map forget c.rest 0
  dsimp only [skipBody, AtCursor.skipBody]
  rw [hbare]
  cases hend : blockEnd? 0 c.rest with
  | none => exact mirrors_fail hs c hc
  | some r =>
    obtain ⟨last, rest⟩ := r
    obtain ⟨run, hrun⟩ := blockEnd?_eq_some hend
    exact .ok (hc.skip hrun) trivial

theorem mirrors_block : Mirrors n (Span.mapOffsets forget) block block := by
  refine mirrors_here.bind fun s hs => ?_
  refine mirrors_advance.bind fun _ _ => ?_
  exact (mirrors_skipBody hs).bind fun _ _ => (mirrors_since hs).mirrors

/-- An error at initializers that do not end has a span within the source. -/
theorem mirrors_skipExpressions {s s' : Span} (hs : s.Within n) :
    Mirrors n id (skipExpressions s) (skipExpressions s') := by
  intro c hc
  have hbare : ExprExtent.scan 0 c.bare.rest
    = ⟨(ExprExtent.scan 0 c.rest).taken.map (Token.mapOffsets forget),
      (ExprExtent.scan 0 c.rest).rest.map (Token.mapOffsets forget),
        (ExprExtent.scan 0 c.rest).depth⟩ := by
    simpa only [List.append_nil, Cursor.bare] using ExprExtent.scan_mapOffsets forget
      c.rest 0 (Or.inr rfl)
  dsimp only [skipExpressions, AtCursor.skipExpressions]
  rw [hbare]
  dsimp only
  by_cases hdepth : (ExprExtent.scan 0 c.rest).depth > 0
  · rw [if_pos hdepth, if_pos hdepth]
    exact mirrors_fail hs c hc
  rw [if_neg hdepth, if_neg hdepth, List.getLast?_map]
  cases hlast : (ExprExtent.scan 0 c.rest).taken.getLast? with
  | none => exact mirrors_unexpected c hc
  | some last =>
    obtain ⟨run, hrun⟩ := List.getLast?_eq_some_iff.mp hlast
    have hsplit : c.rest = run ++ last :: (ExprExtent.scan 0 c.rest).rest := by
      conv => lhs; rw [← scan_append c.rest 0, hrun, List.append_assoc]
      rfl
    exact .ok (hc.skip hsplit) trivial

theorem mirrors_expressions :
    Mirrors n (Span.mapOffsets forget) expressions expressions := by
  refine mirrors_here.bind fun s hs => ?_
  exact (mirrors_skipExpressions hs).bind fun _ _ => (mirrors_since hs).mirrors

/-! ## Specs -/

/-- The name of an import, or its dot, loses its place. -/
theorem mirrors_importName :
    Mirrors n (Option.map (Ident.mapOffsets forget)) importName? importName? := by
  refine (mirrors_peek 0).bind fun r _ => ?_
  have hdot : Mirrors n (Option.map (Ident.mapOffsets forget))
      (do let span ← here; advance; pure (some ⟨".", span⟩))
      (do let span ← here; advance; pure (some ⟨".", span⟩)) := by
    refine mirrors_here.bind fun s _ => ?_
    exact mirrors_advance.bind fun _ _ => mirrors_pure rfl
  cases r with
  | none => exact mirrors_pure rfl
  | some tok =>
    cases tok with
    | ident name => exact mirrors_ident.bind fun name _ => mirrors_pure rfl
    | op o =>
      cases o with
      | dot => exact hdot
      | _ => exact mirrors_pure rfl
    | _ => exact mirrors_pure rfl

theorem mirrors_importSpec :
    Mirrors n (ImportSpec.mapOffsets forget) importSpec importSpec := by
  refine mirrors_importName.bind fun name _ => ?_
  exact mirrors_stringLit.bind fun path _ => mirrors_pure rfl

theorem mirrors_valueType :
    Mirrors n (Option.map (TypeExpr.mapOffsets forget)) valueType? valueType? := by
  refine (mirrors_peek 0).bind fun r _ => ?_
  cases r with
  | none => exact mirrors_pure rfl
  | some tok =>
    refine .ite (fun _ => ?_) fun _ => mirrors_pure rfl
    exact mirrors_typeExpr.bind fun type _ => mirrors_pure rfl

theorem mirrors_values :
    Mirrors n (Option.map (Span.mapOffsets forget)) values? values? := by
  refine (mirrors_eat _).bind fun assigned _ => ?_
  refine .ite (fun _ => ?_) fun _ => mirrors_pure rfl
  exact mirrors_expressions.bind fun span _ => mirrors_pure rfl

/-- Names, type and initializers. -/
theorem mirrors_valueSpec :
    Mirrors n (ValueSpec.mapOffsets forget) valueSpec valueSpec := by
  refine mirrors_identList.bind fun names _ => ?_
  refine mirrors_valueType.bind fun type _ => ?_
  exact mirrors_values.bind fun values _ => mirrors_pure rfl

/-- Whether a value is missing does not depend on places. -/
theorem mirrors_constSpec (grouped : Bool) :
    Mirrors n (ValueSpec.mapOffsets forget) (constSpec grouped)
      (constSpec grouped) := by
  refine mirrors_valueSpec.bind fun spec _ => ?_
  simp only [ValueSpec.mapOffsets, Option.isNone_map]
  exact .ite (fun _ => mirrors_unexpected) fun _ => mirrors_pure rfl

theorem mirrors_varSpec :
    Mirrors n (ValueSpec.mapOffsets forget) varSpec varSpec := by
  refine mirrors_valueSpec.bind fun spec _ => ?_
  simp only [ValueSpec.mapOffsets, Option.isNone_map]
  exact .ite (fun _ => mirrors_unexpected) fun _ => mirrors_pure rfl

/-- Both sides have type parameters, or neither. -/
theorem mirrors_specTypeParameters :
    Mirrors n (List.map (Field.mapOffsets forget))
      specTypeParameters specTypeParameters := by
  refine (mirrors_ask (g := id) fun c => ?_).bind fun declares _ => ?_
  · unfold Cursor.atTypeParameters
    rw [c.bare_peek?, c.bare_bracketsDeclareTypes]
    rfl
  · exact .ite (fun _ => mirrors_typeParameters mirrors_typeExpr)
      fun _ => mirrors_pure rfl

/-- Name, type parameters and type. -/
theorem mirrors_typeSpec :
    Mirrors n (TypeSpec.mapOffsets forget) typeSpec typeSpec := by
  refine mirrors_ident.bind fun name _ => ?_
  refine mirrors_specTypeParameters.bind fun typeParams _ => ?_
  refine (mirrors_eat _).bind fun isAlias _ => ?_
  exact mirrors_typeExpr.bind fun type _ => mirrors_pure rfl

section Groups

variable {σ : Type} {g : σ → σ}

theorem mirrors_groupedSpec {spec : Parser σ} (hspec : Mirrors n g spec spec) :
    Mirrors n g (groupedSpec spec) (groupedSpec spec) := by
  refine (mirrors_peek 0).bind fun r _ => ?_
  cases r with
  | none => exact mirrors_unexpected
  | some tok => exact hspec

/-- **A group has the same specs with and without places.** -/
theorem mirrors_specs {spec : Bool → Parser σ}
    (hspec : ∀ grouped, Mirrors n g (spec grouped) (spec grouped)) :
    Mirrors n (Group.mapOffsets forget g) (group spec) (group spec) := by
  refine mirrors_here.bind fun s hs => ?_
  refine mirrors_advance.bind fun _ _ => ?_
  refine (mirrors_eat _).bind fun opened _ => ?_
  refine .ite (fun _ => ?_) fun _ => ?_
  · refine (mirrors_memberList (mirrors_groupedSpec (hspec true))).bind
      fun specs _ => ?_
    exact (mirrors_since hs).bind fun span _ => mirrors_pure rfl
  · refine (hspec false).bind fun only _ => ?_
    exact (mirrors_since hs).bind fun span _ => mirrors_pure rfl

end Groups

/-! ## Functions -/

/-- How many groups a receiver has does not depend on places. -/
theorem mirrors_receiver : Mirrors n (Field.mapOffsets forget) receiver receiver := by
  refine mirrors_here.bind fun s hs => ?_
  refine (mirrors_parameters mirrors_typeExpr).bind fun fields _ => ?_
  obtain _ | ⟨only, _ | ⟨second, more⟩⟩ := fields
  · exact mirrors_fail hs
  · exact mirrors_pure rfl
  · exact mirrors_fail hs

theorem mirrors_receiver? :
    Mirrors n (Option.map (Field.mapOffsets forget)) receiver? receiver? := by
  refine (mirrors_isNext _).bind fun opened _ => ?_
  refine .ite (fun _ => ?_) fun _ => mirrors_pure rfl
  exact mirrors_receiver.bind fun field _ => mirrors_pure rfl

theorem mirrors_funcTypeParameters :
    Mirrors n (List.map (Field.mapOffsets forget))
      funcTypeParameters funcTypeParameters := by
  refine (mirrors_isNext _).bind fun opened _ => ?_
  exact .ite (fun _ => mirrors_typeParameters mirrors_typeExpr)
    fun _ => mirrors_pure rfl

theorem mirrors_body :
    Mirrors n (Option.map (Span.mapOffsets forget)) body? body? := by
  refine (mirrors_isNext _).bind fun opened _ => ?_
  refine .ite (fun _ => ?_) fun _ => mirrors_pure rfl
  exact mirrors_block.bind fun span _ => mirrors_pure rfl

/-- Receiver, name, type parameters, signature and body. -/
theorem mirrors_funcDecl :
    Mirrors n (FuncDecl.mapOffsets forget) funcDecl funcDecl := by
  refine mirrors_here.bind fun s hs => ?_
  refine mirrors_advance.bind fun _ _ => ?_
  refine mirrors_receiver?.bind fun receiver _ => ?_
  refine mirrors_ident.bind fun name _ => ?_
  refine mirrors_funcTypeParameters.bind fun typeParams _ => ?_
  refine (mirrors_signature mirrors_typeExpr).bind fun sig _ => ?_
  refine mirrors_body.bind fun body _ => ?_
  exact (mirrors_since hs).bind fun span _ => mirrors_pure rfl

/-! ## Declarations and files -/

/-- **Every declaration is read without regard to places.** -/
theorem mirrors_decl : Mirrors n (Decl.mapOffsets forget) decl decl := by
  refine (mirrors_peek 0).bind fun r _ => ?_
  cases r with
  | none => exact mirrors_unexpected
  | some tok =>
    cases tok with
    | keyword word =>
      cases word with
      | «import» =>
        exact (mirrors_specs fun _ => mirrors_importSpec).bind
          fun specs _ => mirrors_pure rfl
      | const =>
        exact (mirrors_specs mirrors_constSpec).bind fun specs _ => mirrors_pure rfl
      | var =>
        exact (mirrors_specs fun _ => mirrors_varSpec).bind
          fun specs _ => mirrors_pure rfl
      | type =>
        exact (mirrors_specs fun _ => mirrors_typeSpec).bind
          fun specs _ => mirrors_pure rfl
      | func => exact mirrors_funcDecl.bind fun func _ => mirrors_pure rfl
      | _ => exact mirrors_unexpected
    | _ => exact mirrors_unexpected

/-- As many semicolons are passed over. -/
theorem mirrors_semicolonItems (bound : Nat) :
    Mirrors n id (semicolonItems bound) (semicolonItems bound) := by
  induction bound with
  | zero => exact mirrors_pure rfl
  | succ bound ih =>
    refine (mirrors_eat _).bind fun semi _ => ?_
    exact .ite (fun _ => ih) fun _ => mirrors_pure rfl

/-- As many declarations are read. -/
theorem mirrors_declItems (bound : Nat) :
    Mirrors n (List.map (Decl.mapOffsets forget)) (declItems decl bound)
      (declItems decl bound) := by
  induction bound with
  | zero => exact mirrors_unexpected
  | succ bound ih =>
    refine (mirrors_bounded mirrors_semicolonItems).bind fun _ _ => ?_
    refine (mirrors_peek 0).bind fun r _ => ?_
    cases r with
    | none => exact mirrors_pure rfl
    | some tok =>
      refine mirrors_decl.bind fun first _ => ?_
      refine (mirrors_terminator _).bind fun _ _ => ?_
      exact ih.bind fun others _ => mirrors_pure rfl

/-- **Files are read without regard to places.** -/
theorem mirrors_file : Mirrors n (SourceFile.mapOffsets forget) file file := by
  refine (mirrors_bounded mirrors_semicolonItems).bind fun _ _ => ?_
  refine (mirrors_expect _ _).bind fun _ _ => ?_
  refine mirrors_ident.bind fun package _ => ?_
  refine (mirrors_terminator _).bind fun _ _ => ?_
  exact (mirrors_bounded mirrors_declItems).bind fun decls _ => mirrors_pure rfl

end Parser

/-! ## Sequences of tokens -/

/-- The tokens of a source lie within it. -/
theorem tokens_within (source : String) :
    ∀ t ∈ (tokenize source).tokens,
      t.start ≤ t.stop ∧ t.stop ≤ Text.byteLength source.toList := by
  intro t ht
  obtain ⟨hle, hstop, -, -⟩ := (Token.tokenize_placed source).1 t ht
  exact ⟨hle, hstop⟩

section Tokens

variable {tokens tokens' : List Token} {n n' : Nat}

/-- At the start, all tokens lie within the source. -/
theorem within_start (h : ∀ t ∈ tokens, t.start ≤ t.stop ∧ t.stop ≤ n) :
    (Cursor.start tokens n).Within n :=
  ⟨h, Nat.zero_le n, Nat.le_refl n⟩

/-- What tokens are, without their places, tells whether they are a file,
and which one. -/
theorem parseTokens_forget (h : ∀ t ∈ tokens, t.start ≤ t.stop ∧ t.stop ≤ n) :
    (parseTokens tokens n).toOption.map SourceFile.eraseSpans
      = (parseTokens (tokens.map (Token.mapOffsets forget)) 0).toOption := by
  have hend := Parser.mirrors_file (.start tokens n) (within_start h)
  unfold parseTokens
  rw [show Cursor.start (tokens.map (Token.mapOffsets forget)) 0
    = (Cursor.start tokens n).bare from rfl]
  generalize Parser.file (.start tokens n) = r,
    Parser.file (Cursor.start tokens n).bare = r' at hend
  cases hend with
  | ok => rfl
  | error => rfl

/-- Tokens that only differ in their places are the same without them. -/
theorem map_forget_of_toks (htoks : tokens.map (·.tok) = tokens'.map (·.tok)) :
    tokens.map (Token.mapOffsets forget) = tokens'.map (Token.mapOffsets forget) := by
  have hfactor : ∀ ts : List Token,
      ts.map (Token.mapOffsets forget)
        = (ts.map (·.tok)).map fun tok => ⟨0, tok, 0⟩ := by
    intro ts
    rw [List.map_map]
    rfl
  rw [hfactor, hfactor, htoks]

/-- Tokens of the same kinds in the same order are no file in either place, or
the same file up to spans. -/
theorem parseTokens_congr (h : ∀ t ∈ tokens, t.start ≤ t.stop ∧ t.stop ≤ n)
    (h' : ∀ t ∈ tokens', t.start ≤ t.stop ∧ t.stop ≤ n')
    (htoks : tokens.map (·.tok) = tokens'.map (·.tok)) :
    (parseTokens tokens n).toOption.map SourceFile.eraseSpans
      = (parseTokens tokens' n').toOption.map SourceFile.eraseSpans := by
  rw [parseTokens_forget h, parseTokens_forget h', map_forget_of_toks htoks]

/-- A syntax error is reported within the source. -/
theorem span_of_parseTokens_error {e : SyntaxError}
    (h : ∀ t ∈ tokens, t.start ≤ t.stop ∧ t.stop ≤ n)
    (herror : parseTokens tokens n = .error e) : e.span.Within n := by
  have hend := Parser.mirrors_file (.start tokens n) (within_start h)
  unfold parseTokens at herror
  generalize Parser.file (.start tokens n) = r,
    Parser.file (Cursor.start tokens n).bare = r' at hend herror
  cases hend with
  | ok => cases herror
  | error he =>
    cases herror
    exact he

end Tokens

end GoInventory
