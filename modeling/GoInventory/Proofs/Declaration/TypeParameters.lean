import GoInventory.Proofs.Declaration.Layout
import GoInventory.Proofs.Syntax.WellFormed
import GoInventory.Proofs.TypeText.RoundTrip

/-!
# Type parameters of types and of functions

Behind the name of a function, brackets always hold type parameters. Behind the
name in a type definition they may also hold the length of an array, and the
parser tells the two apart by a few tokens: the bracket, one name, and what
comes next. A name that is followed by `*`, by `(`, or by `[` that is not closed
at once is taken for the start of a length, although each of them also starts a
type, which may be the constraint of the name (`Field.looksLikeLength`).

So a list of type parameters that a function may have is read in the same way in
a type definition, unless its first group looks like a length. Then the whole
list is the length of an array, and the type that was to be defined is its
element (`typeParameters_agree`).
-/

namespace GoInventory

open Grammar

/-! ## Lists that look like a length -/

/-- The type that a constraint starts with, unless a tilde stands before it. -/
def TypeExpr.leading? : TypeExpr → Option TypeExpr
  | .union _ (⟨false, type⟩ :: _) => some type
  | .union _ _ => none
  | type => some type

/-- The first token of the type goes on with an expression, too: behind a name
`*` multiplies, `(` calls and `[` indexes. -/
def TypeExpr.continuesExpr : TypeExpr → Bool
  | .pointer _ _ | .paren _ _ | .array _ _ _ => true
  | _ => false

/-- The group is a single name and a constraint that goes on with it like
an expression. -/
def Field.looksLikeLength (f : Field TypeExpr) : Bool :=
  f.names.length == 1 && f.type.leading?.any TypeExpr.continuesExpr

section Lookahead

variable {c : Cursor} {lb name : Token} {run rest : List Token} {word : String}

/-- A name and a type are taken for type parameters, unless the type goes on
with the name like an expression. -/
theorem bracketsDeclareTypes_type {t : TypeExpr} {e : Ending}
    (hname : name.tok = .ident word) (h : Spells .anywhere t run e)
    (hc : c.rest = lb :: name :: (run ++ rest)) :
    c.bracketsDeclareTypes = !t.continuesExpr := by
  unfold Cursor.bracketsDeclareTypes declaresTypes
  cases spells_iff.mp h with
  | named hn =>
    obtain ⟨first, more, word', rfl, hfirst⟩ := hn.head
    simp [Cursor.peek?, hc, hname, hfirst, TypeExpr.continuesExpr]
  | applied hbase =>
    obtain ⟨first, more, word', rfl, hfirst⟩ := hbase.head
    simp [Cursor.peek?, hc, hname, hfirst, TypeExpr.continuesExpr]
  | array hlb hbound =>
    obtain ⟨first, more, rfl, hfirst⟩ := hbound.head_ne
    simp [Cursor.peek?, hc, hname, hlb, hfirst, TypeExpr.continuesExpr]
  | slice hlb hrb => simp [Cursor.peek?, hc, hname, hlb, hrb, TypeExpr.continuesExpr]
  | pointer hfirst | paren hfirst | map hfirst | chan hfirst | send hfirst
      | receive hfirst | func hfirst
  | struct hfirst | interface hfirst =>
    simp [Cursor.peek?, hc, hname, hfirst, TypeExpr.continuesExpr]

theorem leading?_of_spells {F : Placement} {t : TypeExpr} {e : Ending}
    (h : Spells F t run e) : t.leading? = some t := by
  cases spells_iff.mp h <;> rfl

/-- A name and a constraint are taken for type parameters, unless the constraint
starts with such a type. -/
theorem bracketsDeclareTypes_constraint {t : TypeExpr}
    (hname : name.tok = .ident word)
    (h : Constraint .anywhere (Spells .anywhere) t run)
    (hc : c.rest = lb :: name :: (run ++ rest)) :
    c.bracketsDeclareTypes = !t.leading?.any TypeExpr.continuesExpr := by
  cases h with
  | plain hplain =>
    obtain ⟨e, hspells⟩ := hplain
    rw [leading?_of_spells hspells]
    exact bracketsDeclareTypes_type hname hspells hc
  | @union s terms _ _ hterms _ =>
    -- the first term decides, whether more of them follow or not
    have hterm : ∀ {tm : Term TypeExpr} {more : List (Term TypeExpr)}
      {part behind : List Token},
        TermRun (Spells .anywhere) tm part → c.rest = lb :: name :: (part ++ behind) →
        c.bracketsDeclareTypes
          = !(TypeExpr.union s (tm :: more)).leading?.any TypeExpr.continuesExpr := by
      intro tm more part behind htm hc
      cases htm with
      | plain hplain =>
        obtain ⟨e, hspells⟩ := hplain
        exact bracketsDeclareTypes_type hname hspells hc
      | tilde hmark =>
        simp [Cursor.bracketsDeclareTypes, declaresTypes, Cursor.peek?, hc, hname,
          hmark, TypeExpr.leading?]
    cases hterms with
    | one htm => exact hterm htm hc
    | cons htm =>
      rw [List.append_assoc] at hc
      exact hterm htm hc

/-- The first group of type parameters tells how the brackets are taken. -/
theorem bracketsDeclareTypes_group {f : Field TypeExpr}
    (h : TypeParam .anywhere f run) (hc : c.rest = lb :: (run ++ rest)) :
    c.bracketsDeclareTypes = !f.looksLikeLength := by
  obtain ⟨hnames, hconstraint, -⟩ := h
  unfold Field.looksLikeLength
  rw [List.append_assoc] at hc
  cases hnames with
  | one hn =>
    obtain ⟨t, rfl, ht, -⟩ := hn
    simpa using bracketsDeclareTypes_constraint ht hconstraint hc
  | @cons n names part more sep hn hsep hmore =>
    obtain ⟨t, rfl, ht, -⟩ := hn
    have hne : names ≠ [] := by
      cases hmore <;> exact List.cons_ne_nil _ _
    have hlength : ((n :: names).length == 1) = false := by
      simpa using hne
    rw [hlength]
    simp [Cursor.bracketsDeclareTypes, declaresTypes, Cursor.peek?, hc, ht, hsep]

end Lookahead

namespace Grammar

variable {F : Placement} {run : List Token}

/-- A constraint starts with a type or with a tilde. -/
theorem Constraint.head {t : TypeExpr} (h : Constraint F (Spells F) t run) :
    ∃ first more, run = first :: more ∧
      (first.tok.startsType = true ∨ first.tok = .op .tilde) := by
  have hterm : ∀ {tm : Term TypeExpr} {part : List Token},
    TermRun (Spells F) tm part →
      ∃ first more, part = first :: more ∧
        (first.tok.startsType = true ∨ first.tok = .op .tilde) := by
    intro tm part htm
    cases htm with
    | plain hplain =>
      obtain ⟨first, more, rfl, hfirst⟩ := Inner.starts shaped_spells hplain
      exact ⟨first, more, rfl, Or.inl hfirst⟩
    | tilde hmark => exact ⟨_, _, rfl, Or.inr hmark⟩
  cases h with
  | plain hplain => exact hterm (.plain hplain)
  | union _ hterms =>
    cases hterms with
    | one htm => exact hterm htm
    | cons htm =>
      obtain ⟨first, more, rfl, hfirst⟩ := hterm htm
      exact ⟨first, _, rfl, hfirst⟩

/-- A group of type parameters starts with a name, which is not the first part
of a qualified one. -/
theorem TypeParam.head {f : Field TypeExpr} (h : TypeParam F f run) :
    ∃ name next more word, run = name :: next :: more ∧ name.tok = .ident word ∧
      next.tok ≠ .op .dot := by
  obtain ⟨hnames, hconstraint, -⟩ := h
  cases hnames with
  | one hn =>
    obtain ⟨t, rfl, ht, -⟩ := hn
    obtain ⟨first, more, rfl, hfirst⟩ := hconstraint.head
    refine ⟨t, first, more, _, rfl, ht, fun hdot => ?_⟩
    rw [hdot] at hfirst
    rcases hfirst with hfirst | hfirst <;> cases hfirst
  | cons hn hsep =>
    obtain ⟨t, rfl, ht, -⟩ := hn
    exact ⟨t, _, _, _, rfl, ht, by rw [hsep]; nofun⟩

theorem TypeParam.balanced {f : Field TypeExpr} (h : TypeParam F f run) :
    Balanced run := by
  obtain ⟨hnames, hconstraint, -⟩ := h
  exact (hnames.balanced (fun _ _ => IdentRun.balanced) rfl rfl).append
    (hconstraint.balanced shaped_spells.balanced)

/-- A list of groups is the first group, what follows it, and the bracket that
closes the list. -/
theorem Listed.firstGroup {f : Field TypeExpr} {more : List (Field TypeExpr)}
    (h : Listed (TypeParam F) .comma .closeBracket (f :: more) run) :
    ∃ part behind rb, run = part ++ behind ++ [rb] ∧ TypeParam F f part ∧
      rb.tok = .op .closeBracket ∧
      Balanced (part ++ behind) := by
  cases h with
  | @last _ part t hf ht =>
    refine ⟨part, [], t, by simp, hf, ht, ?_⟩
    rw [List.append_nil]
    exact hf.balanced
  | @cons _ _ part _ sep hf hsep hmore =>
    obtain ⟨body, rb, rfl, hrb, hbody⟩ :=
      hmore.balanced (fun _ _ => TypeParam.balanced) rfl rfl
    exact ⟨part, sep :: body, rb, by simp, hf, hrb,
      hf.balanced.append (balanced_cons_of_eq hsep rfl rfl hbody)⟩

/-- Two tokens of which the second is no dot do not start a length that
is understood. -/
theorem isOther_of_next {t u : Token} {more : List Token} (hu : u.tok ≠ .op .dot) :
    IsOther (t :: u :: more) where
  not_leaf := by
    intro only heq
    cases heq
  not_selector := by
    intro a dot b pkg sel heq _ hdot
    cases heq
    exact absurd hdot hu

end Grammar

/-! ## What is read -/

namespace Parser

variable {c : Cursor} {rest run : List Token}

theorem reads_typeParameter {f : Field TypeExpr} (h : TypeParam .anywhere f run)
    (hc : c.rest = run ++ rest) (hrest : Follows .comma .closeBracket rest) :
    Reads (typeParameter typeExpr) c rest
      fun f' => f'.mapOffsets forget = f.mapOffsets forget := by
  obtain ⟨hnames, hconstraint, -⟩ := h
  obtain ⟨first, more, rfl, hfirst⟩ := hconstraint.head
  rw [List.append_assoc] at hc
  unfold typeParameter typeParameterOf
  refine (reads_here hc).bind fun start c₁ hc₁ _ => ?_
  refine (reads_names hnames hc₁ ?_).bind fun names' c₂ hc₂ hnames' => ?_
  · intro u hu hcomma
    cases hu
    rw [hcomma] at hfirst
    rcases hfirst with hfirst | hfirst <;> cases hfirst
  have hsep : EndsConstraint .comma := ⟨rfl, nofun, nofun⟩
  have hclose : EndsConstraint .closeBracket := ⟨rfl, nofun, nofun⟩
  refine (reads_constraint readsTypes_typeExpr shaped_spells hsep hclose hconstraint
    hc₂ hrest).bind
    fun t' c₃ hc₃ ht' => ?_
  refine (reads_since hc₃).bind fun s' c₄ hc₄ _ => ?_
  refine Reads.pure hc₄ ?_
  simp only [Field.mapOffsets, hnames', ht', Option.map_none, Span.mapOffsets, forget]

theorem readsItems_typeParameters :
    ReadsItems (typeParameter typeExpr) (TypeParam .anywhere)
    (Field.mapOffsets forget) .comma .closeBracket where
  head := by
    intro f run h
    obtain ⟨name, next, more, word, rfl, hname, -⟩ := h.head
    exact ⟨name, next :: more, rfl, by rw [hname]; nofun⟩
  reads := reads_typeParameter

/-- The parser of type parameters reads what the grammar spells,
whatever follows. -/
theorem reads_typeParameters {params : List (Field TypeExpr)} {lb : Token}
    (hne : params ≠ [])
    (h : Listed (TypeParam .anywhere) .comma .closeBracket params run)
    (hc : c.rest = lb :: (run ++ rest)) :
    Reads (typeParameters typeExpr) c rest fun params' =>
      params'.map (Field.mapOffsets forget)
        = params.map (Field.mapOffsets forget) := by
  unfold typeParameters typeParametersOf
  refine (reads_advance hc).bind fun _ c₁ hc₁ _ => ?_
  refine (reads_commaList (by simp) readsItems_typeParameters h hc₁).bind
    fun params' c₂ hc₂ hparams => ?_
  refine (reads_here hc₂).bind fun after c₃ hc₃ _ => ?_
  have hne' : params'.isEmpty = false := by
    rw [← List.isEmpty_map, hparams, List.isEmpty_map]
    exact List.isEmpty_eq_false_iff.mpr hne
  rw [hne']
  exact Reads.pure hc₃ hparams

section Definitions

variable {name lb : Token} {word : String} {f : Field TypeExpr}
  {more : List (Field TypeExpr)} {t : TypeExpr}
  {listRun bodyRun : List Token} {e : Ending}

/-- No sign of an alias stands before a type. -/
theorem not_assign_of_spells (h : Spells .anywhere t run e) :
    ∀ u ∈ (run ++ rest).head?, u.tok ≠ .op .assign := by
  intro u hu heq
  obtain ⟨first, behind, rfl, hfirst⟩ := shaped_spells.starts h
  cases hu
  rw [heq] at hfirst
  cases hfirst

/-- The brackets behind the name are taken for type parameters, if the first
group does not look like a length. -/
theorem reads_typeSpec_generic (hname : name.tok = .ident word)
    (hlb : lb.tok = .op .openBracket)
    (hlist : Listed (TypeParam .anywhere) .comma .closeBracket (f :: more) listRun)
    (hf : f.looksLikeLength = false) (hbody : Spells .anywhere t bodyRun e)
    (hc : c.rest = name :: (lb :: (listRun ++ bodyRun) ++ rest))
    (hstop : e.Stops rest) : Reads typeSpec c rest fun spec =>
      spec.mapOffsets forget
        = (TypeSpec.mk ⟨word, .point 0⟩ (f :: more) false t).mapOffsets forget := by
  obtain ⟨part, behind, rb, hsplit, hpart, -, -⟩ := hlist.firstGroup
  have hc' : c.rest = name :: lb :: (listRun ++ (bodyRun ++ rest)) := by
    rw [hc, List.cons_append, List.append_assoc]
  refine (reads_ident hc' hname).bind fun n c₁ hc₁ hn => ?_
  have hparams : Reads specTypeParameters c₁ (bodyRun ++ rest) fun params' =>
      params'.map (Field.mapOffsets forget)
        = (f :: more).map (Field.mapOffsets forget) := by
    have hlook : c₁.atTypeParameters = true := by
      have hgroup : c₁.rest
          = lb :: (part ++ (behind ++ [rb] ++ (bodyRun ++ rest))) := by
        rw [hc₁, hsplit]
        simp
      unfold Cursor.atTypeParameters
      rw [bracketsDeclareTypes_group hpart hgroup, hf]
      simp [Cursor.peek?, hgroup, hlb]
    refine (reads_ask _ hc₁).bind fun b c₂ hc₂ hb => ?_
    rw [hb, hlook]
    exact reads_typeParameters (List.cons_ne_nil f more) hlist hc₂
  refine hparams.bind fun params' c₂ hc₂ hparams' => ?_
  refine (reads_eat_not hc₂ (not_assign_of_spells hbody)).bind fun b c₃ hc₃ hb => ?_
  refine (readsTypes_typeExpr hbody hc₃ hstop).bind fun t' c₄ hc₄ ht' => ?_
  refine Reads.pure hc₄ ?_
  simp only [TypeSpec.mapOffsets, Ident.mapOffsets, hn, hparams', hb, ht',
    Span.mapOffsets, forget]

/-- They are taken for the length of an array, if it does. -/
theorem reads_typeSpec_array (hname : name.tok = .ident word)
    (hlb : lb.tok = .op .openBracket)
    (hlist : Listed (TypeParam .anywhere) .comma .closeBracket (f :: more) listRun)
    (hf : f.looksLikeLength = true) (hbody : Spells .anywhere t bodyRun e)
    (hc : c.rest = name :: (lb :: (listRun ++ bodyRun) ++ rest))
    (hstop : e.Stops rest) : Reads typeSpec c rest fun spec => spec.mapOffsets forget
      = (TypeSpec.mk ⟨word, .point 0⟩ [] false
          (.array (.point 0) (.expr (.other (.point 0))) t)).mapOffsets forget := by
  obtain ⟨part, behind, rb, rfl, hpart, hrb, hbalanced⟩ := hlist.firstGroup
  -- the whole list is an expression of which nothing but its span is kept
  have harray : Spells .anywhere (.array (.point 0) (.expr (.other (.point 0))) t)
      (lb :: (part ++ behind) ++ rb :: bodyRun) e := by
    obtain ⟨first, next, others, firstName, rfl, hfirst, hnext⟩ := hpart.head
    have hlength : Bound .anywhere (.expr (.other (.point 0)))
        (first :: next :: others ++ behind) :=
      .expr (by rw [hfirst]; nofun) hbalanced (.other (isOther_of_next hnext) trivial)
    exact spells_iff.mpr (.array hlb hlength hrb hbody trivial)
  have hc' : c.rest = name :: (lb :: (part ++ behind) ++ rb :: bodyRun ++ rest) := by
    rw [hc]
    simp
  refine (reads_ident hc' hname).bind fun n c₁ hc₁ hn => ?_
  have hparams : Reads specTypeParameters c₁
      (lb :: (part ++ behind) ++ rb :: bodyRun ++ rest) (· = []) := by
    have hlook : c₁.atTypeParameters = false := by
      have hgroup : c₁.rest = lb :: (part ++ (behind ++ rb :: bodyRun ++ rest)) := by
        rw [hc₁]
        simp
      unfold Cursor.atTypeParameters
      rw [bracketsDeclareTypes_group hpart hgroup, hf]
      exact Bool.and_false _
    refine (reads_ask _ hc₁).bind fun b c₂ hc₂ hb => ?_
    rw [hb, hlook]
    exact Reads.pure hc₂ rfl
  refine hparams.bind fun params' c₂ hc₂ hparams' => ?_
  refine (reads_eat_not hc₂ (not_assign_of_spells harray)).bind fun b c₃ hc₃ hb => ?_
  refine (readsTypes_typeExpr harray hc₃ hstop).bind fun t' c₄ hc₄ ht' => ?_
  refine Reads.pure hc₄ ?_
  simp only [TypeSpec.mapOffsets, Ident.mapOffsets, hn, hparams', hb, ht',
    Span.mapOffsets, forget, List.map_nil]

/-- Behind the name of a function, brackets hold type parameters. -/
theorem reads_funcDecl_generic {kw lp rp semi : Token}
    (hname : name.tok = .ident word) (hlb : lb.tok = .op .openBracket)
    (hlist : Listed (TypeParam .anywhere) .comma .closeBracket (f :: more) listRun)
    (hlp : lp.tok = .op .openParen) (hrp : rp.tok = .op .closeParen)
    (hsemi : semi.tok = .op .semicolon)
    (hc : c.rest = kw :: name :: lb :: (listRun ++ [lp, rp] ++ semi :: rest)) :
    Reads funcDecl c (semi :: rest) fun d => d.mapOffsets forget
      = (FuncDecl.mk none ⟨word, .point 0⟩ (f :: more) ⟨[], [], .point 0⟩ none
        (.point 0)).mapOffsets forget := by
  have hskip : ∀ {u : Token} {tok : Tok} {c : Cursor} {behind : List Token},
    c.rest = u :: behind →
      u.tok ≠ tok → Reads (isNext tok) c (u :: behind) (· = false) := by
    intro u tok c behind hc hne
    refine ⟨_, c, rfl, hc, ?_⟩
    simpa [Cursor.peek?, hc] using hne
  unfold funcDecl funcDeclOf
  rw [List.append_assoc] at hc
  refine (reads_here hc).bind fun start c₁ hc₁ _ => ?_
  refine (reads_advance hc₁).bind fun _ c₂ hc₂ _ => ?_
  have hreceiver : Reads receiver? c₂
      (name :: lb :: (listRun ++ ([lp, rp] ++ semi :: rest))) (· = none) := by
    refine (hskip hc₂ (by rw [hname]; simp)).bind fun b c₃ hc₃ hb => ?_
    subst hb
    exact Reads.pure hc₃ rfl
  refine hreceiver.bind fun receiver c₃ hc₃ hreceiver => ?_
  refine (reads_ident hc₃ hname).bind fun n c₄ hc₄ hn => ?_
  have hparams : Reads funcTypeParameters c₄ ([lp, rp] ++ semi :: rest) fun params' =>
      params'.map (Field.mapOffsets forget)
        = (f :: more).map (Field.mapOffsets forget) := by
    refine (reads_isNext hc₄ hlb).bind fun b c₅ hc₅ hb => ?_
    subst hb
    exact reads_typeParameters (List.cons_ne_nil f more) hlist hc₅
  refine hparams.bind fun params' c₅ hc₅ hparams' => ?_
  have hsig : Sig .anywhere (Spells .anywhere) ⟨[], [], .point 0⟩
      ([lp, rp] ++ []) .params :=
    .mk (.unnamed hlp (.none hrp)) .none trivial
  have hstop : Ending.Stops .params (semi :: rest) :=
    Ending.stops_cons hsemi rfl (by simp) _ rest
  refine (reads_signature readsTypes_typeExpr shaped_spells hsig hc₅ hstop).bind
    fun sig c₆ hc₆ hsig' => ?_
  have hbody : Reads body? c₆ (semi :: rest) (· = none) := by
    refine (hskip hc₆ (by rw [hsemi]; simp)).bind fun b c₇ hc₇ hb => ?_
    subst hb
    exact Reads.pure hc₇ rfl
  refine hbody.bind fun body c₇ hc₇ hbody => ?_
  refine (reads_since hc₇).bind fun span c₈ hc₈ _ => ?_
  refine Reads.pure hc₈ ?_
  simp only [FuncDecl.mapOffsets, Ident.mapOffsets, hreceiver, hn, hparams', hsig',
    hbody, Span.mapOffsets, forget, Option.map_none]

end Definitions

end Parser

/-! ## Sources -/

/-- A list in brackets. -/
def bracketed (list : List Tok) : List Tok :=
  .op .openBracket :: (list ++ [.op .closeBracket])

/-- The tokens of a file with one type definition, with a list in brackets
behind the name. -/
def typeToks (pkg name : String) (list body : List Tok) : List Tok :=
  [.keyword .package, .ident pkg, .op .semicolon, .keyword .type, .ident name]
    ++ (bracketed list ++ body ++ [.op .semicolon])

/-- The tokens of a file with one function, with a list in brackets behind the
name and no parameters. -/
def funcToks (pkg name : String) (list : List Tok) : List Tok :=
  [.keyword .package, .ident pkg, .op .semicolon, .keyword .func, .ident name]
    ++ (bracketed list ++ [.op .openParen, .op .closeParen] ++ [.op .semicolon])

/-- A file that defines one type. -/
def typeFile (pkg name : String) (params : List (Field TypeExpr)) (t : TypeExpr) :
    SourceFile :=
  ⟨⟨pkg, .point 0⟩,
    [.types ⟨[⟨⟨name, .point 0⟩, params, false, t⟩], false, .point 0⟩]⟩

/-- A file that declares one function without parameters. -/
def funcFile (pkg name : String) (params : List (Field TypeExpr)) : SourceFile :=
  ⟨⟨pkg, .point 0⟩,
    [.func ⟨none, ⟨name, .point 0⟩, params, ⟨[], [], .point 0⟩, none, .point 0⟩]⟩

/-- The parser reads all of the tokens, wherever they stand, and gives the value. -/
def Parser.ReadsAll {α : Type} (p : Parser α) (toks : List Tok) (a : α) : Prop :=
  ∃ c, p (.start (toks.map loose) 0) = .ok (a, c) ∧ c.rest = []

/-- A source is accepted as its tokens are read, wherever they stand. -/
theorem parseSource_of_reads {source : String} {toks : List Tok} {file : SourceFile}
    (h : LexesTo source toks)
    (hreads : Parser.Reads Parser.file (.start (toks.map loose) 0) []
      (·.eraseSpans = file.eraseSpans)) :
    ∃ file', parseSource source = .ok file' ∧ file'.eraseSpans = file.eraseSpans := by
  have hloose : (tokenize source).tokens.map (Token.mapOffsets forget)
      = toks.map loose := by
    rw [← h.toks_eq, List.map_map]
    rfl
  obtain ⟨read, c', hok, -, hread⟩ := hreads
  have hparse : parseTokens (toks.map loose) 0 = .ok read := by
    unfold parseTokens
    rw [hok]
    rfl
  have hforget := parseTokens_forget (tokens_within source)
  rw [hloose, hparse, ← toOption_parseSource h.quiet] at hforget
  -- the tokens have no offsets, so neither has what is read from them
  have hbare : read.eraseSpans = read := by
    have hplaced : ∀ t ∈ toks.map loose, t.start ≤ t.stop ∧ t.stop ≤ 0 := by
      simp [loose]
    have hagain := parseTokens_forget hplaced
    rw [List.map_map, show Token.mapOffsets forget ∘ loose = loose
      from rfl, hparse] at hagain
    exact Option.some.inj hagain
  cases hsource : parseSource source with
  | error failure =>
    rw [hsource] at hforget
    cases hforget
  | ok file' =>
    rw [hsource] at hforget
    have heq : file'.eraseSpans = read := Option.some.inj hforget
    exact ⟨file', rfl, by rw [heq, ← hbare, hread]⟩

section Sources

variable {pkg name : String} {list body : List Tok} {params : List (Field TypeExpr)}
  {t : TypeExpr}

/-- What the parser of type parameters reads, the grammar spells. -/
theorem listed_of_readsAll
    (h : Parser.ReadsAll (Parser.typeParameters Parser.typeExpr)
      (bracketed list) params) :
    ∃ f more, params = f :: more ∧
      Listed (TypeParam .anywhere) .comma .closeBracket (f :: more)
        ((list ++ [Tok.op .closeBracket]).map loose) := by
  obtain ⟨c, hok, hrest⟩ := h
  obtain ⟨run, hpasses, hrun⟩ :=
    Parser.takes_typeParameters (F := .anywhere) hok rfl trivial
  have hall : run = (bracketed list).map loose := by
    have hsplit := hpasses.rest
    rw [hrest, List.append_nil] at hsplit
    exact hsplit.symm
  cases hrun with
  | none => cases hall
  | @some _ lb listRun _ hne hlist =>
    obtain ⟨f, more, rfl⟩ := List.exists_cons_of_ne_nil hne
    cases hall
    exact ⟨f, more, rfl, hlist⟩

/-- What the parser of types reads, the grammar spells. -/
theorem spells_of_readsAll (h : Parser.ReadsAll Parser.typeExpr body t) :
    ∃ e, Spells .anywhere t (body.map loose) e := by
  obtain ⟨c, hok, hrest⟩ := h
  obtain ⟨run, hpasses, e, hrun⟩ := Parser.takes_typeExpr (F := .anywhere) hok trivial
  have hall : run = body.map loose := by
    have hsplit := hpasses.rest
    rw [hrest, List.append_nil] at hsplit
    exact hsplit.symm
  exact ⟨e, hall ▸ hrun⟩

/-- A declaration that is read up to spans makes a file that is read up to spans. -/
theorem eraseSpans_of_single {file : SourceFile} {d : Decl} (s : Span)
    (h : file.package.name = pkg ∧ ∃ d', file.decls = [d'] ∧
      d'.mapOffsets forget = d.mapOffsets forget) :
    file.eraseSpans = (SourceFile.mk ⟨pkg, s⟩ [d]).eraseSpans := by
  obtain ⟨hpackage, d', hdecls, hd⟩ := h
  simp only [SourceFile.eraseSpans, SourceFile.mapOffsets, hdecls, List.map_cons,
    List.map_nil, hd, Ident.mapOffsets, hpackage, Span.mapOffsets, forget]

/-- A file with one type definition, as it is read. -/
theorem reads_typeFile {spec : TypeSpec}
    (h : ∀ {c : Cursor}, c.rest
      = loose (.ident name) :: ((bracketed list ++ body).map loose
        ++ [loose (.op .semicolon)]) →
      Parser.Reads Parser.typeSpec c [loose (.op .semicolon)] fun spec' =>
        spec'.mapOffsets forget = spec.mapOffsets forget) :
    Parser.Reads Parser.file (.start ((typeToks pkg name list body).map loose) 0)
      [] fun file =>
      file.eraseSpans
        = (SourceFile.mk ⟨pkg, .point 0⟩
        [.types ⟨[spec], false, .point 0⟩]).eraseSpans := by
  have hdecl : ∀ {c : Cursor}, c.rest = loose (.keyword .type) :: (loose (.ident name)
        :: (bracketed list ++ body).map loose ++ [loose (.op .semicolon)]) →
      Parser.Reads Parser.decl c [loose (.op .semicolon)] fun d =>
        d.mapOffsets forget
          = (Decl.types ⟨[spec], false, .point 0⟩).mapOffsets forget := by
    intro c hc
    refine (Parser.reads_typeDecl rfl rfl h hc).mono fun d hd => ?_
    obtain ⟨spec', span, rfl, hspec⟩ := hd
    simp only [Decl.mapOffsets, Group.mapOffsets, List.map_cons, List.map_nil, hspec,
      Span.mapOffsets, forget]
  have hstart : (Cursor.start ((typeToks pkg name list body).map loose) 0).rest
      = loose (.keyword .package) :: loose (.ident pkg) :: loose (.op .semicolon)
        :: loose (.keyword .type)
        :: (loose (.ident name) :: (bracketed list ++ body).map loose
          ++ [loose (.op .semicolon)]) := by
    simp [Cursor.start, typeToks]
  exact (Parser.reads_file_single rfl rfl rfl Tok.noConfusion (Or.inr ⟨_, rfl, rfl⟩)
    hdecl hstart).mono
    fun file hfile => eraseSpans_of_single _ hfile

/-- A file with one function, as it is read. -/
theorem reads_funcFile {f : Field TypeExpr} {more : List (Field TypeExpr)}
    (hlist : Listed (TypeParam .anywhere) .comma .closeBracket (f :: more)
      ((list ++ [Tok.op .closeBracket]).map loose)) :
    Parser.Reads Parser.file (.start ((funcToks pkg name list).map loose) 0)
      [] fun file =>
      file.eraseSpans = (funcFile pkg name (f :: more)).eraseSpans := by
  have hdecl : ∀ {c : Cursor}, c.rest = loose (.keyword .func) :: (loose (.ident name)
        :: (bracketed list ++ [Tok.op .openParen, .op .closeParen]).map loose
          ++ [loose (.op .semicolon)]) →
      Parser.Reads Parser.decl c [loose (.op .semicolon)] fun d => d.mapOffsets forget
        = (Decl.func ⟨none, ⟨name, .point 0⟩, f :: more, ⟨[], [], .point 0⟩, none,
          .point 0⟩).mapOffsets
          forget := by
    intro c hc
    refine (Parser.reads_peek hc).bind fun tok c₁ hc₁ htok => ?_
    rw [htok]
    have hc₁' : c₁.rest = loose (.keyword .func) :: loose (.ident name) :: loose
      (.op .openBracket)
        :: ((list ++ [Tok.op .closeBracket]).map loose
          ++ [loose (.op .openParen), loose (.op .closeParen)]
          ++ loose (.op .semicolon) :: []) := by
      rw [hc₁]
      simp [bracketed]
    refine (Parser.reads_funcDecl_generic rfl rfl hlist rfl rfl rfl hc₁').bind
      fun d c₂ hc₂ hd => ?_
    exact Parser.Reads.pure hc₂ (by simp only [Decl.mapOffsets, hd])
  have hstart : (Cursor.start ((funcToks pkg name list).map loose) 0).rest
      = loose (.keyword .package) :: loose (.ident pkg) :: loose (.op .semicolon)
        :: loose (.keyword .func)
        :: (loose (.ident name)
          :: (bracketed list ++ [Tok.op .openParen, .op .closeParen]).map loose
          ++ [loose (.op .semicolon)]) := by
    simp [Cursor.start, funcToks]
  exact (Parser.reads_file_single rfl rfl rfl Tok.noConfusion (Or.inr ⟨_, rfl, rfl⟩)
    hdecl hstart).mono
    fun file hfile => eraseSpans_of_single _ hfile

/-- **Where type definitions and functions agree on type parameters.** Let a
list in brackets be read as type parameters, and let `body` be read as a type. A
function with this list is accepted and has these type parameters. A type
definition with this list and this type is accepted, too. It has the same type
parameters and defines that type, unless the first group looks like a length:
then it has no type parameters and defines an array of that type. -/
theorem typeParameters_agree {source funcSource : String}
    (hlist : Parser.ReadsAll (Parser.typeParameters Parser.typeExpr)
      (bracketed list) params)
    (hbody : Parser.ReadsAll Parser.typeExpr body t)
    (hfunc : LexesTo funcSource (funcToks pkg name list))
    (hsource : LexesTo source (typeToks pkg name list body)) :
    (∃ file, parseSource funcSource = .ok file ∧
      file.eraseSpans = (funcFile pkg name params).eraseSpans) ∧
    ∃ file, parseSource source = .ok file ∧
      file.eraseSpans = (if params.head?.any Field.looksLikeLength
        then typeFile pkg name [] (.array (.point 0) (.expr (.other (.point 0))) t)
        else typeFile pkg name params t).eraseSpans := by
  obtain ⟨f, more, rfl, hlisted⟩ := listed_of_readsAll hlist
  obtain ⟨e, hspells⟩ := spells_of_readsAll hbody
  have hstop : e.Stops [loose (.op .semicolon)] :=
    Ending.stops_cons rfl rfl (by decide) e []
  refine ⟨parseSource_of_reads hfunc (reads_funcFile hlisted),
    parseSource_of_reads hsource ?_⟩
  have hrest : ∀ {c : Cursor},
    c.rest = loose (.ident name) :: ((bracketed list ++ body).map loose
        ++ [loose (.op .semicolon)]) →
      c.rest = loose (.ident name) :: (loose (.op .openBracket)
        :: ((list ++ [Tok.op .closeBracket]).map loose ++ body.map loose)
          ++ [loose (.op .semicolon)]) := by
    intro c hc
    rw [hc]
    simp [bracketed]
  cases hf : f.looksLikeLength with
  | true =>
    rw [List.head?_cons, Option.any_some, hf, if_pos rfl]
    exact reads_typeFile fun hc =>
      Parser.reads_typeSpec_array rfl rfl hlisted hf hspells (hrest hc) hstop
  | false =>
    rw [List.head?_cons, Option.any_some, hf, if_neg Bool.false_ne_true]
    exact reads_typeFile fun hc =>
      Parser.reads_typeSpec_generic rfl rfl hlisted hf hspells (hrest hc) hstop

end Sources

/-! ## Samples -/

/-- Whether all tokens are read can be found out by reading them. -/
theorem Parser.exists_readsAll {α : Type} (p : Parser α) (toks : List Tok)
    (q : α → Bool)
    (h : (p (.start (toks.map loose) 0)).toOption.any
      (fun r => r.2.rest.isEmpty && q r.1) = true) :
    ∃ a, Parser.ReadsAll p toks a ∧ q a = true := by
  obtain ⟨⟨a, c⟩, hok, hall⟩ := exists_ok_of_any h
  obtain ⟨hrest, ha⟩ := Bool.and_eq_true_iff.mp hall
  exact ⟨a, ⟨c, hok, List.isEmpty_iff.mp hrest⟩, ha⟩

/-- A function with this list behind its name. -/
def sampleGenericFunc (list : String) : String :=
  "package p\nfunc N[" ++ list ++ "]()\n"

/-- A struct with this list behind its name. -/
def sampleGenericType (list : String) : String :=
  "package p\ntype N[" ++ list ++ "] struct\x7b x int \x7d\n"

/-- The tokens of the struct. -/
def sampleGenericBody : List Tok :=
  [.keyword .struct, .op .openBrace, .ident "x", .ident "int", .op .closeBrace]

theorem readsAll_sampleGenericBody :
    ∃ t, Parser.ReadsAll Parser.typeExpr sampleGenericBody t := by
  obtain ⟨t, ht, -⟩ :=
    Parser.exists_readsAll Parser.typeExpr sampleGenericBody (fun _ => true)
    (by decide +kernel)
  exact ⟨t, ht⟩

/-- The tokens of the list `P, R *T, Q any`. -/
def sampleGroups : List Tok :=
  [.ident "P", .op .comma, .ident "R", .op .star, .ident "T", .op .comma, .ident "Q",
    .ident "any"]

/-- Two names share a pointer as their constraint, so the list is not taken
for a length. -/
theorem typeParameters_agree_sampleGroups :
    ∃ params t, Parser.ReadsAll (Parser.typeParameters Parser.typeExpr)
      (bracketed sampleGroups) params ∧
      Parser.ReadsAll Parser.typeExpr sampleGenericBody t ∧
      LexesTo (sampleGenericFunc "P, R *T, Q any") (funcToks "p" "N" sampleGroups) ∧
      LexesTo (sampleGenericType "P, R *T, Q any")
        (typeToks "p" "N" sampleGroups sampleGenericBody) ∧
      (∃ file, parseSource (sampleGenericFunc "P, R *T, Q any") = .ok file ∧
        file.eraseSpans = (funcFile "p" "N" params).eraseSpans) ∧
      ∃ file, parseSource (sampleGenericType "P, R *T, Q any") = .ok file ∧
        file.eraseSpans = (if params.head?.any Field.looksLikeLength
          then typeFile "p" "N" [] (.array (.point 0) (.expr (.other (.point 0))) t)
          else typeFile "p" "N" params t).eraseSpans := by
  obtain ⟨params, hlist, -⟩ :=
    Parser.exists_readsAll (Parser.typeParameters Parser.typeExpr)
    (bracketed sampleGroups) (fun _ => true) (by decide +kernel)
  obtain ⟨t, hbody⟩ := readsAll_sampleGenericBody
  have hfunc : LexesTo (sampleGenericFunc "P, R *T, Q any")
      (funcToks "p" "N" sampleGroups) :=
    ⟨by decide +kernel, by decide +kernel⟩
  have hsource :
      LexesTo (sampleGenericType "P, R *T, Q any")
        (typeToks "p" "N" sampleGroups sampleGenericBody) :=
    ⟨by decide +kernel, by decide +kernel⟩
  exact ⟨params, t, hlist, hbody, hfunc, hsource,
    typeParameters_agree hlist hbody hfunc hsource⟩

/-- The type parameters that stand in a declaration. -/
def Decl.typeParams : Decl → List (Field TypeExpr)
  | types group => group.specs.flatMap (·.typeParams)
  | func decl => decl.typeParams
  | _ => []

/-- The tokens of the list `P *T, Q any`. -/
def samplePointer : List Tok :=
  [.ident "P", .op .star, .ident "T", .op .comma, .ident "Q", .ident "any"]

/-- The list `P *T, Q any` has two groups, and a function has both of them as
its type parameters. A type definition with the same list has none, and what it
defines has no members. -/
theorem typeParameters_disagree_pointer :
    ∃ params t funcFile file,
      Parser.ReadsAll (Parser.typeParameters Parser.typeExpr)
        (bracketed samplePointer) params ∧
      params.length = 2 ∧ Parser.ReadsAll Parser.typeExpr sampleGenericBody t ∧
      LexesTo (sampleGenericFunc "P *T, Q any") (funcToks "p" "N" samplePointer) ∧
      LexesTo (sampleGenericType "P *T, Q any")
        (typeToks "p" "N" samplePointer sampleGenericBody) ∧
      parseSource (sampleGenericFunc "P *T, Q any") = .ok funcFile ∧
      parseSource (sampleGenericType "P *T, Q any") = .ok file ∧
      (funcFile.decls.flatMap Decl.typeParams).length = 2 ∧
      file.decls.flatMap Decl.typeParams = [] ∧ file.membersOf "N" = [] := by
  have hfunc : (parseSource (sampleGenericFunc "P *T, Q any")).toOption.any
      (fun file => (file.decls.flatMap Decl.typeParams).length == 2) = true := by
    decide +kernel
  have htype : (parseSource (sampleGenericType "P *T, Q any")).toOption.any
      (fun file => (file.decls.flatMap Decl.typeParams).isEmpty
        && (file.membersOf "N").isEmpty) = true := by
    decide +kernel
  obtain ⟨params, hlist, htwo⟩ :=
    Parser.exists_readsAll (Parser.typeParameters Parser.typeExpr)
    (bracketed samplePointer) (·.length == 2) (by decide +kernel)
  obtain ⟨t, hbody⟩ := readsAll_sampleGenericBody
  obtain ⟨funcFile, hfuncFile, hgroups⟩ := exists_ok_of_any hfunc
  obtain ⟨file, hfile, hnone⟩ := exists_ok_of_any htype
  obtain ⟨hparams, hmembers⟩ := Bool.and_eq_true_iff.mp hnone
  exact ⟨params, t, funcFile, file, hlist, eq_of_beq htwo, hbody,
    ⟨by decide +kernel, by decide +kernel⟩,
    ⟨by decide +kernel, by decide +kernel⟩, hfuncFile, hfile, eq_of_beq hgroups,
    List.isEmpty_iff.mp hparams,
    List.isEmpty_iff.mp hmembers⟩

end GoInventory
