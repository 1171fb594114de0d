import GoInventory.Proofs.Syntax.FileGrammar
import GoInventory.Proofs.Syntax.Soundness
import GoInventory.Syntax.FileParser

/-!
# What the parser of files reads is spelled

The parser of a file passes over all tokens of the source, and they spell the
file that it gives (`fileRun_of_parseTokens`). One lemma for each parser, in the
order of the grammar.
-/

namespace GoInventory

namespace Parser

open Grammar

variable {F : Placement} {c c' : Cursor}

/-! ## What is skipped -/

/-- The search for the end of a block stops behind a token of the tokens that it
has gone through. -/
theorem blockEnd?_eq_some {tokens : List Token} :
    ∀ {depth : Nat} {last : Token} {rest : List Token},
      blockEnd? depth tokens = some (last, rest) →
      ∃ run, tokens = run ++ last :: rest := by
  induction tokens with
  | nil => intro depth last rest h; cases h
  | cons t tokens ih =>
    intro depth last rest h
    unfold blockEnd? at h
    split at h
    next =>
      obtain ⟨run, rfl⟩ := ih h
      exact ⟨t :: run, rfl⟩
    next =>
      cases h
      exact ⟨[], rfl⟩
    next =>
      obtain ⟨run, rfl⟩ := ih h
      exact ⟨t :: run, rfl⟩
    next =>
      obtain ⟨run, rfl⟩ := ih h
      exact ⟨t :: run, rfl⟩

/-- The tokens of an initializer and the tokens behind it are all the tokens. -/
theorem scan_append (tokens : List Token) :
    ∀ depth, (ExprExtent.scan depth tokens).taken
      ++ (ExprExtent.scan depth tokens).rest = tokens := by
  induction tokens with
  | nil => intro depth; rfl
  | cons t tokens ih =>
    intro depth
    unfold ExprExtent.scan
    split
    next => exact congrArg (t :: ·) (ih _)
    next =>
      split
      next =>
        split
        next => rfl
        next => exact congrArg (t :: ·) (ih _)
      next =>
        split
        next => rfl
        next => exact congrArg (t :: ·) (ih _)

/-- A body takes its first brace and everything up to the one that closes it. -/
theorem takes_block {s : Span} {tok : Tok} (h : (block : Parser Span) c = .ok (s, c'))
    (hpeek : c.peek? 0 = some tok) (hok : F.allows c.rest) :
    ∃ lb run, lb.tok = tok ∧ c.Passes (lb :: run) c' ∧ Skipped F s (lb :: run) := by
  unfold block at h
  rw [here_bind] at h
  obtain ⟨_, c₁, hopen, h₁⟩ := bind_eq_ok_iff.mp h
  obtain ⟨lb, hlb, hp₁⟩ := advance_ok hopen hpeek
  obtain ⟨_, c₂, hskip, h₂⟩ := bind_eq_ok_iff.mp h₁
  cases h₂
  dsimp only [skipBody, AtCursor.skipBody] at hskip
  cases hend : blockEnd? 0 c₁.rest with
  | none =>
    rw [hend] at hskip
    cases hskip
  | some r =>
    obtain ⟨last, rest⟩ := r
    rw [hend] at hskip
    cases hskip
    obtain ⟨run, hrun⟩ := blockEnd?_eq_some hend
    have hp₂ : c₁.Passes (run ++ [last]) (c₁.after last rest) := by
      refine ⟨by rw [hrun, List.append_assoc]; rfl, ?_⟩
      rw [List.getLast?_append]
      rfl
    have hp := hp₁.trans hp₂
    exact ⟨lb, run ++ [last], hlb, hp, by simp, hp.fits_since hok (by simp)⟩

/-- Initializers take at least one token. -/
theorem takes_expressions : Takes F expressions (Skipped F) := by
  intro c c' s h hok
  unfold expressions at h
  rw [here_bind] at h
  obtain ⟨_, c₁, hskip, h₁⟩ := bind_eq_ok_iff.mp h
  cases h₁
  dsimp only [skipExpressions, AtCursor.skipExpressions] at hskip
  by_cases hdepth : (ExprExtent.scan 0 c.rest).depth > 0
  · rw [if_pos hdepth] at hskip
    cases hskip
  rw [if_neg hdepth] at hskip
  cases hlast : (ExprExtent.scan 0 c.rest).taken.getLast? with
  | none =>
    rw [hlast] at hskip
    cases hskip
  | some last =>
    rw [hlast] at hskip
    cases hskip
    have hp : c.Passes (ExprExtent.scan 0 c.rest).taken
        (c.after last (ExprExtent.scan 0 c.rest).rest) := by
      refine ⟨(scan_append c.rest 0).symm, ?_⟩
      rw [hlast]
      rfl
    have hne : (ExprExtent.scan 0 c.rest).taken ≠ [] := by
      intro heq
      rw [heq] at hlast
      cases hlast
    exact ⟨_, hp, hne, hp.fits_since hok hne⟩

/-! ## Specs -/

/-- A dot or a name before the path, or nothing. -/
theorem takes_importName : Takes F importName? (ImportName F) := by
  refine takes_of_ask fun c => ?_
  split
  next hpeek =>
    intro c' name h hok
    rw [here_bind] at h
    obtain ⟨_, c₁, hdot, h₁⟩ := bind_eq_ok_iff.mp h
    cases h₁
    obtain ⟨t, ht, hp⟩ := advance_ok hdot hpeek
    have hhere : c.here = .clamp t.start t.stop := by
      unfold Cursor.here
      rw [hp.rest]
      rfl
    rw [hhere]
    exact ⟨[t], hp, .dot ht (F.fits_extent (hp.allows_run hok) rfl rfl)⟩
  next =>
    intro c' name h hok
    obtain ⟨n, c₁, hn, h₁⟩ := bind_eq_ok_iff.mp h
    cases h₁
    obtain ⟨t, ht, hp⟩ := ident_ok hn hok
    exact ⟨[t], hp, .name ht⟩
  next => exact takesAt_pure .none

/-- An import takes its name and its path. -/
theorem takes_importSpec : Takes F importSpec (ImportRun F) := by
  intro c c' spec h hok
  obtain ⟨name, c₁, hname, h₁⟩ := bind_eq_ok_iff.mp h
  obtain ⟨run, hp₁, hrun⟩ := takes_importName hname hok
  obtain ⟨path, c₂, hpath, h₂⟩ := bind_eq_ok_iff.mp h₁
  cases h₂
  obtain ⟨t, ht, hp₂⟩ := stringLit_ok hpath (hp₁.allows hok)
  exact ⟨_, hp₁.trans hp₂, .mk hrun ht⟩

/-- A type, if there is one. -/
theorem takes_valueType : Takes F valueType? (TypeRun? F) := by
  refine takes_of_ask fun c => ?_
  split
  next =>
    split
    next =>
      intro c' type h hok
      obtain ⟨t, c₁, ht, h₁⟩ := bind_eq_ok_iff.mp h
      cases h₁
      obtain ⟨run, hp, hspells⟩ := takes_typeExpr ht hok
      exact ⟨run, hp, .some hspells⟩
    next => exact takesAt_pure .none
  next => exact takesAt_pure .none

/-- An equals sign and initializers, or nothing. -/
theorem takes_values : Takes F values? (ValuesRun F) := by
  intro c c' values h hok
  obtain ⟨b, c₁, heat, h₁⟩ := bind_eq_ok_iff.mp h
  rcases eat_ok heat with ⟨rfl, eq, heq, hp₁⟩ | ⟨rfl, rfl, -⟩
  · obtain ⟨s, c₂, hs, h₂⟩ := bind_eq_ok_iff.mp h₁
    cases h₂
    obtain ⟨run, hp₂, hrun⟩ := takes_expressions hs (hp₁.allows hok)
    exact ⟨_, hp₁.trans hp₂, .some heq hrun⟩
  · cases h₁
    exact ⟨[], .refl _, .none⟩

/-- **A value declaration takes names, a type and initializers**, in this order. -/
theorem takes_valueSpec : Takes F valueSpec (ValueRun F) := by
  intro c c' spec h hok
  obtain ⟨names, c₁, hnames, h₁⟩ := bind_eq_ok_iff.mp h
  obtain ⟨nameRun, hp₁, hnameRun⟩ := takes_identList hnames hok
  have hok₁ := hp₁.allows hok
  obtain ⟨type, c₂, htype, h₂⟩ := bind_eq_ok_iff.mp h₁
  obtain ⟨typeRun, hp₂, htypeRun⟩ := takes_valueType htype hok₁
  obtain ⟨values, c₃, hvalues, h₃⟩ := bind_eq_ok_iff.mp h₂
  cases h₃
  obtain ⟨valueRun, hp₃, hvalueRun⟩ := takes_values hvalues (hp₂.allows hok₁)
  exact ⟨_, (hp₁.trans hp₂).trans hp₃, .mk hnameRun htypeRun hvalueRun⟩

/-- The check for a missing value takes nothing. -/
theorem takes_constSpec (grouped : Bool) :
    Takes F (constSpec grouped) (ValueRun F) := by
  intro c c' spec h hok
  obtain ⟨spec', c₁, hspec, h₁⟩ := bind_eq_ok_iff.mp h
  cases hvalid : spec'.values.isNone && !(grouped && spec'.type.isNone) with
  | true =>
    rw [hvalid] at h₁
    cases h₁
  | false =>
    rw [hvalid] at h₁
    cases h₁
    exact takes_valueSpec hspec hok

theorem takes_varSpec : Takes F varSpec (ValueRun F) := by
  intro c c' spec h hok
  obtain ⟨spec', c₁, hspec, h₁⟩ := bind_eq_ok_iff.mp h
  cases hvalid : spec'.values.isNone && spec'.type.isNone with
  | true =>
    rw [hvalid] at h₁
    cases h₁
  | false =>
    rw [hvalid] at h₁
    cases h₁
    exact takes_valueSpec hspec hok

/-- A group of type parameters takes names and a constraint. -/
theorem takes_typeParameter : Takes F (typeParameter typeExpr) (TypeParam F) := by
  intro c c' f h hok
  unfold typeParameter typeParameterOf at h
  rw [here_bind] at h
  obtain ⟨names, c₁, hnames, h₁⟩ := bind_eq_ok_iff.mp h
  obtain ⟨nameRun, hp₁, hnameRun⟩ := takes_identList hnames hok
  obtain ⟨t, c₂, ht, h₂⟩ := bind_eq_ok_iff.mp h₁
  obtain ⟨run, hp₂, hrun, hne⟩ := takes_constraint takes_typeExpr ht (hp₁.allows hok)
  rw [since_bind] at h₂
  cases h₂
  have hp := hp₁.trans hp₂
  exact ⟨_, hp, .mk hnameRun hrun (hp.fits_since hok (by simp [hne]))⟩

/-- Type parameters take their brackets, and there is at least one. -/
theorem takes_typeParameters {params : List (Field TypeExpr)}
    (h : (typeParameters typeExpr : Parser (List (Field TypeExpr))) c
      = .ok (params, c'))
    (hpeek : c.peek? 0 = some (.op .openBracket)) (hok : F.allows c.rest) :
    ∃ run, c.Passes run c' ∧ TypeParams F params run := by
  obtain ⟨_, c₁, hopen, h₁⟩ := bind_eq_ok_iff.mp h
  obtain ⟨lb, hlb, hp₁⟩ := advance_ok hopen hpeek
  obtain ⟨params', c₂, hparams, h₂⟩ := bind_eq_ok_iff.mp h₁
  obtain ⟨run, hp₂, hlisted⟩ :=
    takes_commaList takes_typeParameter hparams (hp₁.allows hok)
  rw [here_bind] at h₂
  cases params' with
  | nil => cases h₂
  | cons f more =>
    cases h₂
    exact ⟨_, hp₁.trans hp₂, .some hlb (List.cons_ne_nil _ _) hlisted⟩

/-- Type parameters, if the lookahead has seen them. -/
theorem takes_specTypeParameters : Takes F specTypeParameters (TypeParams F) := by
  refine takes_of_ask fun c => ?_
  split
  next hbrackets =>
    intro c' params h hok
    have hpeek : c.peek? 0 = some (.op .openBracket) := by
      exact eq_of_beq (Bool.and_eq_true_iff.mp hbrackets).1
    exact takes_typeParameters h hpeek hok
  next => exact takesAt_pure .none

/-- A type declaration takes a name, type parameters, perhaps an equals
sign, and a type. -/
theorem takes_typeSpec : Takes F typeSpec (TypeSpecRun F) := by
  intro c c' spec h hok
  obtain ⟨name, c₁, hname, h₁⟩ := bind_eq_ok_iff.mp h
  obtain ⟨t, ht, hp₁⟩ := ident_ok hname hok
  have hok₁ := hp₁.allows hok
  obtain ⟨params, c₂, hparams, h₂⟩ := bind_eq_ok_iff.mp h₁
  obtain ⟨paramRun, hp₂, hparamRun⟩ := takes_specTypeParameters hparams hok₁
  have hok₂ := hp₂.allows hok₁
  obtain ⟨isAlias, c₃, halias, h₃⟩ := bind_eq_ok_iff.mp h₂
  obtain ⟨signRun, hp₃, hsign⟩ : ∃ signRun, c₂.Passes signRun c₃ ∧
    AliasSign isAlias signRun := by
    rcases eat_ok halias with ⟨rfl, eq, heq, hp₃⟩ | ⟨rfl, rfl, -⟩
    · exact ⟨_, hp₃, .some heq⟩
    · exact ⟨[], .refl _, .none⟩
  obtain ⟨type, c₄, htype, h₄⟩ := bind_eq_ok_iff.mp h₃
  cases h₄
  obtain ⟨run, hp₄, hrun⟩ := takes_typeExpr htype (hp₃.allows hok₂)
  exact ⟨_, hp₁.trans ((hp₂.trans hp₃).trans hp₄), .mk ht hparamRun hsign hrun⟩

/-! ## Groups and functions -/

section Groups

variable {σ : Type} {spec : Bool → Parser σ} {spelled : σ → List Token → Prop}

theorem takes_groupedSpec {p : Parser σ} (hp : Takes F p spelled) :
    Takes F (groupedSpec p) spelled := by
  refine takes_of_ask fun c => ?_
  split
  next => exact takesAt_unexpected
  next => exact fun _ _ h hok => hp h hok

/-- A group takes its keyword, and its parentheses if it has any. -/
theorem takes_group {word : Keyword} (hspec : ∀ b, Takes F (spec b) spelled)
    {g : Group σ} (h : group spec c = .ok (g, c'))
    (hpeek : c.peek? 0 = some (.keyword word)) (hok : F.allows c.rest) :
    ∃ run, c.Passes run c' ∧ GroupRun F word spelled g run := by
  unfold group groupOf at h
  rw [here_bind] at h
  obtain ⟨_, c₁, hword, h₁⟩ := bind_eq_ok_iff.mp h
  obtain ⟨kw, hkw, hp₁⟩ := advance_ok hword hpeek
  have hok₁ := hp₁.allows hok
  obtain ⟨b, c₂, heat, h₂⟩ := bind_eq_ok_iff.mp h₁
  rcases eat_ok heat with ⟨rfl, lp, hlp, hp₂⟩ | ⟨rfl, rfl, -⟩
  · obtain ⟨specs, c₃, hspecs, h₃⟩ := bind_eq_ok_iff.mp h₂
    obtain ⟨run, hp₃, hlisted⟩ :=
      takes_memberList (takes_groupedSpec (hspec true)) hspecs (hp₂.allows hok₁)
    rw [since_bind] at h₃
    cases h₃
    have hp := hp₁.trans (hp₂.trans hp₃)
    exact ⟨_, hp, .listed hkw hlp hlisted (hp.fits_since hok (by simp))⟩
  · obtain ⟨only, c₃, honly, h₃⟩ := bind_eq_ok_iff.mp h₂
    obtain ⟨run, hp₂, hrun⟩ := hspec false honly hok₁
    rw [since_bind] at h₃
    cases h₃
    have hp := hp₁.trans hp₂
    exact ⟨_, hp, .single hkw hrun (hp.fits_since hok (by simp))⟩

end Groups

/-- A receiver takes a list of parameters with one group. -/
theorem takes_receiver : Takes F receiver? (ReceiverRun F) := by
  refine takes_of_ask fun c => ?_
  split
  next =>
    intro c' f h hok
    obtain ⟨field, c₁, hfield, h₁⟩ := bind_eq_ok_iff.mp h
    cases h₁
    unfold receiver onlyReceiver at hfield
    rw [here_bind] at hfield
    obtain ⟨fields, c₂, hfields, h₂⟩ := bind_eq_ok_iff.mp hfield
    obtain ⟨run, hp, hrun⟩ := takes_parameters takes_typeExpr hfields hok
    obtain _ | ⟨only, _ | ⟨second, more⟩⟩ := fields
    · cases h₂
    · cases h₂
      exact ⟨run, hp, .some hrun⟩
    · cases h₂
  next => exact takesAt_pure .none

theorem takes_funcTypeParameters : Takes F funcTypeParameters (TypeParams F) := by
  refine takes_of_ask fun c => ?_
  split
  next hnext => exact fun _ _ h hok => takes_typeParameters h (eq_of_beq hnext) hok
  next => exact takesAt_pure .none

theorem takes_body : Takes F body? (BodyRun F) := by
  refine takes_of_ask fun c => ?_
  split
  next hnext =>
    intro c' body h hok
    obtain ⟨s, c₁, hs, h₁⟩ := bind_eq_ok_iff.mp h
    cases h₁
    obtain ⟨lb, run, hlb, hp, hrun⟩ := takes_block hs (eq_of_beq hnext) hok
    exact ⟨lb :: run, hp, .some hlb hrun⟩
  next => exact takesAt_pure .none

/-- A function takes everything from its keyword to its body. -/
theorem takes_funcDecl {d : FuncDecl}
    (h : (funcDecl : Parser FuncDecl) c = .ok (d, c'))
    (hpeek : c.peek? 0 = some (.keyword .func)) (hok : F.allows c.rest) :
    ∃ run, c.Passes run c' ∧ FuncRun F d run := by
  unfold funcDecl funcDeclOf at h
  rw [here_bind] at h
  obtain ⟨_, c₁, hfunc, h₁⟩ := bind_eq_ok_iff.mp h
  obtain ⟨kw, hkw, hp₁⟩ := advance_ok hfunc hpeek
  have hok₁ := hp₁.allows hok
  obtain ⟨receiver, c₂, hreceiver, h₂⟩ := bind_eq_ok_iff.mp h₁
  obtain ⟨receiverRun, hp₂, hreceiverRun⟩ := takes_receiver hreceiver hok₁
  have hok₂ := hp₂.allows hok₁
  obtain ⟨name, c₃, hname, h₃⟩ := bind_eq_ok_iff.mp h₂
  obtain ⟨t, ht, hp₃⟩ := ident_ok hname hok₂
  have hok₃ := hp₃.allows hok₂
  obtain ⟨typeParams, c₄, htypes, h₄⟩ := bind_eq_ok_iff.mp h₃
  obtain ⟨typeRun, hp₄, htypeRun⟩ := takes_funcTypeParameters htypes hok₃
  have hok₄ := hp₄.allows hok₃
  obtain ⟨sig, c₅, hsig, h₅⟩ := bind_eq_ok_iff.mp h₄
  obtain ⟨sigRun, e, hp₅, hsigRun, -⟩ := takes_signature takes_typeExpr hsig hok₄
  obtain ⟨body, c₆, hbody, h₆⟩ := bind_eq_ok_iff.mp h₅
  obtain ⟨bodyRun, hp₆, hbodyRun⟩ := takes_body hbody (hp₅.allows hok₄)
  rw [since_bind] at h₆
  cases h₆
  have hp := hp₁.trans (hp₂.trans (hp₃.trans (hp₄.trans (hp₅.trans hp₆))))
  exact ⟨kw :: (receiverRun ++ t :: (typeRun ++ (sigRun ++ bodyRun))), hp,
    .mk hkw hreceiverRun ht htypeRun hsigRun hbodyRun (hp.fits_since hok (by simp))⟩

/-! ## Declarations and files -/

/-- **A declaration takes the tokens that spell it.** -/
theorem takes_decl : Takes F decl (DeclRun F) := by
  refine takes_of_ask fun c => ?_
  split
  next hpeek =>
    intro c' d h hok
    obtain ⟨g, c₁, hg, h₁⟩ := bind_eq_ok_iff.mp h
    cases h₁
    obtain ⟨run, hp, hrun⟩ := takes_group (fun _ => takes_importSpec) hg hpeek hok
    exact ⟨run, hp, .imports hrun⟩
  next hpeek =>
    intro c' d h hok
    obtain ⟨g, c₁, hg, h₁⟩ := bind_eq_ok_iff.mp h
    cases h₁
    obtain ⟨run, hp, hrun⟩ := takes_group takes_constSpec hg hpeek hok
    exact ⟨run, hp, .consts hrun⟩
  next hpeek =>
    intro c' d h hok
    obtain ⟨g, c₁, hg, h₁⟩ := bind_eq_ok_iff.mp h
    cases h₁
    obtain ⟨run, hp, hrun⟩ := takes_group (fun _ => takes_varSpec) hg hpeek hok
    exact ⟨run, hp, .vars hrun⟩
  next hpeek =>
    intro c' d h hok
    obtain ⟨g, c₁, hg, h₁⟩ := bind_eq_ok_iff.mp h
    cases h₁
    obtain ⟨run, hp, hrun⟩ := takes_group (fun _ => takes_typeSpec) hg hpeek hok
    exact ⟨run, hp, .types hrun⟩
  next hpeek =>
    intro c' d h hok
    obtain ⟨f, c₁, hf, h₁⟩ := bind_eq_ok_iff.mp h
    cases h₁
    obtain ⟨run, hp, hrun⟩ := takes_funcDecl hf hpeek hok
    exact ⟨run, hp, .func hrun⟩
  next => exact takesAt_unexpected

theorem takes_semicolonItems (bound : Nat) :
    Takes F (semicolonItems bound) fun _ run => Semicolons run := by
  induction bound with
  | zero =>
    intro c c' u h hok
    cases h
    exact ⟨[], .refl _, fun t ht => by cases ht⟩
  | succ bound ih =>
    intro c c' u h hok
    obtain ⟨b, c₁, heat, h₁⟩ := bind_eq_ok_iff.mp h
    rcases eat_ok heat with ⟨rfl, t, ht, hp₁⟩ | ⟨rfl, rfl, -⟩
    · obtain ⟨run, hp₂, hrun⟩ := ih h₁ (hp₁.allows hok)
      exact ⟨_, hp₁.trans hp₂, List.forall_mem_cons.mpr ⟨ht, hrun⟩⟩
    · cases h₁
      exact ⟨[], .refl _, fun t ht => by cases ht⟩

/-- Only semicolons are taken. -/
theorem takes_semicolons : Takes F semicolons fun _ run => Semicolons run :=
  takes_bounded takes_semicolonItems

/-- A semicolon is taken, or nothing at the end of the source. -/
theorem takes_terminator {expected : Expected} :
    Takes F (terminator expected) fun _ run => Semicolons run := by
  intro c c' u h hok
  dsimp only [terminator, AtCursor.terminator] at h
  split at h
  next =>
    cases h
    exact ⟨[], .refl _, fun t ht => by cases ht⟩
  next t rest hc =>
    split at h
    next ht =>
      cases h
      refine ⟨[t], .after hc, fun u hu => ?_⟩
      rw [List.mem_singleton.mp hu]
      exact ht
    next => cases h

/-- The declarations of a file go on to its end. -/
theorem declItems_ok (bound : Nat) : ∀ {c c' : Cursor} {ds : List Decl},
    (declItems decl bound : Parser (List Decl)) c = .ok (ds, c') → F.allows c.rest →
    ∃ run, c.Passes run c' ∧ DeclsRun F ds run ∧ c'.rest = [] := by
  induction bound with
  | zero => intro c c' ds h; cases h
  | succ bound ih =>
    intro c c' ds h hok
    obtain ⟨_, c₁, hsemi, h₁⟩ := bind_eq_ok_iff.mp h
    obtain ⟨before, hp₁, hbefore⟩ := takes_semicolons hsemi hok
    have hok₁ := hp₁.allows hok
    rw [peek?_bind] at h₁
    -- the loop stops only where no token is left
    cases hpeek : c₁.peek? 0 with
    | none =>
      rw [hpeek] at h₁
      cases h₁
      refine ⟨before, hp₁, .nil hbefore, ?_⟩
      cases hrest : c'.rest with
      | nil => rfl
      | cons t rest => simp [Cursor.peek?, hrest] at hpeek
    | some tok =>
      rw [hpeek] at h₁
      obtain ⟨d, c₂, hd, h₂⟩ := bind_eq_ok_iff.mp h₁
      obtain ⟨run, hp₂, hrun⟩ := takes_decl hd hok₁
      have hok₂ := hp₂.allows hok₁
      obtain ⟨_, c₃, hend, h₃⟩ := bind_eq_ok_iff.mp h₂
      obtain ⟨behind, hp₃, hbehind⟩ := takes_terminator hend hok₂
      obtain ⟨others, c₄, hothers, h₄⟩ := bind_eq_ok_iff.mp h₃
      cases h₄
      obtain ⟨more, hp₄, hmore, hrest⟩ := ih hothers (hp₃.allows hok₂)
      exact ⟨_, ((hp₁.trans hp₂).trans hp₃).trans hp₄,
        .cons hbefore hrun hbehind hmore, hrest⟩

/-- **The tokens of a file that was parsed spell the file.** -/
theorem file_ok {f : SourceFile} (h : file c = .ok (f, c')) (hok : F.allows c.rest) :
    FileRun F f c.rest := by
  obtain ⟨_, c₁, hsemi, h₁⟩ := bind_eq_ok_iff.mp h
  obtain ⟨before, hp₁, hbefore⟩ := takes_semicolons hsemi hok
  obtain ⟨_, c₂, hpackage, h₂⟩ := bind_eq_ok_iff.mp h₁
  obtain ⟨kw, hkw, hp₂⟩ := expect_ok hpackage
  have hok₂ := (hp₁.trans hp₂).allows hok
  obtain ⟨name, c₃, hname, h₃⟩ := bind_eq_ok_iff.mp h₂
  obtain ⟨t, ht, hp₃⟩ := ident_ok hname hok₂
  have hok₃ := hp₃.allows hok₂
  obtain ⟨_, c₄, hend, h₄⟩ := bind_eq_ok_iff.mp h₃
  obtain ⟨behind, hp₄, hbehind⟩ := takes_terminator hend hok₃
  obtain ⟨decls, c₅, hdecls, h₅⟩ := bind_eq_ok_iff.mp h₄
  cases h₅
  obtain ⟨run, hp₅, hrun, hrest⟩ := declItems_ok _ hdecls (hp₄.allows hok₃)
  have hp := hp₁.trans (hp₂.trans (hp₃.trans (hp₄.trans hp₅)))
  have hall : c.rest = before ++ kw :: t :: (behind ++ run) := by
    rw [hp.rest, hrest, List.append_nil]
    rfl
  rw [hall]
  exact .mk hbefore hkw ht hbehind hrun

end Parser

/-- Tokens are a file if it can be parsed from them. -/
theorem parseTokens_eq_ok_iff {tokens : List Token} {length : Nat} {f : SourceFile} :
    parseTokens tokens length = .ok f ↔
      ∃ c', Parser.file (.start tokens length) = .ok (f, c') := by
  unfold parseTokens
  cases Parser.file (.start tokens length) with
  | error e => simp [Except.map]
  | ok r =>
    obtain ⟨f', c⟩ := r
    simp [Except.map]

/-- **The tokens of a source spell the file that is parsed from it.** -/
theorem fileRun_of_parseTokens {F : Placement} {tokens : List Token} {length : Nat}
    {f : SourceFile} (h : parseTokens tokens length = .ok f) (hok : F.allows tokens) :
    Grammar.FileRun F f tokens := by
  obtain ⟨c', hfile⟩ := parseTokens_eq_ok_iff.mp h
  exact Parser.file_ok hfile hok

end GoInventory
