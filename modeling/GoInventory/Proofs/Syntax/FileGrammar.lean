import GoInventory.Proofs.Syntax.Grammar

/-!
# The grammar of files

Which runs of tokens spell which declarations. Bodies of functions and
initializers are kept as spans, so the grammar says no more of them than that
the span fits the tokens that were skipped.
-/

namespace GoInventory

namespace Grammar

variable (F : Placement)

/-- Tokens that are kept as a span only. -/
structure Skipped (s : Span) (run : List Token) : Prop where
  ne_nil : run ≠ []
  fits : F.fits s run

/-- The name of an import, if it has one. -/
inductive ImportName : Option Ident → List Token → Prop
  | none : ImportName none []
  | dot {s : Span} {t : Token} : t.tok = .op .dot → F.fits s [t] →
      ImportName (some ⟨".", s⟩) [t]
  | name {n : Ident} {t : Token} : IsIdent F n t → ImportName (some n) [t]

/-- One import. -/
inductive ImportRun : ImportSpec → List Token → Prop
  | mk {name : Option Ident} {path : StringLit} {run : List Token} {t : Token} :
    ImportName F name run → IsString F path t → ImportRun ⟨name, path⟩ (run ++ [t])

/-- A type that may be missing. -/
inductive TypeRun? : Option TypeExpr → List Token → Prop
  | none : TypeRun? none []
  | some {t : TypeExpr} {run : List Token} : Inner (Spells F) t run →
      TypeRun? (some t) run

/-- Initializers that may be missing. -/
inductive ValuesRun : Option Span → List Token → Prop
  | none : ValuesRun none []
  | some {s : Span} {eq : Token} {run : List Token} : eq.tok = .op .assign →
      Skipped F s run →
    ValuesRun (some s) (eq :: run)

/-- Names with their type and initializers. -/
inductive ValueRun : ValueSpec → List Token → Prop
  | mk {names : List Ident} {type : Option TypeExpr} {values : Option Span}
    {nameRun typeRun valueRun : List Token} :
      Separated (IdentRun F) .comma names nameRun →
    TypeRun? F type typeRun → ValuesRun F values valueRun →
    ValueRun ⟨names, type, values⟩ (nameRun ++ typeRun ++ valueRun)

/-- Type parameters that share a constraint. -/
inductive TypeParam : Field TypeExpr → List Token → Prop
  | mk {names : List Ident} {t : TypeExpr} {s : Span} {nameRun run : List Token} :
    Separated (IdentRun F) .comma names nameRun → Constraint F (Spells F) t run →
    F.fits s (nameRun ++ run) → TypeParam ⟨names, t, none, s⟩ (nameRun ++ run)

/-- Type parameters that may be missing. -/
inductive TypeParams : List (Field TypeExpr) → List Token → Prop
  | none : TypeParams [] []
  | some {params : List (Field TypeExpr)} {lb : Token} {run : List Token} :
    lb.tok = .op .openBracket → params ≠ [] →
    Listed (TypeParam F) .comma .closeBracket params run →
      TypeParams params (lb :: run)

/-- The sign of an alias. -/
inductive AliasSign : Bool → List Token → Prop
  | none : AliasSign false []
  | some {eq : Token} : eq.tok = .op .assign → AliasSign true [eq]

/-- A type definition or alias. -/
inductive TypeSpecRun : TypeSpec → List Token → Prop
  | mk {name : Ident} {params : List (Field TypeExpr)} {isAlias : Bool}
      {type : TypeExpr} {t : Token}
    {paramRun signRun run : List Token} : IsIdent F name t →
      TypeParams F params paramRun →
    AliasSign isAlias signRun → Inner (Spells F) type run →
    TypeSpecRun ⟨name, params, isAlias, type⟩ (t :: (paramRun ++ signRun ++ run))

/-- A keyword and its spec, or its specs in parentheses. -/
inductive GroupRun {σ : Type} (word : Keyword) (spec : σ → List Token → Prop) :
    Group σ → List Token → Prop
  | single {a : σ} {s : Span} {kw : Token} {run : List Token} :
      kw.tok = .keyword word →
    spec a run → F.fits s (kw :: run) → GroupRun word spec ⟨[a], false, s⟩ (kw :: run)
  | listed {as : List σ} {s : Span} {kw lp : Token} {run : List Token} :
      kw.tok = .keyword word →
    lp.tok = .op .openParen → Listed spec .semicolon .closeParen as run →
    F.fits s (kw :: lp :: run) → GroupRun word spec ⟨as, true, s⟩ (kw :: lp :: run)

/-- The receiver of a method, which may be missing. -/
inductive ReceiverRun : Option (Field TypeExpr) → List Token → Prop
  | none : ReceiverRun none []
  | some {f : Field TypeExpr} {run : List Token} : Params F (Spells F) [f] run →
    ReceiverRun (some f) run

/-- The body of a function, which may be missing. -/
inductive BodyRun : Option Span → List Token → Prop
  | none : BodyRun none []
  | some {s : Span} {lb : Token} {run : List Token} : lb.tok = .op .openBrace →
      Skipped F s (lb :: run) →
    BodyRun (some s) (lb :: run)

/-- A function or method. -/
inductive FuncRun : FuncDecl → List Token → Prop
  | mk {receiver : Option (Field TypeExpr)} {name : Ident}
      {typeParams : List (Field TypeExpr)}
    {sig : Signature TypeExpr} {body : Option Span} {s : Span} {kw t : Token}
    {receiverRun typeRun sigRun bodyRun : List Token} {e : Ending} :
      kw.tok = .keyword .func →
    ReceiverRun F receiver receiverRun → IsIdent F name t →
      TypeParams F typeParams typeRun →
    Sig F (Spells F) sig sigRun e → BodyRun F body bodyRun →
    F.fits s (kw :: (receiverRun ++ t :: (typeRun ++ (sigRun ++ bodyRun)))) →
    FuncRun ⟨receiver, name, typeParams, sig, body, s⟩
      (kw :: (receiverRun ++ t :: (typeRun ++ (sigRun ++ bodyRun))))

/-- A top-level declaration. -/
inductive DeclRun : Decl → List Token → Prop
  | imports {group : Group ImportSpec} {run : List Token} :
    GroupRun F .import (ImportRun F) group run → DeclRun (.imports group) run
  | consts {group : Group ValueSpec} {run : List Token} :
    GroupRun F .const (ValueRun F) group run → DeclRun (.consts group) run
  | vars {group : Group ValueSpec} {run : List Token} :
    GroupRun F .var (ValueRun F) group run → DeclRun (.vars group) run
  | types {group : Group TypeSpec} {run : List Token} :
    GroupRun F .type (TypeSpecRun F) group run → DeclRun (.types group) run
  | func {decl : FuncDecl} {run : List Token} : FuncRun F decl run →
      DeclRun (.func decl) run

/-- Only semicolons. -/
def Semicolons (run : List Token) : Prop :=
  ∀ t ∈ run, t.tok = .op .semicolon

/-- Declarations with semicolons around them. -/
inductive DeclsRun : List Decl → List Token → Prop
  | nil {run : List Token} : Semicolons run → DeclsRun [] run
  | cons {d : Decl} {ds : List Decl} {before run behind more : List Token} :
      Semicolons before →
    DeclRun F d run → Semicolons behind → DeclsRun ds more →
    DeclsRun (d :: ds) (before ++ run ++ behind ++ more)

/-- A whole file. -/
inductive FileRun : SourceFile → List Token → Prop
  | mk {package : Ident} {decls : List Decl} {kw t : Token}
      {before behind run : List Token} :
    Semicolons before → kw.tok = .keyword .package → IsIdent F package t →
      Semicolons behind →
    DeclsRun F decls run →
      FileRun ⟨package, decls⟩ (before ++ kw :: t :: (behind ++ run))

end Grammar

end GoInventory
