import GoInventory.Proofs.Syntax.Brackets

/-!
# The grammar of types

Which runs of tokens spell which type. The relations are written down the way
the language describes its syntax, without any of the looking ahead that the
parser does: names and groups, lists with separators, and one rule for each form
of type. Like the parsers they are parametric in what is inside: `R` says which
runs spell the types within, and `Spells` ties the knot by bounding how deep
types are nested.

Two things are carried along. A `Placement` says how the span of a node has to
fit the tokens of the node; `Placement.anywhere` asks for nothing, so that a
tree is spelled by tokens in any places. And the `Ending` of a run says which
next tokens would go on with the type: `T` with a dot or a bracket, `func()`
with anything that starts a result.
-/

namespace GoInventory

/-- How the span of a node has to fit the run of tokens that it was read from.
The last three fields say that spans as the parser makes them do fit, at least
in the runs that are allowed. -/
structure Placement where
  allows : List Token → Prop
  fits : Span → List Token → Prop
  allows_left : ∀ {a b : List Token}, allows (a ++ b) → allows a
  allows_right : ∀ {a b : List Token}, allows (a ++ b) → allows b
  fits_extent : ∀ {run : List Token} {first last : Token}, allows run →
    run.head? = some first → run.getLast? = some last →
      fits (.clamp first.start last.stop) run
  fits_since : ∀ {run : List Token} {first last : Token}, allows run →
    run.head? = some first → run.getLast? = some last →
    fits (.clamp first.span.start (max last.stop first.span.start)) run
  fits_join : ∀ {a between b : List Token} {s s' : Span}, allows (a ++ between ++ b) →
    a ≠ [] → b ≠ [] → fits s a → fits s' b →
      fits ⟨s.start, s'.stop⟩ (a ++ between ++ b)

/-- Every span fits. -/
def Placement.anywhere : Placement where
  allows := fun _ => True
  fits := fun _ _ => True
  allows_left := fun _ => trivial
  allows_right := fun _ => trivial
  fits_extent := fun _ _ _ => trivial
  fits_since := fun _ _ _ => trivial
  fits_join := fun _ _ _ _ _ => trivial

namespace Grammar

/-- How the tokens of a type end: with a plain name, with a qualified one,
with the parameters of a function without results, or with a token that
closes the type. -/
inductive Ending where
  | name
  | qualified
  | params
  | closed
deriving DecidableEq, Repr

namespace Ending

/-- The token would go on with a type that ends like this. -/
def continuedBy : Ending → Tok → Bool
  | name, tok => tok == .op .dot || tok == .op .openBracket
  | qualified, tok => tok == .op .openBracket
  | params, tok => tok.startsType
  | closed, _ => false

/-- What follows does not go on with the type. -/
def Stops (e : Ending) (rest : List Token) : Prop :=
  ∀ t ∈ rest.head?, e.continuedBy t.tok = false

end Ending

section Lists

variable {α : Type} (item : α → List Token → Prop)

/-- Items up to the operator `close`, with the operator `separator` between them
and perhaps after the last one. -/
inductive Listed (separator close : Operator) : List α → List Token → Prop
  | none {t : Token} : t.tok = .op close → Listed separator close [] [t]
  | last {a : α} {run : List Token} {t : Token} : item a run → t.tok = .op close →
    Listed separator close [a] (run ++ [t])
  | cons {a : α} {as : List α} {run more : List Token} {sep : Token} : item a run →
    sep.tok = .op separator → Listed separator close as more →
    Listed separator close (a :: as) (run ++ sep :: more)

/-- One item or more, with the operator `separator` between them. -/
inductive Separated (separator : Operator) : List α → List Token → Prop
  | one {a : α} {run : List Token} : item a run → Separated separator [a] run
  | cons {a : α} {as : List α} {run more : List Token} {sep : Token} : item a run →
    sep.tok = .op separator → Separated separator as more →
    Separated separator (a :: as) (run ++ sep :: more)

end Lists

section Leaves

variable (F : Placement)

/-- The token is this identifier. -/
def IsIdent (n : Ident) (t : Token) : Prop :=
  t.tok = .ident n.name ∧ F.fits n.span [t]

/-- The run is this identifier. -/
def IdentRun (n : Ident) (run : List Token) : Prop :=
  ∃ t, run = [t] ∧ IsIdent F n t

/-- The token is this string literal. -/
inductive IsString : StringLit → Token → Prop
  | interpreted {t : Token} {text : String} {s : Span} :
      t.tok = .literal .string text →
    F.fits s [t] → IsString ⟨.interpreted, text, s⟩ t
  | raw {t : Token} {text : String} {s : Span} : t.tok = .literal .rawString text →
    F.fits s [t] → IsString ⟨.raw, text, s⟩ t

/-- A struct member's tag, if it has one. -/
inductive Tag : Option StringLit → List Token → Prop
  | none : Tag none []
  | some {lit : StringLit} {t : Token} : IsString F lit t → Tag (some lit) [t]

/-- The name of a type. -/
inductive Name : TypeName → List Token → Ending → Prop
  | plain {n : Ident} {t : Token} : IsIdent F n t → Name (.plain n) [t] .name
  | qualified {s : Span} {pkg n : Ident} {t dot u : Token} : IsIdent F pkg t →
    dot.tok = .op .dot → IsIdent F n u → F.fits s [t, dot, u] →
    Name (.qualified s pkg n) [t, dot, u] .qualified

/-- The run is no name, no qualified name and no literal. -/
structure IsOther (run : List Token) : Prop where
  not_leaf : ∀ t, run = [t] → t.tok.text? = none
  not_selector : ∀ t dot u pkg sel, run = [t, dot, u] → t.tok = .ident pkg →
    dot.tok = .op .dot → u.tok ≠ .ident sel

/-- An array length that is an expression. -/
inductive Length : LengthExpr → List Token → Prop
  | ident {n : Ident} {t : Token} : IsIdent F n t → Length (.ident n) [t]
  | selector {s : Span} {pkg sel : Ident} {t dot u : Token} : IsIdent F pkg t →
    dot.tok = .op .dot → IsIdent F sel u → F.fits s [t, dot, u] →
    Length (.selector s pkg sel) [t, dot, u]
  | literal {s : Span} {kind : LiteralKind} {text : String} {t : Token} :
    t.tok = .literal kind text → F.fits s [t] → Length (.literal s kind text) [t]
  | other {s : Span} {run : List Token} : IsOther run → F.fits s run →
      Length (.other s) run

/-- What stands between the brackets of an array type. -/
inductive Bound : ArrayLength → List Token → Prop
  | ellipsis {dots : Token} : dots.tok = .op .ellipsis → Bound .ellipsis [dots]
  | expr {length : LengthExpr} {first : Token} {run : List Token} :
    first.tok ≠ .op .ellipsis → Balanced (first :: run) →
      Length F length (first :: run) →
    Bound (.expr length) (first :: run)

end Leaves

section Forms

variable (F : Placement) (R : TypeExpr → List Token → Ending → Prop)

/-- A type, however it ends. -/
def Inner (t : TypeExpr) (run : List Token) : Prop :=
  ∃ e, R t run e

/-- The type of a parameter, which may be variadic. -/
inductive ParamType : TypeExpr → List Token → Prop
  | plain {t : TypeExpr} {run : List Token} : Inner R t run → ParamType t run
  | variadic {s : Span} {t : TypeExpr} {dots : Token} {run : List Token} :
    dots.tok = .op .ellipsis → Inner R t run → F.fits s (dots :: run) →
    ParamType (.variadic s t) (dots :: run)

/-- A parameter without a name. -/
inductive UnnamedParam : Field TypeExpr → List Token → Prop
  | mk {t : TypeExpr} {s : Span} {run : List Token} : ParamType F R t run →
      F.fits s run →
    UnnamedParam ⟨[], t, none, s⟩ run

/-- Parameters that share a type. -/
inductive NamedParams : Field TypeExpr → List Token → Prop
  | mk {names : List Ident} {t : TypeExpr} {s : Span} {nameRun run : List Token} :
    Separated (IdentRun F) .comma names nameRun → ParamType F R t run →
    F.fits s (nameRun ++ run) → NamedParams ⟨names, t, none, s⟩ (nameRun ++ run)

/-- Parameters or results in parentheses: either all have names or none has. -/
inductive Params : List (Field TypeExpr) → List Token → Prop
  | unnamed {fields : List (Field TypeExpr)} {lp : Token} {run : List Token} :
    lp.tok = .op .openParen →
      Listed (UnnamedParam F R) .comma .closeParen fields run →
    Params fields (lp :: run)
  | named {fields : List (Field TypeExpr)} {lp : Token} {run : List Token} :
    lp.tok = .op .openParen → Listed (NamedParams F R) .comma .closeParen fields run →
    Params fields (lp :: run)

/-- The results of a function: none, a list in parentheses, or one bare type. -/
inductive Results : List (Field TypeExpr) → List Token → Ending → Prop
  | none : Results [] [] .params
  | listed {fields : List (Field TypeExpr)} {run : List Token} :
      Params F R fields run →
    Results fields run .closed
  | bare {t : TypeExpr} {s : Span} {first : Token} {run : List Token} {e : Ending} :
    first.tok ≠ .op .openParen → R t (first :: run) e → F.fits s (first :: run) →
    Results [⟨[], t, none, s⟩] (first :: run) e

/-- Parameters and results. -/
inductive Sig : Signature TypeExpr → List Token → Ending → Prop
  | mk {params results : List (Field TypeExpr)} {s : Span}
      {paramRun resultRun : List Token}
    {e : Ending} : Params F R params paramRun → Results F R results resultRun e →
    F.fits s (paramRun ++ resultRun) →
      Sig ⟨params, results, s⟩ (paramRun ++ resultRun) e

/-- A term of a constraint. -/
inductive TermRun : Term TypeExpr → List Token → Prop
  | plain {t : TypeExpr} {run : List Token} : Inner R t run → TermRun ⟨false, t⟩ run
  | tilde {t : TypeExpr} {mark : Token} {run : List Token} : mark.tok = .op .tilde →
    Inner R t run → TermRun ⟨true, t⟩ (mark :: run)

/-- A constraint: a type, or a union that is more than a type. -/
inductive Constraint : TypeExpr → List Token → Prop
  | plain {t : TypeExpr} {run : List Token} : Inner R t run → Constraint t run
  | union {s : Span} {terms : List (Term TypeExpr)} {run : List Token} :
    (∀ t, terms ≠ [⟨false, t⟩]) → Separated (TermRun R) .pipe terms run →
      F.fits s run →
    Constraint (.union s terms) run

/-- The token starts an embedded struct member. -/
def StartsEmbedded (t : Token) : Prop :=
  t.tok = .op .star ∨ ∃ name, t.tok = .ident name

/-- A member of a struct: names with their type, or an embedded type, and
perhaps a tag. -/
inductive MemberRun : Field TypeExpr → List Token → Prop
  | named {names : List Ident} {t : TypeExpr} {tag : Option StringLit} {s : Span}
    {nameRun run tagRun : List Token} : Separated (IdentRun F) .comma names nameRun →
    Inner R t run → Tag F tag tagRun → F.fits s (nameRun ++ run ++ tagRun) →
    MemberRun ⟨names, t, tag, s⟩ (nameRun ++ run ++ tagRun)
  | embedded {t : TypeExpr} {tag : Option StringLit} {s : Span} {first : Token}
    {run tagRun : List Token} : StartsEmbedded first → Inner R t (first :: run) →
    Tag F tag tagRun → F.fits s (first :: run ++ tagRun) →
    MemberRun ⟨[], t, tag, s⟩ (first :: run ++ tagRun)

/-- An element of an interface: a method, or a constraint. -/
inductive ElementRun : Field TypeExpr → List Token → Prop
  | method {n : Ident} {sig : Signature TypeExpr} {s s' : Span} {t : Token}
      {run : List Token}
    {e : Ending} : IsIdent F n t → Sig F R sig run e → F.fits s' run →
      F.fits s (t :: run) →
    ElementRun ⟨[n], .func s' sig, none, s⟩ (t :: run)
  | embedded {t : TypeExpr} {s : Span} {run : List Token} : Constraint F R t run →
    F.fits s run → ElementRun ⟨[], t, none, s⟩ run

/-- The forms of type, with the tokens that spell them. The element of a channel
without a direction does not start with an arrow, since that would be the
channel's direction. -/
inductive Form : TypeExpr → List Token → Ending → Prop
  | named {n : TypeName} {run : List Token} {e : Ending} : Name F n run e →
      Form (.named n) run e
  | applied {s : Span} {base : TypeName} {args : List TypeExpr}
      {run more : List Token} {lb : Token}
    {e : Ending} : Name F base run e → lb.tok = .op .openBracket → args ≠ [] →
    Listed (Inner R) .comma .closeBracket args more → F.fits s (run ++ lb :: more) →
    Form (.applied s base args) (run ++ lb :: more) .closed
  | pointer {s : Span} {elem : TypeExpr} {star : Token} {run : List Token}
      {e : Ending} :
    star.tok = .op .star → R elem run e → F.fits s (star :: run) →
    Form (.pointer s elem) (star :: run) e
  | slice {s : Span} {elem : TypeExpr} {lb rb : Token} {run : List Token}
      {e : Ending} :
    lb.tok = .op .openBracket → rb.tok = .op .closeBracket → R elem run e →
    F.fits s (lb :: rb :: run) → Form (.slice s elem) (lb :: rb :: run) e
  | array {s : Span} {length : ArrayLength} {elem : TypeExpr} {lb rb : Token}
    {lengthRun run : List Token} {e : Ending} : lb.tok = .op .openBracket →
    Bound F length lengthRun → rb.tok = .op .closeBracket → R elem run e →
    F.fits s (lb :: lengthRun ++ rb :: run) →
    Form (.array s length elem) (lb :: lengthRun ++ rb :: run) e
  | map {s : Span} {key value : TypeExpr} {kw lb rb : Token} {keyRun run : List Token}
      {e : Ending} :
    kw.tok = .keyword .map → lb.tok = .op .openBracket → Inner R key keyRun →
    rb.tok = .op .closeBracket → R value run e →
      F.fits s (kw :: lb :: keyRun ++ rb :: run) →
    Form (.map s key value) (kw :: lb :: keyRun ++ rb :: run) e
  | chan {s : Span} {elem : TypeExpr} {kw first : Token} {run : List Token}
      {e : Ending} :
    kw.tok = .keyword .chan → first.tok ≠ .op .arrow → R elem (first :: run) e →
    F.fits s (kw :: first :: run) → Form (.chan s .both elem) (kw :: first :: run) e
  | send {s : Span} {elem : TypeExpr} {kw arrow : Token} {run : List Token}
      {e : Ending} :
    kw.tok = .keyword .chan → arrow.tok = .op .arrow → R elem run e →
    F.fits s (kw :: arrow :: run) → Form (.chan s .send elem) (kw :: arrow :: run) e
  | receive {s : Span} {elem : TypeExpr} {arrow kw : Token} {run : List Token}
      {e : Ending} :
    arrow.tok = .op .arrow → kw.tok = .keyword .chan → R elem run e →
    F.fits s (arrow :: kw :: run) →
      Form (.chan s .receive elem) (arrow :: kw :: run) e
  | func {s : Span} {sig : Signature TypeExpr} {kw : Token} {run : List Token}
      {e : Ending} :
    kw.tok = .keyword .func → Sig F R sig run e → F.fits s (kw :: run) →
    Form (.func s sig) (kw :: run) e
  | struct {s : Span} {fields : List (Field TypeExpr)} {kw lb : Token}
      {run : List Token} :
    kw.tok = .keyword .struct → lb.tok = .op .openBrace →
    Listed (MemberRun F R) .semicolon .closeBrace fields run →
      F.fits s (kw :: lb :: run) →
    Form (.struct s fields) (kw :: lb :: run) .closed
  | interface {s : Span} {elems : List (Field TypeExpr)} {kw lb : Token}
      {run : List Token} :
    kw.tok = .keyword .interface → lb.tok = .op .openBrace →
    Listed (ElementRun F R) .semicolon .closeBrace elems run →
      F.fits s (kw :: lb :: run) →
    Form (.interface s elems) (kw :: lb :: run) .closed
  | paren {s : Span} {elem : TypeExpr} {lp rp : Token} {run : List Token} :
    lp.tok = .op .openParen → Inner R elem run → rp.tok = .op .closeParen →
    F.fits s (lp :: run ++ [rp]) → Form (.paren s elem) (lp :: run ++ [rp]) .closed

end Forms

/-- The run spells the type, in which types are nested at most `depth` deep. -/
def SpellsWithin (F : Placement) : Nat → TypeExpr → List Token → Ending → Prop
  | 0 => fun _ _ _ => False
  | depth + 1 => Form F (SpellsWithin F depth)

/-- The run spells the type, and ends like this. -/
def Spells (F : Placement) (t : TypeExpr) (run : List Token) (e : Ending) : Prop :=
  ∃ depth, SpellsWithin F depth t run e

end Grammar

end GoInventory
