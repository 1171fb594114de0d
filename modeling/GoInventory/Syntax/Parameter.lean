import GoInventory.Syntax.Fault
import GoInventory.Syntax.Tree

/-!
# Grouping of parameters

The entries of a parameter list are ambiguous one by one: `a` may be a name or a
type. The whole list decides. If some entry has both a name and a type, every
entry needs a name, and a bare name shares the type of the next typed entry;
otherwise all entries are types.
-/

namespace GoInventory

/-- One entry of a parameter list. -/
inductive ParamEntry where
  | bare (name : Ident)
  | typed (name : Ident) (type : TypeExpr) (span : Span)
  | unnamed (type : TypeExpr) (span : Span)

namespace ParamEntry

/-- The entry has both a name and a type. -/
def isTyped : ParamEntry → Bool
  | typed _ _ _ => true
  | bare _ | unnamed _ _ => false

/-- The entry as a parameter without a name; a name on its own is the
name of a type. -/
def asUnnamed : ParamEntry → Field TypeExpr
  | bare name => ⟨[], .named (.plain name), none, name.span⟩
  | typed _ type span | unnamed type span => ⟨[], type, none, span⟩

/-- Where a group starts whose last entry has this span, after the names
in `pending`. -/
def groupStart (pending : List Ident) (last : Span) : Nat :=
  match pending with
  | [] => last.start
  | first :: _ => first.span.start

/-- The groups of a list in which every entry needs a name. `pending` are the
names that still wait for their type. -/
def groupNamed (pending : List Ident) :
    List ParamEntry → Except SyntaxError (List (Field TypeExpr))
  | [] =>
    match pending.getLast? with
    | none => .ok []
    | some last => .error ⟨last.span, .missingParameterType⟩
  | bare name :: rest => groupNamed (pending ++ [name]) rest
  | typed name type span :: rest =>
    (groupNamed [] rest).map
      (⟨pending ++ [name], type, none, ⟨groupStart pending span, span.stop⟩⟩ :: ·)
  | unnamed _ span :: _ => .error ⟨span, .mixedParameters⟩

/-- The parameters that the entries of a list declare. -/
def group (entries : List ParamEntry) : Except SyntaxError (List (Field TypeExpr)) :=
  if entries.any isTyped then groupNamed [] entries else .ok (entries.map asUnnamed)

end ParamEntry

end GoInventory
