import GoInventory.Proofs.Syntax.FileGrammar
import GoInventory.Proofs.Syntax.Nesting

/-!
# The leaves of a tree

The identifiers and literals of a tree, from left to right, together with the
regions of the source that the tree keeps as spans only: bodies of functions,
initializers, and array lengths that are not understood. The grammar accounts
for every token of a run: it is a leaf of the tree, or lies in one of the
regions, or carries no text (`Accounted`).
-/

namespace GoInventory

/-- An identifier or literal in its place. -/
structure Leaf where
  tok : Tok
  span : Span
deriving DecidableEq, Repr

/-- A part of a source that a tree keeps: a leaf, or a region that was skipped. -/
inductive Part where
  | leaf (l : Leaf)
  | skipped (s : Span)
deriving DecidableEq, Repr

namespace Part

/-- The leaf, if it is one. -/
def leaf? : Part → Option Leaf
  | leaf l => some l
  | skipped _ => none

/-- The region, if it is one. -/
def skipped? : Part → Option Span
  | leaf _ => none
  | skipped s => some s

end Part

/-- The parts of an identifier. -/
def Ident.parts (n : Ident) : List Part :=
  [.leaf ⟨.ident n.name, n.span⟩]

/-- The parts of a string literal. -/
def StringLit.parts (lit : StringLit) : List Part :=
  match lit.kind with
  | .raw => [.leaf ⟨.literal .rawString lit.text, lit.span⟩]
  | .interpreted => [.leaf ⟨.literal .string lit.text, lit.span⟩]

/-- The parts of a type name. -/
def TypeName.parts : TypeName → List Part
  | plain name => name.parts
  | qualified _ pkg name => pkg.parts ++ name.parts

/-- The parts of an array length. -/
def ArrayLength.parts : ArrayLength → List Part
  | expr (.ident name) => name.parts
  | expr (.selector _ pkg sel) => pkg.parts ++ sel.parts
  | expr (.literal span kind text) => [.leaf ⟨.literal kind text, span⟩]
  | expr (.other span) => [.skipped span]
  | ellipsis => []

/-- The parts of what may be missing. -/
def partsOf {α : Type} (parts : α → List Part) : Option α → List Part
  | none => []
  | some a => parts a

mutual

/-- The parts of a type. -/
def TypeExpr.parts : TypeExpr → List Part
  | .named name => name.parts
  | .applied _ base args => base.parts ++ partsOfTypes args
  | .pointer _ elem => elem.parts
  | .array _ length elem => length.parts ++ elem.parts
  | .slice _ elem => elem.parts
  | .map _ key value => key.parts ++ value.parts
  | .chan _ _ elem => elem.parts
  | .func _ ⟨params, results, _⟩ => partsOfFields params ++ partsOfFields results
  | .struct _ fields => partsOfFields fields
  | .interface _ elems => partsOfFields elems
  | .variadic _ elem => elem.parts
  | .paren _ elem => elem.parts
  | .union _ terms => partsOfTerms terms

/-- The parts of types, in order. -/
def partsOfTypes : List TypeExpr → List Part
  | [] => []
  | type :: rest => type.parts ++ partsOfTypes rest

/-- The parts of fields, in order. -/
def partsOfFields : List (Field TypeExpr) → List Part
  | [] => []
  | ⟨names, type, tag, _⟩ :: rest =>
    names.flatMap Ident.parts ++ type.parts ++ partsOf StringLit.parts tag
      ++ partsOfFields rest

/-- The parts of terms, in order. -/
def partsOfTerms : List (Term TypeExpr) → List Part
  | [] => []
  | ⟨_, type⟩ :: rest => type.parts ++ partsOfTerms rest

end

/-- The parts of a field. -/
def Field.parts (f : Field TypeExpr) : List Part :=
  f.names.flatMap Ident.parts ++ f.type.parts ++ partsOf StringLit.parts f.tag

/-- The parts of a signature. -/
def Signature.parts (sig : Signature TypeExpr) : List Part :=
  sig.params.flatMap Field.parts ++ sig.results.flatMap Field.parts

@[simp] theorem partsOfTypes_eq (types : List TypeExpr) :
    partsOfTypes types = types.flatMap TypeExpr.parts := by
  induction types with
  | nil => rfl
  | cons t rest ih => rw [partsOfTypes, ih, List.flatMap_cons]

@[simp] theorem partsOfFields_eq (fields : List (Field TypeExpr)) :
    partsOfFields fields = fields.flatMap Field.parts := by
  induction fields with
  | nil => rfl
  | cons f rest ih => rw [partsOfFields, ih, List.flatMap_cons]; rfl

@[simp] theorem partsOfTerms_eq (terms : List (Term TypeExpr)) :
    partsOfTerms terms = terms.flatMap (·.type.parts) := by
  induction terms with
  | nil => rfl
  | cons t rest ih => rw [partsOfTerms, ih, List.flatMap_cons]

/-- A function type has the parts of its signature. -/
theorem TypeExpr.parts_func (s : Span) (sig : Signature TypeExpr) :
    (TypeExpr.func s sig).parts = sig.parts := by
  obtain ⟨params, results, s'⟩ := sig
  simp only [TypeExpr.parts, partsOfFields_eq, Signature.parts]

/-- The parts of an import. The dot that stands for a name is no leaf. -/
def ImportSpec.parts (spec : ImportSpec) : List Part :=
  partsOf (fun n => if n.name = "." then [] else n.parts) spec.name ++ spec.path.parts

/-- The parts of a value declaration. -/
def ValueSpec.parts (spec : ValueSpec) : List Part :=
  spec.names.flatMap Ident.parts ++ partsOf TypeExpr.parts spec.type
    ++ partsOf (fun s => [.skipped s]) spec.values

/-- The parts of a type declaration. -/
def TypeSpec.parts (spec : TypeSpec) : List Part :=
  spec.name.parts ++ spec.typeParams.flatMap Field.parts ++ spec.type.parts

/-- The parts of a function. -/
def FuncDecl.parts (decl : FuncDecl) : List Part :=
  partsOf Field.parts decl.receiver ++ decl.name.parts
    ++ decl.typeParams.flatMap Field.parts
    ++ decl.signature.parts ++ partsOf (fun s => [.skipped s]) decl.body

/-- The parts of a declaration. -/
def Decl.parts : Decl → List Part
  | imports group => group.specs.flatMap ImportSpec.parts
  | consts group | vars group => group.specs.flatMap ValueSpec.parts
  | types group => group.specs.flatMap TypeSpec.parts
  | func decl => decl.parts

namespace SourceFile

/-- The parts of a file. -/
def parts (file : SourceFile) : List Part :=
  file.package.parts ++ file.decls.flatMap Decl.parts

/-- The identifiers and literals of a file, from left to right. -/
def leaves (file : SourceFile) : List Leaf :=
  file.parts.filterMap Part.leaf?

/-- The regions that the file keeps as spans. -/
def skipped (file : SourceFile) : List Span :=
  file.parts.filterMap Part.skipped?

end SourceFile

namespace Grammar

/-! ## Every token is accounted for -/

/-- Every token of the run is a leaf among the parts, or lies in a region among
them, or carries no text; and the parts have this order. -/
inductive Accounted (F : Placement) : List Token → List Part → Prop
  | nil : Accounted F [] []
  | mark {t : Token} {run : List Token} {parts : List Part} : t.tok.text? = none →
    Accounted F run parts → Accounted F (t :: run) parts
  | leaf {t : Token} {s : Span} {run : List Token} {parts : List Part} :
      t.tok.text?.isSome →
    F.fits s [t] → Accounted F run parts →
      Accounted F (t :: run) (.leaf ⟨t.tok, s⟩ :: parts)
  | skipped {s : Span} {part run : List Token} {parts : List Part} :
      Skipped F s part →
    Accounted F run parts → Accounted F (part ++ run) (.skipped s :: parts)

namespace Accounted

variable {F : Placement}

/-- Runs next to each other account for the parts of both, in order. -/
theorem append {a b : List Token} {as bs : List Part} (ha : Accounted F a as)
    (hb : Accounted F b bs) : Accounted F (a ++ b) (as ++ bs) := by
  induction ha with
  | nil => exact hb
  | mark ht _ ih => exact .mark ht ih
  | leaf ht hs _ ih => exact .leaf ht hs ih
  | skipped hs _ ih =>
    rw [List.append_assoc]
    exact .skipped hs ih

/-- A token that is known to carry no text. -/
theorem cons_of_eq {t : Token} {tok : Tok} {run : List Token} {parts : List Part}
    (ht : t.tok = tok) (htext : tok.text? = none) (h : Accounted F run parts) :
    Accounted F (t :: run) parts :=
  .mark (by rw [ht]; exact htext) h

/-- A token without a text, such as a bracket, is no part of the tree. -/
theorem single_of_eq {t : Token} {tok : Tok} (ht : t.tok = tok)
    (htext : tok.text? = none) : Accounted F [t] [] :=
  cons_of_eq ht htext .nil

/-- A region that was skipped is one part, whatever its tokens are. -/
theorem region {s : Span} {run : List Token} (h : Skipped F s run) :
    Accounted F run [.skipped s] := by
  have hskip := Accounted.skipped h .nil
  rwa [List.append_nil] at hskip

end Accounted

section Lists

variable {F : Placement} {α : Type} {item : α → List Token →
  Prop} {parts : α → List Part}

/-- The separators of a list carry no text, so its parts are those of its items. -/
theorem Listed.accounted {separator close : Operator} {as : List α} {run : List Token}
    (hitem : ∀ a part, item a part → Accounted F part (parts a))
    (h : Listed item separator close as run) :
    Accounted F run (as.flatMap parts) := by
  induction h with
  | none ht => exact .single_of_eq ht rfl
  | last ha ht => simpa using (hitem _ _ ha).append (.single_of_eq ht rfl)
  | cons ha hsep _ ih =>
    rw [List.flatMap_cons]
    exact (hitem _ _ ha).append (.cons_of_eq hsep rfl ih)

/-- The same for items that are only separated. -/
theorem Separated.accounted {separator : Operator} {as : List α} {run : List Token}
    (hitem : ∀ a part, item a part → Accounted F part (parts a))
    (h : Separated item separator as run) : Accounted F run (as.flatMap parts) := by
  induction h with
  | one ha => simpa using hitem _ _ ha
  | cons ha hsep _ ih =>
    rw [List.flatMap_cons]
    exact (hitem _ _ ha).append (.cons_of_eq hsep rfl ih)

end Lists

section Leaves

variable {F : Placement}

/-- An identifier is the leaf of its token. -/
theorem IsIdent.accounted {n : Ident} {t : Token} (h : IsIdent F n t) :
    Accounted F [t] n.parts := by
  have hleaf := Accounted.leaf (by rw [h.1]; rfl) h.2 .nil
  rwa [h.1] at hleaf

theorem IdentRun.accounted {n : Ident} {run : List Token} (h : IdentRun F n run) :
    Accounted F run n.parts := by
  obtain ⟨t, rfl, ht⟩ := h
  exact ht.accounted

/-- Names are leaves in the order in which they stand. -/
theorem names_accounted {names : List Ident} {run : List Token}
    (h : Separated (IdentRun F) .comma names run) :
    Accounted F run (names.flatMap Ident.parts) :=
  h.accounted fun _ _ => IdentRun.accounted

theorem IsString.accounted {lit : StringLit} {t : Token} (h : IsString F lit t) :
    Accounted F [t] lit.parts := by
  cases h with
  | interpreted ht hs =>
    have hleaf := Accounted.leaf (by rw [ht]; rfl) hs .nil
    rwa [ht] at hleaf
  | raw ht hs =>
    have hleaf := Accounted.leaf (by rw [ht]; rfl) hs .nil
    rwa [ht] at hleaf

/-- A tag is a leaf, if there is one. -/
theorem Tag.accounted {tag : Option StringLit} {run : List Token} (h : Tag F tag run) :
    Accounted F run (partsOf StringLit.parts tag) := by
  cases h with
  | none => exact .nil
  | some hlit => exact hlit.accounted

/-- A qualified name has two leaves, and its dot carries no text. -/
theorem Name.accounted {n : TypeName} {run : List Token} {e : Ending}
    (h : Name F n run e) : Accounted F run n.parts := by
  cases h with
  | plain ht => exact ht.accounted
  | qualified ht hdot hu _ =>
    exact ht.accounted.append (.cons_of_eq hdot rfl hu.accounted)

/-- A length has its leaves if it is understood, and is a region if not. -/
theorem Bound.accounted {length : ArrayLength} {run : List Token}
    (h : Bound F length run) : Accounted F run length.parts := by
  cases h with
  | ellipsis hdots => exact .single_of_eq hdots rfl
  | expr _ _ hlen =>
    generalize hrun : _ :: _ = run at hlen
    cases hlen with
    | ident ht => exact ht.accounted
    | selector ht hdot hu _ =>
      exact ht.accounted.append (.cons_of_eq hdot rfl hu.accounted)
    | literal ht hs =>
      have hleaf := Accounted.leaf (by rw [ht]; rfl) hs .nil
      rwa [ht] at hleaf
    | other _ hs => exact .region ⟨by rw [← hrun]; exact List.cons_ne_nil _ _, hs⟩

end Leaves

section Types

variable {F : Placement} {R : TypeExpr → List Token → Ending → Prop}
  (hR : ∀ {t run e}, R t run e → Accounted F run t.parts)

include hR

/-- A type inside a form accounts for its own tokens. -/
theorem Inner.accounted {t : TypeExpr} {run : List Token} :
    Inner R t run → Accounted F run t.parts := by
  intro hinner
  obtain ⟨e, ht⟩ := hinner
  exact hR ht

/-- The ellipsis of a variadic type carries no text. -/
theorem ParamType.accounted {t : TypeExpr} {run : List Token}
    (h : ParamType F R t run) : Accounted F run t.parts := by
  cases h with
  | plain ht => exact Inner.accounted hR ht
  | variadic hdots ht _ =>
    rw [TypeExpr.parts]
    exact .cons_of_eq hdots rfl (Inner.accounted hR ht)

theorem UnnamedParam.accounted {f : Field TypeExpr} {run : List Token}
    (h : UnnamedParam F R f run) : Accounted F run f.parts := by
  obtain ⟨ht, -⟩ := h
  simpa [Field.parts, partsOf] using ht.accounted hR

/-- A group of parameters has its names before its type. -/
theorem NamedParams.accounted {f : Field TypeExpr} {run : List Token}
    (h : NamedParams F R f run) : Accounted F run f.parts := by
  obtain ⟨hnames, ht, -⟩ := h
  simpa [Field.parts, partsOf] using (names_accounted hnames).append (ht.accounted hR)

/-- The groups of a list have their parts in the order of the list. -/
theorem Params.accounted {fields : List (Field TypeExpr)} {run : List Token}
    (h : Params F R fields run) : Accounted F run (fields.flatMap Field.parts) := by
  cases h with
  | unnamed hlp hlist =>
    exact .cons_of_eq hlp rfl (hlist.accounted fun _ _ => UnnamedParam.accounted hR)
  | named hlp hlist =>
    exact .cons_of_eq hlp rfl (hlist.accounted fun _ _ => NamedParams.accounted hR)

/-- A signature has the parts of its parameters before those of its results. -/
theorem Sig.accounted {sig : Signature TypeExpr} {run : List Token} {e : Ending}
    (h : Sig F R sig run e) : Accounted F run sig.parts := by
  obtain ⟨hp, hr, -⟩ := h
  refine (hp.accounted hR).append ?_
  cases hr with
  | none => exact .nil
  | listed hp => exact hp.accounted hR
  | bare _ ht _ => simpa [Field.parts, partsOf] using hR ht

/-- The tilde of a term carries no text. -/
theorem TermRun.accounted {tm : Term TypeExpr} {run : List Token}
    (h : TermRun R tm run) : Accounted F run tm.type.parts := by
  cases h with
  | plain ht => exact Inner.accounted hR ht
  | tilde hmark ht => exact .cons_of_eq hmark rfl (Inner.accounted hR ht)

/-- The bars of a union carry no text. -/
theorem Constraint.accounted {t : TypeExpr} {run : List Token}
    (h : Constraint F R t run) : Accounted F run t.parts := by
  cases h with
  | plain ht => exact Inner.accounted hR ht
  | union _ hrun _ =>
    rw [TypeExpr.parts, partsOfTerms_eq]
    exact hrun.accounted fun _ _ => TermRun.accounted hR

/-- A member has its names, the parts of its type and its tag, in this order. -/
theorem MemberRun.accounted {f : Field TypeExpr} {run : List Token}
    (h : MemberRun F R f run) : Accounted F run f.parts := by
  cases h with
  | named hnames ht htag _ =>
    exact ((names_accounted hnames).append (Inner.accounted hR ht)).append
      htag.accounted
  | embedded _ ht htag _ => exact (Inner.accounted hR ht).append htag.accounted

/-- The name of a method is a leaf before those of its signature. -/
theorem ElementRun.accounted {f : Field TypeExpr} {run : List Token}
    (h : ElementRun F R f run) : Accounted F run f.parts := by
  cases h with
  | method hn hsig _ _ =>
    simpa [Field.parts, partsOf, TypeExpr.parts_func] using hn.accounted.append
      (hsig.accounted hR)
  | embedded ht _ => simpa [Field.parts, partsOf] using ht.accounted hR

/-- **Every form of type accounts for its tokens**, if the types in it do. -/
theorem Form.accounted {t : TypeExpr} {run : List Token} {e : Ending}
    (h : Form F R t run e) : Accounted F run t.parts := by
  cases h with
  | named hn => exact hn.accounted
  | applied hbase hlb _ hargs _ =>
    rw [TypeExpr.parts, partsOfTypes_eq]
    exact hbase.accounted.append
      (.cons_of_eq hlb rfl (hargs.accounted fun _ _ => Inner.accounted hR))
  | pointer hstar helem _ =>
    rw [TypeExpr.parts]
    exact .cons_of_eq hstar rfl (hR helem)
  | slice hlb hrb helem _ =>
    rw [TypeExpr.parts]
    exact .cons_of_eq hlb rfl (.cons_of_eq hrb rfl (hR helem))
  | array hlb hlen hrb helem _ =>
    exact .cons_of_eq hlb rfl (hlen.accounted.append (.cons_of_eq hrb rfl (hR helem)))
  | map hkw hlb hkey hrb hvalue _ =>
    exact .cons_of_eq hkw rfl (.cons_of_eq hlb rfl
      ((Inner.accounted hR hkey).append (.cons_of_eq hrb rfl (hR hvalue))))
  | chan hkw _ helem _ =>
    rw [TypeExpr.parts]
    exact .cons_of_eq hkw rfl (hR helem)
  | send hkw harrow helem _ =>
    rw [TypeExpr.parts]
    exact .cons_of_eq hkw rfl (.cons_of_eq harrow rfl (hR helem))
  | receive harrow hkw helem _ =>
    rw [TypeExpr.parts]
    exact .cons_of_eq harrow rfl (.cons_of_eq hkw rfl (hR helem))
  | func hkw hsig _ =>
    rw [TypeExpr.parts_func]
    exact .cons_of_eq hkw rfl (hsig.accounted hR)
  | struct hkw hlb hfields _ =>
    rw [TypeExpr.parts, partsOfFields_eq]
    exact .cons_of_eq hkw rfl (.cons_of_eq hlb rfl
      (hfields.accounted fun _ _ => MemberRun.accounted hR))
  | interface hkw hlb helems _ =>
    rw [TypeExpr.parts, partsOfFields_eq]
    exact .cons_of_eq hkw rfl (.cons_of_eq hlb rfl
      (helems.accounted fun _ _ => ElementRun.accounted hR))
  | paren hlp helem hrp _ =>
    simpa [TypeExpr.parts] using Accounted.cons_of_eq hlp rfl
      ((Inner.accounted hR helem).append (.single_of_eq hrp rfl))

end Types

/-- The tokens of a type are accounted for by its parts. -/
theorem Spells.accounted {F : Placement} {t : TypeExpr} {run : List Token}
    {e : Ending} (h : Spells F t run e) : Accounted F run t.parts := by
  obtain ⟨depth, h⟩ := h
  induction depth generalizing t run e with
  | zero => exact h.elim
  | succ depth ih => exact Form.accounted ih h

end Grammar

end GoInventory
