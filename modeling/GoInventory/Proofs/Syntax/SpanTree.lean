import GoInventory.Proofs.Syntax.FileGrammar

/-!
# The spans of a tree

All spans that a syntax tree keeps, as a tree of their own: the span of each
node with the spans that stand directly in it, from left to right. A name in the
place of a type, or of an array length, has the span of its identifier, and so
one node more than it has spans of its own.

The grammar lays the tree out over the tokens (`Laid`): each node has a part of
the run to itself, its span fits that part, and its children are laid out within
it. Such a part starts with a token that has some width. The only tokens without
any are the semicolons that stand for the end of a line, so it is enough to know
that a part does not start with a semicolon (`Opens`). What is skipped may start
with any token, but it stands behind one that cannot end a statement
(`Laid.region`).
-/

namespace GoInventory

/-- A span with the spans in it. -/
inductive SpanTree where
  | node (span : Span) (children : List SpanTree)
deriving Repr

namespace SpanTree

/-- The span of the whole tree. -/
def span : SpanTree → Span
  | node span _ => span

/-- The trees that stand directly in the tree. -/
def children : SpanTree → List SpanTree
  | node _ children => children

/-- A span with none in it. -/
def leaf (s : Span) : SpanTree :=
  node s []

/-- The tree is the other one, or stands in it at some depth. -/
inductive Within (u : SpanTree) : SpanTree → Prop
  | self : Within u u
  | child {t c : SpanTree} : c ∈ t.children → Within u c → Within u t

end SpanTree

/-! ## The spans of types -/

/-- The span of an identifier. -/
def Ident.spanTree (n : Ident) : SpanTree :=
  .leaf n.span

/-- The span of a string literal. -/
def StringLit.spanTree (lit : StringLit) : SpanTree :=
  .leaf lit.span

/-- The spans of a type name. -/
def TypeName.spanTree : TypeName → SpanTree
  | plain name => .node name.span [name.spanTree]
  | qualified span pkg name => .node span [pkg.spanTree, name.spanTree]

/-- The spans of a length. -/
def LengthExpr.spanTree : LengthExpr → SpanTree
  | ident name => .node name.span [name.spanTree]
  | selector span pkg sel => .node span [pkg.spanTree, sel.spanTree]
  | literal span _ _ => .leaf span
  | other span => .leaf span

/-- The spans between the brackets of an array type. -/
def ArrayLength.spanTrees : ArrayLength → List SpanTree
  | expr length => [length.spanTree]
  | ellipsis => []

mutual

/-- The spans of a type. -/
def TypeExpr.spanTree : TypeExpr → SpanTree
  | .named name => name.spanTree
  | .applied span base args => .node span (base.spanTree :: spanTreesOfTypes args)
  | .pointer span elem => .node span [elem.spanTree]
  | .array span length elem => .node span (length.spanTrees ++ [elem.spanTree])
  | .slice span elem => .node span [elem.spanTree]
  | .map span key value => .node span [key.spanTree, value.spanTree]
  | .chan span _ elem => .node span [elem.spanTree]
  | .func span ⟨params, results, inner⟩ =>
    .node span [.node inner (spanTreesOfFields params ++ spanTreesOfFields results)]
  | .struct span fields => .node span (spanTreesOfFields fields)
  | .interface span elems => .node span (spanTreesOfFields elems)
  | .variadic span elem => .node span [elem.spanTree]
  | .paren span elem => .node span [elem.spanTree]
  | .union span terms => .node span (spanTreesOfTerms terms)

/-- The spans of types, in order. -/
def spanTreesOfTypes : List TypeExpr → List SpanTree
  | [] => []
  | type :: rest => type.spanTree :: spanTreesOfTypes rest

/-- The spans of fields, in order. -/
def spanTreesOfFields : List (Field TypeExpr) → List SpanTree
  | [] => []
  | ⟨names, type, tag, span⟩ :: rest =>
    .node span (names.map Ident.spanTree ++ [type.spanTree]
      ++ tag.toList.map StringLit.spanTree)
      :: spanTreesOfFields rest

/-- The spans of terms, in order. -/
def spanTreesOfTerms : List (Term TypeExpr) → List SpanTree
  | [] => []
  | ⟨_, type⟩ :: rest => type.spanTree :: spanTreesOfTerms rest

end

/-- The spans of a field. -/
def Field.spanTree (f : Field TypeExpr) : SpanTree :=
  .node f.span (f.names.map Ident.spanTree ++ [f.type.spanTree]
    ++ f.tag.toList.map StringLit.spanTree)

/-- The spans of a signature. -/
def Signature.spanTree (sig : Signature TypeExpr) : SpanTree :=
  .node sig.span (sig.params.map Field.spanTree ++ sig.results.map Field.spanTree)

@[simp] theorem spanTreesOfTypes_eq (types : List TypeExpr) :
    spanTreesOfTypes types = types.map TypeExpr.spanTree := by
  induction types with
  | nil => rfl
  | cons t rest ih => rw [spanTreesOfTypes, ih, List.map_cons]

@[simp] theorem spanTreesOfFields_eq (fields : List (Field TypeExpr)) :
    spanTreesOfFields fields = fields.map Field.spanTree := by
  induction fields with
  | nil => rfl
  | cons f rest ih => rw [spanTreesOfFields, ih, List.map_cons]; rfl

@[simp] theorem spanTreesOfTerms_eq (terms : List (Term TypeExpr)) :
    spanTreesOfTerms terms = terms.map (·.type.spanTree) := by
  induction terms with
  | nil => rfl
  | cons t rest ih => rw [spanTreesOfTerms, ih, List.map_cons]

/-- A function type has its signature below it, and nothing else. -/
theorem TypeExpr.spanTree_func (s : Span) (sig : Signature TypeExpr) :
    (TypeExpr.func s sig).spanTree = .node s [sig.spanTree] := by
  obtain ⟨params, results, s'⟩ := sig
  simp only [TypeExpr.spanTree, spanTreesOfFields_eq, Signature.spanTree]

/-! ## The spans of files -/

/-- The spans of an import. -/
def ImportSpec.spanTrees (spec : ImportSpec) : List SpanTree :=
  spec.name.toList.map Ident.spanTree ++ [spec.path.spanTree]

/-- The spans of a value declaration. -/
def ValueSpec.spanTrees (spec : ValueSpec) : List SpanTree :=
  spec.names.map Ident.spanTree ++ spec.type.toList.map TypeExpr.spanTree
    ++ spec.values.toList.map .leaf

/-- The spans of a type declaration. -/
def TypeSpec.spanTrees (spec : TypeSpec) : List SpanTree :=
  spec.name.spanTree :: (spec.typeParams.map Field.spanTree ++ [spec.type.spanTree])

/-- The spans of a function. -/
def FuncDecl.spanTree (decl : FuncDecl) : SpanTree :=
  .node decl.span (decl.receiver.toList.map Field.spanTree ++ decl.name.spanTree ::
    (decl.typeParams.map Field.spanTree ++ decl.signature.spanTree
      :: decl.body.toList.map .leaf))

/-- The spans of a declaration. Specs have none of their own. -/
def Decl.spanTree : Decl → SpanTree
  | imports group => .node group.span (group.specs.flatMap ImportSpec.spanTrees)
  | consts group | vars group =>
    .node group.span (group.specs.flatMap ValueSpec.spanTrees)
  | types group => .node group.span (group.specs.flatMap TypeSpec.spanTrees)
  | func decl => decl.spanTree

/-- The tree of a declaration is labelled with its span. -/
theorem Decl.span_spanTree (d : Decl) : d.spanTree.span = d.span := by
  cases d <;> rfl

/-- The spans of a file, which has none of its own. -/
def SourceFile.spanTrees (file : SourceFile) : List SpanTree :=
  file.package.spanTree :: file.decls.map Decl.spanTree

namespace Grammar

/-! ## Trees over tokens -/

/-- The run starts with a token that is no semicolon. -/
def Opens (run : List Token) : Prop :=
  ∃ first ∈ run.head?, first.tok ≠ .op .semicolon

namespace Opens

/-- A run opens a construct if its first token is not a semicolon. -/
theorem of_eq {t : Token} {tok : Tok} {run : List Token} (ht : t.tok = tok)
    (htok : tok ≠ .op .semicolon) : Opens (t :: run) :=
  ⟨t, rfl, by rw [ht]; exact htok⟩

theorem append {a : List Token} (h : Opens a) (b : List Token) : Opens (a ++ b) := by
  obtain ⟨first, hfirst, htok⟩ := h
  obtain ⟨more, rfl⟩ := List.head?_eq_some_iff.mp hfirst
  exact ⟨first, rfl, htok⟩

end Opens

/-- The trees are laid out over the run, one behind the other. Tokens between
them belong to none of them. -/
inductive Laid (F : Placement) : List Token → List SpanTree → Prop
  | nil : Laid F [] []
  | skip {t : Token} {run : List Token} {trees : List SpanTree} : Laid F run trees →
      Laid F (t :: run) trees
  | node {tree : SpanTree} {part run : List Token} {trees : List SpanTree} :
      Opens part →
    F.fits tree.span part → Laid F part tree.children → Laid F run trees →
      Laid F (part ++ run) (tree :: trees)
  | region {s : Span} {mark : Token} {part run : List Token} {trees : List SpanTree} :
    mark.tok.canEndStatement = false → Skipped F s part → Laid F run trees →
    Laid F (mark :: (part ++ run)) (.leaf s :: trees)

/-- The tree has the run to itself. -/
structure Spanned (F : Placement) (tree : SpanTree) (run : List Token) : Prop where
  opens : Opens run
  fits : F.fits tree.span run
  inner : Laid F run tree.children

variable {F : Placement}

/-- Runs next to each other hold what each of them holds, in order. -/
theorem Laid.append {a b : List Token} {as bs : List SpanTree} (ha : Laid F a as)
    (hb : Laid F b bs) : Laid F (a ++ b) (as ++ bs) := by
  induction ha with
  | nil => exact hb
  | skip _ ih => exact .skip ih
  | node hopens hfits hinner _ _ ih =>
    rw [List.append_assoc]
    exact .node hopens hfits hinner ih
  | region hmark hskip _ ih =>
    rw [List.cons_append, List.append_assoc]
    exact .region hmark hskip ih

/-- Tokens that belong to no tree. -/
theorem Laid.bare (run : List Token) : Laid F run [] := by
  induction run with
  | nil => exact .nil
  | cons t run ih => exact .skip ih

/-- Tokens that belong to no tree may come before. -/
theorem Laid.bare_append (run : List Token) {b : List Token} {bs : List SpanTree}
    (h : Laid F b bs) : Laid F (run ++ b) bs :=
  (Laid.bare run).append h

/-- Tokens that belong to no tree may come behind. -/
theorem Laid.append_bare {a : List Token} {as : List SpanTree} (h : Laid F a as)
    (run : List Token) : Laid F (a ++ run) as := by
  have happend := h.append (.bare run)
  rwa [List.append_nil] at happend

/-- What is skipped behind a token, and nothing else. -/
theorem Laid.skipped {s : Span} {mark : Token} {tok : Tok} {run : List Token}
    (hmark : mark.tok = tok) (htok : tok.canEndStatement = false)
    (h : Skipped F s run) : Laid F (mark :: run) [.leaf s] := by
  have hregion := Laid.region (by rw [hmark]; exact htok) h .nil
  rwa [List.append_nil] at hregion

namespace Spanned

/-- A tree that spans a run is laid out in it. -/
theorem laid {tree : SpanTree} {run : List Token} (h : Spanned F tree run) :
    Laid F run [tree] := by
  have hnode := Laid.node h.opens h.fits h.inner .nil
  rwa [List.append_nil] at hnode

/-- A construct without parts spans the run that its span fits. -/
theorem leaf {s : Span} {run : List Token} (hopens : Opens run) (hfits : F.fits s run) :
    Spanned F (.leaf s) run :=
  ⟨hopens, hfits, .bare run⟩

end Spanned

section Lists

variable {α : Type} {item : α → List Token → Prop} {separator : Operator}

/-- The items of a list are laid out in order, between the separators. -/
theorem Listed.laid {close : Operator} {trees : α → List SpanTree} {as : List α}
    {run : List Token} (hitem : ∀ a part, item a part → Laid F part (trees a))
    (h : Listed item separator close as run) : Laid F run (as.flatMap trees) := by
  induction h with
  | none => exact .bare _
  | last ha _ => simpa using (hitem _ _ ha).append_bare _
  | cons ha _ _ ih =>
    rw [List.flatMap_cons]
    exact (hitem _ _ ha).append (.skip ih)

/-- The same for items that are only separated. -/
theorem Separated.laid {trees : α → List SpanTree} {as : List α} {run : List Token}
    (hitem : ∀ a part, item a part → Laid F part (trees a))
    (h : Separated item separator as run) : Laid F run (as.flatMap trees) := by
  induction h with
  | one ha => simpa using hitem _ _ ha
  | cons ha _ _ ih =>
    rw [List.flatMap_cons]
    exact (hitem _ _ ha).append (.skip ih)

/-- A list of at least one item opens as its first item does. -/
theorem Separated.opens {as : List α} {run : List Token}
    (hitem : ∀ a part, item a part → Opens part) (h : Separated item separator as run) :
    Opens run := by
  cases h with
  | one ha => exact hitem _ _ ha
  | cons ha _ _ => exact (hitem _ _ ha).append _

/-- Items that are nodes of their own. -/
theorem Listed.laid_map {close : Operator} {tree : α → SpanTree} {as : List α}
    {run : List Token} (hitem : ∀ a part, item a part → Spanned F (tree a) part)
    (h : Listed item separator close as run) : Laid F run (as.map tree) := by
  rw [List.map_eq_flatMap]
  exact h.laid fun a part ha => (hitem a part ha).laid

end Lists

/-! ## Names and lengths -/

theorem IsIdent.spanned {n : Ident} {t : Token} (h : IsIdent F n t) :
    Spanned F n.spanTree [t] :=
  .leaf (.of_eq h.1 nofun) h.2

/-- Names are laid out in order, between the commas. -/
theorem names_laid {names : List Ident} {run : List Token}
    (h : Separated (IdentRun F) .comma names run) :
    Laid F run (names.map Ident.spanTree) := by
  rw [List.map_eq_flatMap]
  refine h.laid fun n part hn => ?_
  obtain ⟨t, rfl, ht⟩ := hn
  exact ht.spanned.laid

theorem names_opens {names : List Ident} {run : List Token}
    (h : Separated (IdentRun F) .comma names run) : Opens run := by
  refine h.opens fun n part hn => ?_
  obtain ⟨t, rfl, ht⟩ := hn
  exact ht.spanned.opens

theorem IsString.spanned {lit : StringLit} {t : Token} (h : IsString F lit t) :
    Spanned F lit.spanTree [t] := by
  cases h with
  | interpreted ht hs => exact .leaf (.of_eq ht nofun) hs
  | raw ht hs => exact .leaf (.of_eq ht nofun) hs

/-- A tag is laid out behind the type, if there is one. -/
theorem Tag.laid {tag : Option StringLit} {run : List Token} (h : Tag F tag run) :
    Laid F run (tag.toList.map StringLit.spanTree) := by
  cases h with
  | none => exact .nil
  | some hlit => exact hlit.spanned.laid

/-- A name in the place of something with a span of its own. -/
theorem IsIdent.spanned_node {n : Ident} {t : Token} (h : IsIdent F n t) :
    Spanned F (.node n.span [n.spanTree]) [t] :=
  ⟨h.spanned.opens, h.2, h.spanned.laid⟩

/-- A name of another package. -/
theorem IsIdent.spanned_selector {pkg n : Ident} {s : Span} {t dot u : Token}
    (ht : IsIdent F pkg t) (hu : IsIdent F n u) (hs : F.fits s [t, dot, u]) :
    Spanned F (.node s [pkg.spanTree, n.spanTree]) [t, dot, u] :=
  ⟨ht.spanned.opens.append [dot, u], hs,
    ht.spanned.laid.append (.skip hu.spanned.laid)⟩

/-- The two identifiers of a qualified name lie in its span. -/
theorem Name.spanned {n : TypeName} {run : List Token} {e : Ending}
    (h : Name F n run e) : Spanned F n.spanTree run := by
  cases h with
  | plain ht => exact ht.spanned_node
  | qualified ht _ hu hs => exact ht.spanned_selector hu hs

/-- What stands between brackets, with the token that opens them. -/
theorem Bound.laid {length : ArrayLength} {lb : Token} {run : List Token}
    (hlb : lb.tok = .op .openBracket) (h : Bound F length run) :
    Laid F (lb :: run) length.spanTrees := by
  cases h with
  | ellipsis => exact .bare _
  | expr _ _ hlength =>
    generalize hrun : _ :: _ = run at hlength
    cases hlength with
    | ident ht => exact .skip ht.spanned_node.laid
    | selector ht _ hu hs => exact .skip (ht.spanned_selector hu hs).laid
    | literal ht hs => exact .skip (Spanned.leaf (.of_eq ht nofun) hs).laid
    | other _ hs =>
      have hne : run ≠ [] := hrun ▸ List.cons_ne_nil _ _
      exact .skipped hlb rfl ⟨hne, hs⟩

/-! ## Types -/

/-- Names and what they share. -/
theorem spanned_names {names : List Ident} {t : TypeExpr} {s : Span}
    {nameRun run : List Token} (hnames : Separated (IdentRun F) .comma names nameRun)
    (ht : Spanned F t.spanTree run) (hs : F.fits s (nameRun ++ run)) :
    Spanned F (Field.spanTree ⟨names, t, none, s⟩) (nameRun ++ run) := by
  refine ⟨(names_opens hnames).append _, hs, ?_⟩
  show Laid F (nameRun ++ run) (names.map Ident.spanTree ++ [t.spanTree] ++ [])
  rw [List.append_nil]
  exact (names_laid hnames).append ht.laid

section Types

variable {R : TypeExpr → List Token → Ending → Prop}
  (hR : ∀ {t run e}, R t run e → Spanned F t.spanTree run)

include hR

/-- What is inside a form is spanned by induction. -/
theorem Inner.spanned {t : TypeExpr} {run : List Token} :
    Inner R t run → Spanned F t.spanTree run := by
  intro hinner
  obtain ⟨e, ht⟩ := hinner
  exact hR ht

/-- A variadic type spans its ellipsis and its element. -/
theorem ParamType.spanned {t : TypeExpr} {run : List Token} (h : ParamType F R t run) :
    Spanned F t.spanTree run := by
  cases h with
  | plain ht => exact Inner.spanned hR ht
  | variadic hdots ht hs =>
    rw [TypeExpr.spanTree]
    exact ⟨.of_eq hdots nofun, hs, .skip (Inner.spanned hR ht).laid⟩

/-- A parameter without a name spans just its type. -/
theorem UnnamedParam.spanned {f : Field TypeExpr} {run : List Token}
    (h : UnnamedParam F R f run) : Spanned F f.spanTree run := by
  obtain ⟨ht, hs⟩ := h
  exact ⟨(ht.spanned hR).opens, hs, (ht.spanned hR).laid⟩

/-- A group of parameters reaches from its first name to its type. -/
theorem NamedParams.spanned {f : Field TypeExpr} {run : List Token}
    (h : NamedParams F R f run) : Spanned F f.spanTree run := by
  obtain ⟨hnames, ht, hs⟩ := h
  exact spanned_names hnames (ht.spanned hR) hs

/-- The groups of a list are laid out in order, within the parentheses. -/
theorem Params.laid {fields : List (Field TypeExpr)} {run : List Token}
    (h : Params F R fields run) : Laid F run (fields.map Field.spanTree) := by
  cases h with
  | unnamed _ hlist => exact .skip (hlist.laid_map fun _ _ => UnnamedParam.spanned hR)
  | named _ hlist => exact .skip (hlist.laid_map fun _ _ => NamedParams.spanned hR)

/-- Results are laid out behind the parameters, in parentheses or not. -/
theorem Results.laid {fields : List (Field TypeExpr)} {run : List Token} {e : Ending}
    (h : Results F R fields run e) : Laid F run (fields.map Field.spanTree) := by
  cases h with
  | none => exact .nil
  | listed hp => exact hp.laid hR
  | bare _ ht hs => exact Spanned.laid ⟨(hR ht).opens, hs, (hR ht).laid⟩

/-- A signature spans its parameters and its results. -/
theorem Sig.spanned {sig : Signature TypeExpr} {run : List Token} {e : Ending}
    (h : Sig F R sig run e) : Spanned F sig.spanTree run := by
  obtain ⟨hp, hr, hs⟩ := h
  refine ⟨Opens.append ?_ _, hs, (hp.laid hR).append (hr.laid hR)⟩
  cases hp with
  | unnamed hlp _ => exact .of_eq hlp nofun
  | named hlp _ => exact .of_eq hlp nofun

/-- The tilde of a term belongs to no tree. -/
theorem TermRun.laid {tm : Term TypeExpr} {run : List Token} (h : TermRun R tm run) :
    Laid F run [tm.type.spanTree] := by
  cases h with
  | plain ht => exact (Inner.spanned hR ht).laid
  | tilde _ ht => exact .skip (Inner.spanned hR ht).laid

theorem TermRun.opens {tm : Term TypeExpr} {run : List Token} (h : TermRun R tm run) :
    Opens run := by
  cases h with
  | plain ht => exact (Inner.spanned hR ht).opens
  | tilde hmark _ => exact .of_eq hmark nofun

/-- A union spans its terms. A single type has no tree of its own around it. -/
theorem Constraint.spanned {t : TypeExpr} {run : List Token}
    (h : Constraint F R t run) : Spanned F t.spanTree run := by
  cases h with
  | plain ht => exact Inner.spanned hR ht
  | union _ hterms hs =>
    rw [TypeExpr.spanTree, spanTreesOfTerms_eq, List.map_eq_flatMap]
    exact ⟨hterms.opens fun _ _ => TermRun.opens hR, hs, hterms.laid
      fun _ _ => TermRun.laid hR⟩

/-- A member spans its names, its type and its tag. -/
theorem MemberRun.spanned {f : Field TypeExpr} {run : List Token}
    (h : MemberRun F R f run) : Spanned F f.spanTree run := by
  cases h with
  | named hnames ht htag hs =>
    exact ⟨((names_opens hnames).append _).append _, hs,
      ((names_laid hnames).append (Inner.spanned hR ht).laid).append htag.laid⟩
  | embedded _ ht htag hs =>
    exact ⟨(Inner.spanned hR ht).opens.append _, hs,
      (Inner.spanned hR ht).laid.append htag.laid⟩

/-- An element of an interface spans its name and signature, or what is embedded. -/
theorem ElementRun.spanned {f : Field TypeExpr} {run : List Token}
    (h : ElementRun F R f run) : Spanned F f.spanTree run := by
  cases h with
  | method hn hsig hs' hs =>
    -- the type of a method has the span of its signature
    have hfunc : Spanned F (.node _ [Signature.spanTree _]) _ :=
      ⟨(hsig.spanned hR).opens, hs', (hsig.spanned hR).laid⟩
    rw [← TypeExpr.spanTree_func] at hfunc
    exact ⟨hn.spanned.opens.append _, hs, hn.spanned.laid.append hfunc.laid⟩
  | embedded ht hs => exact ⟨(ht.spanned hR).opens, hs, (ht.spanned hR).laid⟩

/-- **Every form of type spans the run that spells it**, with its parts in
order, if the types in it do. -/
theorem Form.spanned {t : TypeExpr} {run : List Token} {e : Ending}
    (h : Form F R t run e) : Spanned F t.spanTree run := by
  cases h with
  | named hn => exact hn.spanned
  | applied hbase _ _ hargs hs =>
    rw [TypeExpr.spanTree, spanTreesOfTypes_eq]
    exact ⟨hbase.spanned.opens.append _, hs,
      hbase.spanned.laid.append (.skip (hargs.laid_map fun _ _ => Inner.spanned hR))⟩
  | pointer hstar helem hs =>
    rw [TypeExpr.spanTree]
    exact ⟨.of_eq hstar nofun, hs, .skip (hR helem).laid⟩
  | slice hlb _ helem hs =>
    rw [TypeExpr.spanTree]
    exact ⟨.of_eq hlb nofun, hs, .skip (.skip (hR helem).laid)⟩
  | array hlb hlength _ helem hs =>
    rw [TypeExpr.spanTree]
    exact ⟨.of_eq hlb nofun, hs, (hlength.laid hlb).append (.skip (hR helem).laid)⟩
  | map hkw _ hkey _ hvalue hs =>
    rw [TypeExpr.spanTree]
    exact ⟨.of_eq hkw nofun, hs,
      .skip (.skip ((Inner.spanned hR hkey).laid.append (.skip (hR hvalue).laid)))⟩
  | chan hkw _ helem hs =>
    rw [TypeExpr.spanTree]
    exact ⟨.of_eq hkw nofun, hs, .skip (hR helem).laid⟩
  | send hkw _ helem hs =>
    rw [TypeExpr.spanTree]
    exact ⟨.of_eq hkw nofun, hs, .skip (.skip (hR helem).laid)⟩
  | receive harrow _ helem hs =>
    rw [TypeExpr.spanTree]
    exact ⟨.of_eq harrow nofun, hs, .skip (.skip (hR helem).laid)⟩
  | func hkw hsig hs =>
    rw [TypeExpr.spanTree_func]
    exact ⟨.of_eq hkw nofun, hs, .skip (hsig.spanned hR).laid⟩
  | struct hkw _ hfields hs =>
    rw [TypeExpr.spanTree, spanTreesOfFields_eq]
    exact ⟨.of_eq hkw nofun, hs,
      .skip (.skip (hfields.laid_map fun _ _ => MemberRun.spanned hR))⟩
  | interface hkw _ helems hs =>
    rw [TypeExpr.spanTree, spanTreesOfFields_eq]
    exact ⟨.of_eq hkw nofun, hs,
      .skip (.skip (helems.laid_map fun _ _ => ElementRun.spanned hR))⟩
  | paren hlp helem _ hs =>
    rw [TypeExpr.spanTree]
    exact ⟨.of_eq hlp nofun, hs, .skip ((Inner.spanned hR helem).laid.append_bare _)⟩

end Types

/-- A type has the tokens that spell it to itself. -/
theorem Spells.spanned {t : TypeExpr} {run : List Token} {e : Ending}
    (h : Spells F t run e) : Spanned F t.spanTree run := by
  obtain ⟨depth, h⟩ := h
  induction depth generalizing t run e with
  | zero => exact h.elim
  | succ depth ih => exact Form.spanned ih h

/-! ## Files -/

/-- An import has its name before its path. -/
theorem ImportRun.laid {spec : ImportSpec} {run : List Token}
    (h : ImportRun F spec run) : Laid F run spec.spanTrees := by
  obtain ⟨hname, hpath⟩ := h
  refine Laid.append ?_ hpath.spanned.laid
  cases hname with
  | none => exact .nil
  | dot ht hs => exact (Spanned.leaf (.of_eq ht nofun) hs).laid
  | name hn => exact hn.spanned.laid

/-- The parts of a value declaration are in the order of the source: names, type,
initializers. -/
theorem ValueRun.laid {spec : ValueSpec} {run : List Token} (h : ValueRun F spec run) :
    Laid F run spec.spanTrees := by
  obtain ⟨hnames, htype, hvalues⟩ := h
  refine ((names_laid hnames).append ?_).append ?_
  · cases htype with
    | none => exact .nil
    | some ht => exact (Inner.spanned Spells.spanned ht).laid
  · cases hvalues with
    | none => exact .nil
    | some heq hskip => exact .skipped heq rfl hskip

/-- Groups of type parameters are laid out in order, within the brackets. -/
theorem TypeParams.laid {params : List (Field TypeExpr)} {run : List Token}
    (h : TypeParams F params run) : Laid F run (params.map Field.spanTree) := by
  cases h with
  | none => exact .nil
  | some _ _ hlisted =>
    refine .skip (hlisted.laid_map fun f part hf => ?_)
    obtain ⟨hnames, ht, hs⟩ := hf
    exact spanned_names hnames (ht.spanned Spells.spanned) hs

/-- A type declaration has its name, type parameters and type in this order. -/
theorem TypeSpecRun.laid {spec : TypeSpec} {run : List Token}
    (h : TypeSpecRun F spec run) : Laid F run spec.spanTrees := by
  obtain ⟨hname, hparams, -, htype⟩ := h
  have htype := (Inner.spanned Spells.spanned htype).laid
  exact hname.spanned.laid.append ((hparams.laid.append_bare _).append htype)

/-- A group spans its keyword, its parentheses and its specs. -/
theorem GroupRun.spanned {σ : Type} {word : Keyword} {spec : σ → List Token → Prop}
    {trees : σ → List SpanTree} {g : Group σ} {run : List Token}
    (hspec : ∀ a part, spec a part → Laid F part (trees a))
    (h : GroupRun F word spec g run) :
    Spanned F (.node g.span (g.specs.flatMap trees)) run := by
  cases h with
  | single hkw ha hs =>
    refine ⟨.of_eq hkw nofun, hs, .skip ?_⟩
    show Laid F _ ([_].flatMap trees)
    rw [List.flatMap_singleton]
    exact hspec _ _ ha
  | listed hkw _ hlisted hs =>
    exact ⟨.of_eq hkw nofun, hs, .skip (.skip (hlisted.laid hspec))⟩

/-- A receiver lies within its parentheses. -/
theorem ReceiverRun.laid {receiver : Option (Field TypeExpr)} {run : List Token}
    (h : ReceiverRun F receiver run) :
    Laid F run (receiver.toList.map Field.spanTree) := by
  cases h with
  | none => exact .nil
  | some hparams => exact hparams.laid Spells.spanned

/-- A body is a leaf: nothing in it has a span of its own. -/
theorem BodyRun.laid {body : Option Span} {run : List Token} (h : BodyRun F body run) :
    Laid F run (body.toList.map .leaf) := by
  cases h with
  | none => exact .nil
  | some hlb hskip => exact (Spanned.leaf (.of_eq hlb nofun) hskip.fits).laid

/-- A function spans everything from its keyword to its body. -/
theorem FuncRun.spanned {decl : FuncDecl} {run : List Token} (h : FuncRun F decl run) :
    Spanned F decl.spanTree run := by
  obtain ⟨hkw, hreceiver, hname, htypes, hsig, hbody, hs⟩ := h
  refine ⟨.of_eq hkw nofun, hs, .skip (hreceiver.laid.append ?_)⟩
  exact hname.spanned.laid.append
    (htypes.laid.append ((hsig.spanned Spells.spanned).laid.append hbody.laid))

/-- A declaration has the tokens that spell it to itself. -/
theorem DeclRun.spanned {d : Decl} {run : List Token} (h : DeclRun F d run) :
    Spanned F d.spanTree run := by
  cases h with
  | imports hgroup => exact hgroup.spanned fun _ _ => ImportRun.laid
  | consts hgroup | vars hgroup => exact hgroup.spanned fun _ _ => ValueRun.laid
  | types hgroup => exact hgroup.spanned fun _ _ => TypeSpecRun.laid
  | func hfunc => exact hfunc.spanned

/-- **Declarations are laid out in the order of the source.** -/
theorem DeclsRun.laid {ds : List Decl} {run : List Token} (h : DeclsRun F ds run) :
    Laid F run (ds.map Decl.spanTree) := by
  induction h with
  | nil => exact .bare _
  | cons _ hd _ _ ih =>
    exact ((hd.spanned.laid.bare_append _).append_bare _).append ih

/-- The spans of a file are laid out over its tokens. -/
theorem FileRun.laid {f : SourceFile} {run : List Token} (h : FileRun F f run) :
    Laid F run f.spanTrees := by
  obtain ⟨-, -, hname, -, hdecls⟩ := h
  exact .bare_append _
    (.skip (hname.spanned.laid.append (.bare_append _ hdecls.laid)))

end Grammar

end GoInventory
