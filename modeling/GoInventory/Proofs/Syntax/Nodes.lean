import GoInventory.Proofs.Syntax.FileSoundness
import GoInventory.Proofs.Syntax.Nesting
import GoInventory.Proofs.Token.Order
import GoInventory.Proofs.Token.Writes

/-!
# The types of a file

The types that stand in a file, at any depth (`SourceFile.HasType`). Each of
them was read from a run of tokens: as the type of a parameter, as a constraint,
or as the signature of a method (`IsNode`). A type passes this on to its
children, one rule of the grammar at a time, so all types of a parsed file have
it. Only the types in lists of parameters and results were read as types of
parameters, the others are plain (`IsPlain`).

The tokens of a source can be written again, since each of them is the token of
a lexeme. `Placement.lexed` keeps that fact at every leaf of the tree.
-/

namespace GoInventory

namespace TypeExpr

/-- The types that stand directly in a type. The name that type arguments are
given to is a type of its own. -/
def children : TypeExpr → List TypeExpr
  | named _ => []
  | applied _ base args => named base :: args
  | pointer _ elem | array _ _ elem | slice _ elem | chan _ _ elem => [elem]
  | map _ key value => [key, value]
  | func _ sig => sig.params.map (·.type) ++ sig.results.map (·.type)
  | struct _ fields | interface _ fields => fields.map (·.type)
  | variadic _ elem | paren _ elem => [elem]
  | union _ terms => terms.map (·.type)

/-- The types that stand directly in a type, but for those of its
parameters and results. -/
def unlistedChildren : TypeExpr → List TypeExpr
  | func _ _ => []
  | t => t.children

/-- A child of a type stands in a list of parameters only if the type
is a function. -/
theorem mem_children {t c : TypeExpr} (h : c ∈ t.children) : c ∈ t.unlistedChildren ∨
    ∃ s sig, t = .func s sig ∧
      c ∈ sig.params.map (·.type) ++ sig.results.map (·.type) := by
  cases t with
  | func s sig => exact Or.inr ⟨s, sig, rfl, h⟩
  | _ => exact Or.inl h

/-- The type is the other one, or stands in it at some depth. -/
inductive Within (u : TypeExpr) : TypeExpr → Prop
  | self : Within u u
  | child {t c : TypeExpr} : c ∈ t.children → Within u c → Within u t

end TypeExpr

/-- The types that stand directly in a declaration. -/
def Decl.topTypes : Decl → List TypeExpr
  | imports _ => []
  | consts group | vars group => group.specs.filterMap (·.type)
  | types group =>
    group.specs.flatMap fun spec => spec.typeParams.map (·.type) ++ [spec.type]
  | func decl => decl.receiver.toList.map (·.type) ++ decl.typeParams.map (·.type)
    ++ (decl.signature.params.map (·.type) ++ decl.signature.results.map (·.type))

/-- The types that stand directly in a declaration, but for those of receivers,
parameters and results. -/
def Decl.unlistedTypes : Decl → List TypeExpr
  | func decl => decl.typeParams.map (·.type)
  | d => d.topTypes

/-- The type stands in the file, at some depth. -/
def SourceFile.HasType (file : SourceFile) (t : TypeExpr) : Prop :=
  ∃ d ∈ file.decls, ∃ top ∈ d.topTypes, t.Within top

namespace Grammar

section Lists

variable {α : Type} {item : α → List Token → Prop} {separator close : Operator}

/-- Every item of a list was spelled by a part of the run. -/
theorem Listed.item_of_mem {as : List α} {run : List Token} {a : α}
    (h : Listed item separator close as run) (ha : a ∈ as) : ∃ part, item a part := by
  induction h with
  | none => cases ha
  | last hb =>
    rw [List.mem_singleton.mp ha]
    exact ⟨_, hb⟩
  | cons hb _ _ ih =>
    rcases List.mem_cons.mp ha with rfl | ha
    · exact ⟨_, hb⟩
    · exact ih ha

theorem Separated.item_of_mem {as : List α} {run : List Token} {a : α}
    (h : Separated item separator as run) (ha : a ∈ as) : ∃ part, item a part := by
  induction h with
  | one hb =>
    rw [List.mem_singleton.mp ha]
    exact ⟨_, hb⟩
  | cons hb _ _ ih =>
    rcases List.mem_cons.mp ha with rfl | ha
    · exact ⟨_, hb⟩
    · exact ih ha

end Lists

/-- Every spec of a group was spelled by a part of the run. -/
theorem GroupRun.spec_of_mem {F : Placement} {σ : Type} {word : Keyword}
    {spec : σ → List Token → Prop} {g : Group σ} {run : List Token} {a : σ}
    (h : GroupRun F word spec g run) (ha : a ∈ g.specs) : ∃ part, spec a part := by
  cases h with
  | single _ hspec _ =>
    rw [List.mem_singleton.mp ha]
    exact ⟨_, hspec⟩
  | listed _ _ hlisted _ => exact hlisted.item_of_mem ha

/-- Every declaration of a file was read from tokens. -/
theorem FileRun.decl_of_mem {F : Placement} {file : SourceFile} {run : List Token}
    {d : Decl} (h : FileRun F file run) (hd : d ∈ file.decls) :
    ∃ part, DeclRun F d part := by
  obtain ⟨-, -, -, -, hdecls⟩ := h
  induction hdecls with
  | nil => cases hd
  | cons _ hdecl _ _ ih =>
    rcases List.mem_cons.mp hd with rfl | hd
    · exact ⟨_, hdecl⟩
    · exact ih hd

/-- The type was read from tokens: where a parameter or a constraint stands, or
as the signature of a method. -/
inductive IsNode (F : Placement) : TypeExpr → Prop
  | param {t : TypeExpr} {run : List Token} :
      ParamType F (Spells F) t run → IsNode F t
  | constraint {t : TypeExpr} {run : List Token} :
      Constraint F (Spells F) t run → IsNode F t
  | method {s : Span} {sig : Signature TypeExpr} {run : List Token} {e : Ending} :
    Sig F (Spells F) sig run e → F.fits s run → IsNode F (.func s sig)

/-- The type was read where no parameter can stand. -/
inductive IsPlain (F : Placement) : TypeExpr → Prop
  | constraint {t : TypeExpr} {run : List Token} :
      Constraint F (Spells F) t run → IsPlain F t
  | method {s : Span} {sig : Signature TypeExpr} {run : List Token} {e : Ending} :
    Sig F (Spells F) sig run e → F.fits s run → IsPlain F (.func s sig)

variable {F : Placement}

namespace IsPlain

/-- A type that stands where no parameter can stand was read from tokens. -/
theorem isNode {t : TypeExpr} (h : IsPlain F t) : IsNode F t := by
  cases h with
  | constraint h => exact .constraint h
  | method hsig hfits => exact .method hsig hfits

/-- A type that is spelled is a plain one. -/
theorem of_spells {t : TypeExpr} {run : List Token} {e : Ending}
    (h : Spells F t run e) : IsPlain F t :=
  .constraint (.plain ⟨e, h⟩)

/-- So is a type inside a form. -/
theorem of_inner {t : TypeExpr} {run : List Token} (h : Inner (Spells F) t run) :
    IsPlain F t :=
  .constraint (.plain h)

/-- The type of a member is plain. -/
theorem of_member {f : Field TypeExpr} {run : List Token}
    (h : MemberRun F (Spells F) f run) : IsPlain F f.type := by
  cases h with
  | named _ htype _ _ => exact of_inner htype
  | embedded _ htype _ _ => exact of_inner htype

/-- What is embedded in an interface is plain, and so is the
signature of a method. -/
theorem of_element {f : Field TypeExpr} {run : List Token}
    (h : ElementRun F (Spells F) f run) : IsPlain F f.type := by
  cases h with
  | method _ hsig hfits _ => exact .method hsig hfits
  | embedded htype _ => exact .constraint htype

/-- Outside of lists of parameters, the types in a form are plain. -/
theorem of_form {t c : TypeExpr} {run : List Token} {e : Ending}
    (h : Form F (Spells F) t run e) (hc : c ∈ t.unlistedChildren) : IsPlain F c := by
  cases h with
  | named | func => cases hc
  | applied hbase _ _ hargs _ =>
    -- the name is not spelled as a type in the rule, but it could stand alone
    rcases List.mem_cons.mp hc with rfl | hc
    · exact of_spells (spells_iff.mpr (.named hbase))
    · obtain ⟨part, harg⟩ := hargs.item_of_mem hc
      exact of_inner harg
  | pointer _ helem _ | slice _ _ helem _ | array _ _ _ helem _ | chan _ _ helem _
  | send _ _ helem _ | receive _ _ helem _ =>
    rw [List.mem_singleton.mp hc]
    exact of_spells helem
  | map _ _ hkey _ hvalue _ =>
    rcases List.mem_cons.mp hc with rfl | hc
    · exact of_inner hkey
    · rw [List.mem_singleton.mp hc]
      exact of_spells hvalue
  | struct _ _ hmembers _ =>
    obtain ⟨f, hf, rfl⟩ := List.mem_map.mp hc
    obtain ⟨part, hmember⟩ := hmembers.item_of_mem hf
    exact of_member hmember
  | interface _ _ helems _ =>
    obtain ⟨f, hf, rfl⟩ := List.mem_map.mp hc
    obtain ⟨part, helem⟩ := helems.item_of_mem hf
    exact of_element helem
  | paren _ helem _ _ =>
    rw [List.mem_singleton.mp hc]
    exact of_inner helem

/-- The types in a plain type that are not in a list of parameters are plain. -/
theorem child {t c : TypeExpr} (h : IsPlain F t) (hc : c ∈ t.unlistedChildren) :
    IsPlain F c := by
  cases h with
  | constraint hconstraint =>
    cases hconstraint with
    | plain htype =>
      obtain ⟨e, hspells⟩ := htype
      exact of_form (spells_iff.mp hspells) hc
    | union _ hterms _ =>
      obtain ⟨tm, htm, rfl⟩ := List.mem_map.mp hc
      obtain ⟨part, hterm⟩ := hterms.item_of_mem htm
      cases hterm with
      | plain htype => exact of_inner htype
      | tilde _ htype => exact of_inner htype
  | method => cases hc

/-! ## Plain types of declarations -/

/-- Constraints are plain. -/
theorem of_typeParams {params : List (Field TypeExpr)} {run : List Token}
    {t : TypeExpr} (h : TypeParams F params run) (ht : t ∈ params.map (·.type)) :
    IsPlain F t := by
  cases h with
  | none => cases ht
  | some _ _ hlisted =>
    obtain ⟨f, hf, rfl⟩ := List.mem_map.mp ht
    obtain ⟨part, -, hconstraint, -⟩ := hlisted.item_of_mem hf
    exact .constraint hconstraint

/-- The type of a value declaration is plain. -/
theorem of_valueRun {spec : ValueSpec} {run : List Token} {t : TypeExpr}
    (h : ValueRun F spec run) (ht : spec.type = some t) : IsPlain F t := by
  obtain ⟨-, htype, -⟩ := h
  cases htype with
  | none => cases ht
  | some hinner =>
    cases ht
    exact of_inner hinner

/-- The types of a type declaration are plain. -/
theorem of_typeSpecRun {spec : TypeSpec} {run : List Token} {t : TypeExpr}
    (h : TypeSpecRun F spec run)
    (ht : t ∈ spec.typeParams.map (·.type) ++ [spec.type]) : IsPlain F t := by
  obtain ⟨-, hparams, -, htype⟩ := h
  rcases List.mem_append.mp ht with ht | ht
  · exact of_typeParams hparams ht
  · rw [List.mem_singleton.mp ht]
    exact of_inner htype

/-- **Outside of lists of parameters, the types of a declaration are plain**, so
none of them is variadic. -/
theorem of_declRun {d : Decl} {run : List Token} {t : TypeExpr} (h : DeclRun F d run)
    (ht : t ∈ d.unlistedTypes) : IsPlain F t := by
  cases h with
  | imports => cases ht
  | consts hgroup | vars hgroup =>
    obtain ⟨spec, hspec, heq⟩ := List.mem_filterMap.mp ht
    obtain ⟨part, hrun⟩ := hgroup.spec_of_mem hspec
    exact of_valueRun hrun heq
  | types hgroup =>
    obtain ⟨spec, hspec, hmem⟩ := List.mem_flatMap.mp ht
    obtain ⟨part, hrun⟩ := hgroup.spec_of_mem hspec
    exact of_typeSpecRun hrun hmem
  | func hfunc =>
    obtain ⟨-, -, -, htypes, -, -, -⟩ := hfunc
    exact of_typeParams htypes ht

end IsPlain

namespace IsNode

/-! ## The types in lists -/

/-- The types of parameters were read, variadic or not. -/
theorem of_params {fields : List (Field TypeExpr)} {run : List Token} {t : TypeExpr}
    (h : Params F (Spells F) fields run) (ht : t ∈ fields.map (·.type)) :
    IsNode F t := by
  obtain ⟨f, hf, rfl⟩ := List.mem_map.mp ht
  cases h with
  | unnamed _ hlist =>
    obtain ⟨part, htype, -⟩ := hlist.item_of_mem hf
    exact .param htype
  | named _ hlist =>
    obtain ⟨part, -, htype, -⟩ := hlist.item_of_mem hf
    exact .param htype

/-- The same for all types of a signature. -/
theorem of_signature {sig : Signature TypeExpr} {run : List Token} {e : Ending}
    {t : TypeExpr} (h : Sig F (Spells F) sig run e)
    (ht : t ∈ sig.params.map (·.type) ++ sig.results.map (·.type)) : IsNode F t := by
  obtain ⟨hparams, hresults, -⟩ := h
  rcases List.mem_append.mp ht with ht | ht
  · exact of_params hparams ht
  · cases hresults with
    | none => cases ht
    | listed hlisted => exact of_params hlisted ht
    | bare _ hbare _ =>
      rw [List.mem_singleton.mp ht]
      exact (IsPlain.of_spells hbare).isNode

/-! ## Children -/

/-- A type is plain, or it is the variadic type of a parameter. -/
theorem plain_or_variadic {t : TypeExpr} (h : IsNode F t) :
    IsPlain F t ∨ ∃ s elem, t = .variadic s elem ∧ IsPlain F elem := by
  cases h with
  | param hparam =>
    cases hparam with
    | plain htype => exact Or.inl (.of_inner htype)
    | variadic _ helem _ => exact Or.inr ⟨_, _, rfl, .of_inner helem⟩
  | constraint hconstraint => exact Or.inl (.constraint hconstraint)
  | method hsig hfits => exact Or.inl (.method hsig hfits)

/-- A type in a type that was read is plain, unless it is in a list
of parameters. -/
theorem unlistedChild {t c : TypeExpr} (h : IsNode F t) (hc : c ∈ t.unlistedChildren) :
    IsPlain F c := by
  rcases h.plain_or_variadic with hplain | ⟨s, elem, rfl, helem⟩
  · exact hplain.child hc
  · rw [List.mem_singleton.mp hc]
    exact helem

/-- A function type was read from a signature. -/
theorem signature {s : Span} {sig : Signature TypeExpr} (h : IsNode F (.func s sig)) :
    ∃ run e, Sig F (Spells F) sig run e := by
  rcases h.plain_or_variadic with hplain | ⟨_, _, heq, -⟩
  · cases hplain with
    | constraint hconstraint =>
      cases hconstraint with
      | plain htype =>
        obtain ⟨e, hspells⟩ := htype
        cases spells_iff.mp hspells with
        | func _ hsig _ => exact ⟨_, _, hsig⟩
    | method hsig _ => exact ⟨_, _, hsig⟩
  · cases heq

theorem child {t c : TypeExpr} (h : IsNode F t) (hc : c ∈ t.children) :
    IsNode F c := by
  rcases TypeExpr.mem_children hc with hplain | ⟨s, sig, rfl, hlist⟩
  · exact (h.unlistedChild hplain).isNode
  · obtain ⟨run, e, hsig⟩ := h.signature
    exact of_signature hsig hlist

/-- **Every type in a type that was read was read.** The induction is on how
deep it is inside. -/
theorem within {t u : TypeExpr} (hu : u.Within t) (h : IsNode F t) : IsNode F u := by
  induction hu with
  | self => exact h
  | child hc _ ih => exact ih (h.child hc)

/-! ## Files -/

/-- The types of a function were read. -/
theorem of_funcRun {decl : FuncDecl} {run : List Token} {t : TypeExpr}
    (h : FuncRun F decl run) (ht : t ∈ (Decl.func decl).topTypes) : IsNode F t := by
  obtain ⟨-, hreceiver, -, htypes, hsig, -, -⟩ := h
  rcases List.mem_append.mp ht with ht | ht
  · rcases List.mem_append.mp ht with ht | ht
    · cases hreceiver with
      | none => cases ht
      | some hparams => exact of_params hparams ht
    · exact (IsPlain.of_typeParams htypes ht).isNode
  · exact of_signature hsig ht

theorem of_declRun {d : Decl} {run : List Token} {t : TypeExpr} (h : DeclRun F d run)
    (ht : t ∈ d.topTypes) : IsNode F t := by
  cases d with
  | func decl =>
    cases h with
    | func hfunc => exact of_funcRun hfunc ht
  | imports | consts | vars | types => exact (IsPlain.of_declRun h ht).isNode


/-- Every type of a file was read from tokens. -/
theorem of_fileRun {file : SourceFile} {run : List Token} {t : TypeExpr}
    (h : FileRun F file run) (ht : file.HasType t) : IsNode F t := by
  obtain ⟨d, hd, top, htop, hwithin⟩ := ht
  obtain ⟨part, hdecl⟩ := h.decl_of_mem hd
  exact within hwithin (of_declRun hdecl htop)

end IsNode

end Grammar

/-! ## Tokens that can be written again -/

/-- Every token of a run is one of some source. -/
def Placement.lexed : Placement where
  allows := fun run => ∀ t ∈ run, t.tok.Lexed
  fits := fun _ run => ∀ t ∈ run, t.tok.Lexed
  allows_left := fun h t ht => h t (List.mem_append_left _ ht)
  allows_right := fun h t ht => h t (List.mem_append_right _ ht)
  fits_extent := fun h _ _ => h
  fits_since := fun h _ _ => h
  fits_join := fun h _ _ _ _ => h

/-- A token without a text needs no source. -/
theorem Tok.lexed_of_text?_eq_none {tok : Tok} (h : tok.text? = none) :
    tok.Lexed := by
  intro text htext
  rw [h] at htext
  cases htext

/-- **Every type of a parsed file is spelled by tokens that can be written
again**, unless it is one of the forms that stand in special places only. -/
theorem spells_of_hasType {source : String} {file : SourceFile} {t : TypeExpr}
    (h : parseTokens (tokenize source).tokens (Text.byteLength source.toList)
      = .ok file)
    (ht : file.HasType t) (hdots : ∀ s elem, t ≠ .variadic s elem)
    (hunion : ∀ s terms, t ≠ .union s terms) :
    ∃ run e, Grammar.Spells .lexed t run e := by
  have hlexed : ∀ u ∈ (tokenize source).tokens, u.tok.Lexed := by
    intro u hu text htext
    obtain ⟨l, hl, htok⟩ := ((Token.tokenize_placed source).1 u hu).of_text text htext
    exact ⟨source.toList, l, hl, htok⟩
  have hrun : Grammar.FileRun .lexed file (tokenize source).tokens :=
    fileRun_of_parseTokens h hlexed
  cases Grammar.IsNode.of_fileRun hrun ht with
  | param hparam =>
    cases hparam with
    | plain htype =>
      obtain ⟨e, hspells⟩ := htype
      exact ⟨_, e, hspells⟩
    | variadic => exact absurd rfl (hdots _ _)
  | constraint hconstraint =>
    cases hconstraint with
    | plain htype =>
      obtain ⟨e, hspells⟩ := htype
      exact ⟨_, e, hspells⟩
    | union => exact absurd rfl (hunion _ _)
  | @method s sig run e hsig hfits =>
    -- the tokens of a method lack the keyword that makes a function type of
    -- its signature
    let kw : Token := ⟨0, .keyword .func, 0⟩
    have hkw : ∀ u ∈ kw :: run, u.tok.Lexed := by
      intro u hu
      rcases List.mem_cons.mp hu with rfl | hu
      · exact Tok.lexed_of_text?_eq_none rfl
      · exact hfits u hu
    exact ⟨kw :: run, e, Grammar.spells_iff.mpr (.func rfl hsig hkw)⟩

end GoInventory
