import GoInventory.Proofs.Arena.Store
import GoInventory.Proofs.TypeText.Outline
import Mathlib.Data.Option.Basic

/-!
# What an arena holds

A number stands for a tree if the node with that number has the form and the
span of the tree, and what it links to stands for the parts of the tree
(`Arena.HoldsType`, `Arena.HoldsFile`). The numbers themselves do not matter.

Whatever is stored is held in every arena that grows from there, as long as the
numbers suffice (`Stores`). So an arena that a file is put into holds that file
(`SourceFile.stores`). Only members of structs have tags, so of other fields no
tag is compared.
-/

namespace GoInventory

open Arena

variable {hash : String → UInt64} {α β : Type}

namespace Arena

section Relations

variable (A : Arena hash)

/-- An identifier. -/
structure HoldsIdent (ref : IdentRef) (name : Ident) : Prop where
  text : A.text? ref.symbol = some name.name
  span : ref.span = name.span

/-- A string literal. -/
structure HoldsString (ref : StringRef) (lit : StringLit) : Prop where
  kind : ref.kind = lit.kind
  text : A.text? ref.symbol = some lit.text
  span : ref.span = lit.span

/-- A list, the items of which are made by `cell` of what stands for the parts. -/
inductive HoldsList {k : CellKind} (cell : β → Cell k) (R : β → α → Prop) :
  ListRef k → List α → Prop
  | mk {start len : UInt32} {refs : List β} {as : List α} :
    A.slice? ⟨start, len⟩ = some (refs.map cell) → List.Forall₂ R refs as →
      HoldsList cell R ⟨start, len⟩ as

/-- Names. -/
abbrev HoldsNames : ListRef .nameItem → List Ident → Prop :=
  A.HoldsList .nameItem A.HoldsIdent

/-- The name of a type. -/
inductive HoldsTypeName : NodeId .type → TypeName → Prop
  | plain {id : NodeId .type} {ref : IdentRef} {name : Ident} :
    A.cell? id = some (.type (.plain ref) name.span) → A.HoldsIdent ref name →
      HoldsTypeName id (.plain name)
  | qualified {id : NodeId .type} {pkg' name' : IdentRef} {span : Span}
      {pkg name : Ident} :
    A.cell? id = some (.type (.qualified pkg' name') span) → A.HoldsIdent pkg' pkg →
      A.HoldsIdent name' name →
    HoldsTypeName id (.qualified span pkg name)

/-- What stands between the brackets of an array type. -/
inductive HoldsLength : LengthRef → ArrayLength → Prop
  | ellipsis : HoldsLength .ellipsis .ellipsis
  | ident {id : NodeId .length} {ref : IdentRef} {name : Ident} :
    A.cell? id = some (.length (.ident ref) name.span) → A.HoldsIdent ref name →
    HoldsLength (.expr id) (.expr (.ident name))
  | selector {id : NodeId .length} {pkg' sel' : IdentRef} {span : Span}
      {pkg sel : Ident} :
    A.cell? id = some (.length (.selector pkg' sel') span) → A.HoldsIdent pkg' pkg →
      A.HoldsIdent sel' sel →
    HoldsLength (.expr id) (.expr (.selector span pkg sel))
  | literal {id : NodeId .length} {symbol : UInt32} {span : Span} {kind : LiteralKind}
      {text : String} :
    A.cell? id = some (.length (.literal kind symbol) span) →
      A.text? symbol = some text →
    HoldsLength (.expr id) (.expr (.literal span kind text))
  | other {id : NodeId .length} {span : Span} :
    A.cell? id = some (.length .other span) →
      HoldsLength (.expr id) (.expr (.other span))

/-- A field, given what its type stands for and how its tag is compared. -/
inductive HoldsField (T : Option StringRef → Option StringLit → Prop)
  (R : NodeId .type → TypeExpr → Prop) :
    NodeId .field → Field TypeExpr → Prop
  | mk {raw : UInt32} {names : ListRef .nameItem} {type : NodeId .type}
      {tag : Option StringRef}
    {field : Field TypeExpr} :
      A.cell? ⟨raw⟩ = some (.field ⟨names, type, tag⟩ field.span) →
    A.HoldsNames names field.names → R type field.type → T tag field.tag →
      HoldsField T R ⟨raw⟩ field

/-- No tag is made. -/
def Untagged (ref : Option StringRef) (_ : Option StringLit) : Prop := ref = none

/-- Parameters and results. -/
inductive HoldsSignature (R : NodeId .type → TypeExpr → Prop) : NodeId .signature →
  Signature TypeExpr → Prop
  | mk {raw : UInt32} {params results : ListRef .fieldItem}
      {sig : Signature TypeExpr} :
    A.cell? ⟨raw⟩ = some (.signature params results sig.span) →
    A.HoldsList .fieldItem (A.HoldsField Untagged R) params sig.params →
    A.HoldsList .fieldItem (A.HoldsField Untagged R) results sig.results →
      HoldsSignature R ⟨raw⟩ sig

/-- A term of a constraint. -/
inductive HoldsTerm (R : NodeId .type → TypeExpr → Prop) : Cell .termItem →
  Term TypeExpr → Prop
  | mk {type : NodeId .type} {term : Term TypeExpr} : R type term.type →
      HoldsTerm R (.termItem term.tilde type) term

/-- A type. -/
inductive HoldsType : NodeId .type → TypeExpr → Prop
  | named {id : NodeId .type} {name : TypeName} : A.HoldsTypeName id name →
      HoldsType id (.named name)
  | applied {id base' : NodeId .type} {args' : ListRef .typeItem} {span : Span}
      {base : TypeName}
    {args : List TypeExpr} : A.cell? id = some (.type (.applied base' args') span) →
      A.HoldsTypeName base' base →
    A.HoldsList .typeItem HoldsType args' args →
      HoldsType id (.applied span base args)
  | pointer {id elem' : NodeId .type} {span : Span} {elem : TypeExpr} :
    A.cell? id = some (.type (.pointer elem') span) → HoldsType elem' elem →
      HoldsType id (.pointer span elem)
  | array {id elem' : NodeId .type} {length' : LengthRef} {span : Span}
      {length : ArrayLength} {elem : TypeExpr} :
    A.cell? id = some (.type (.array length' elem') span) →
      A.HoldsLength length' length → HoldsType elem' elem →
    HoldsType id (.array span length elem)
  | slice {id elem' : NodeId .type} {span : Span} {elem : TypeExpr} :
    A.cell? id = some (.type (.slice elem') span) → HoldsType elem' elem →
      HoldsType id (.slice span elem)
  | map {id key' value' : NodeId .type} {span : Span} {key value : TypeExpr} :
    A.cell? id = some (.type (.map key' value') span) → HoldsType key' key →
      HoldsType value' value →
    HoldsType id (.map span key value)
  | chan {id elem' : NodeId .type} {span : Span} {dir : ChanDir} {elem : TypeExpr} :
    A.cell? id = some (.type (.chan dir elem') span) → HoldsType elem' elem →
      HoldsType id (.chan span dir elem)
  | func {id : NodeId .type} {sig' : NodeId .signature} {span : Span}
      {sig : Signature TypeExpr} :
    A.cell? id = some (.type (.func sig') span) →
      A.HoldsSignature HoldsType sig' sig → HoldsType id (.func span sig)
  | struct {id : NodeId .type} {fields' : ListRef .fieldItem} {span : Span}
      {fields : List (Field TypeExpr)} :
    A.cell? id = some (.type (.struct fields') span) →
    A.HoldsList .fieldItem (A.HoldsField (Option.Rel A.HoldsString) HoldsType)
      fields' fields →
    HoldsType id (.struct span fields)
  | interface {id : NodeId .type} {elems' : ListRef .fieldItem} {span : Span}
      {elems : List (Field TypeExpr)} :
    A.cell? id = some (.type (.interface elems') span) →
    A.HoldsList .fieldItem (A.HoldsField Untagged HoldsType) elems' elems →
      HoldsType id (.interface span elems)
  | variadic {id elem' : NodeId .type} {span : Span} {elem : TypeExpr} :
    A.cell? id = some (.type (.variadic elem') span) → HoldsType elem' elem →
      HoldsType id (.variadic span elem)
  | paren {id elem' : NodeId .type} {span : Span} {elem : TypeExpr} :
    A.cell? id = some (.type (.paren elem') span) → HoldsType elem' elem →
      HoldsType id (.paren span elem)
  | union {id : NodeId .type} {terms' : ListRef .termItem} {span : Span}
      {terms : List (Term TypeExpr)} :
    A.cell? id = some (.type (.union terms') span) →
      A.HoldsList (fun item => item) (HoldsTerm HoldsType) terms' terms →
    HoldsType id (.union span terms)

/-- Fields without tags. -/
abbrev HoldsFields : ListRef .fieldItem → List (Field TypeExpr) → Prop :=
  A.HoldsList .fieldItem (A.HoldsField Untagged A.HoldsType)

/-- An import. -/
inductive HoldsImport : SpecNode → ImportSpec → Prop
  | mk {name : Option IdentRef} {path : StringRef} {spec : ImportSpec} :
      Option.Rel A.HoldsIdent name spec.name →
    A.HoldsString path spec.path → HoldsImport (.imports name path) spec

/-- Constants or variables. -/
inductive HoldsValues : SpecNode → ValueSpec → Prop
  | mk {names : ListRef .nameItem} {type : Option (NodeId .type)} {spec : ValueSpec} :
    A.HoldsNames names spec.names → Option.Rel A.HoldsType type spec.type →
    HoldsValues (.values names type spec.values) spec

/-- A type definition. -/
inductive HoldsTypeSpec : SpecNode → TypeSpec → Prop
  | mk {name : IdentRef} {params : ListRef .fieldItem} {type : NodeId .type}
      {spec : TypeSpec} :
    A.HoldsIdent name spec.name → A.HoldsFields params spec.typeParams →
      A.HoldsType type spec.type →
    HoldsTypeSpec (.type name params spec.isAlias type) spec

/-- A declaration of specs. -/
inductive HoldsGroup {σ : Type} (kind : GroupKind) (R : SpecNode → σ → Prop) :
  NodeId .decl → Group σ → Prop
  | mk {id : NodeId .decl} {specs : ListRef .specItem} {group : Group σ} :
    A.cell? id = some (.decl (.group kind specs group.grouped) group.span) →
    A.HoldsList .specItem R specs group.specs → HoldsGroup kind R id group

/-- A top-level declaration. -/
inductive HoldsDecl : NodeId .decl → Decl → Prop
  | imports {id : NodeId .decl} {group : Group ImportSpec} :
      A.HoldsGroup .imports A.HoldsImport id group →
    HoldsDecl id (.imports group)
  | consts {id : NodeId .decl} {group : Group ValueSpec} :
      A.HoldsGroup .consts A.HoldsValues id group →
    HoldsDecl id (.consts group)
  | vars {id : NodeId .decl} {group : Group ValueSpec} :
      A.HoldsGroup .vars A.HoldsValues id group →
    HoldsDecl id (.vars group)
  | types {id : NodeId .decl} {group : Group TypeSpec} :
      A.HoldsGroup .types A.HoldsTypeSpec id group →
    HoldsDecl id (.types group)
  | func {id : NodeId .decl} {receiver : Option (NodeId .field)} {name : IdentRef}
      {params : ListRef .fieldItem}
    {sig : NodeId .signature} {decl : FuncDecl} :
    A.cell? id = some (.decl (.func receiver name params sig decl.body) decl.span) →
    Option.Rel (A.HoldsField Untagged A.HoldsType) receiver decl.receiver →
      A.HoldsIdent name decl.name →
    A.HoldsFields params decl.typeParams →
      A.HoldsSignature A.HoldsType sig decl.signature → HoldsDecl id (.func decl)

/-- A file. -/
structure HoldsFile (stored : StoredFile) (file : SourceFile) : Prop where
  package : A.HoldsIdent stored.package file.package
  decls : A.HoldsList .declItem A.HoldsDecl stored.decls file.decls

end Relations

/-- The empty list is held by its reference alone. -/
theorem HoldsList.empty (A : Arena hash) {k : CellKind} {cell : β → Cell k}
    {R : β → α → Prop} : A.HoldsList cell R .empty [] := by
  have hslice : A.slice? (.empty : ListRef k) = some (([] : List β).map cell) :=
    slice?_empty A
  exact .mk hslice .nil

end Arena

/-! ## What is stored is held -/

/-- What is stored is good in the arena `Ω`, if that is where the arena ends up. -/
def Stores (Ω : Arena hash) (s : Store hash β) (good : β → Prop) : Prop :=
  ∀ A, A.Extends (s A).2 ∧ ((s A).2.Extends Ω → good (s A).1)

namespace Stores

variable {Ω : Arena hash} {s : Store hash α} {f : α → Store hash β} {mid : α →
  Prop} {good : β → Prop}

/-- What is not put into the arena is good as it is. -/
theorem pure {b : β} (h : good b) : Stores Ω (pure b) good :=
  fun A => ⟨.refl A, fun _ => h⟩

/-- What is known of the first part is used for the second. Since that is known
only of arenas that grow into `Ω`, it is an assumption of what is good, and not
of the second part. -/
theorem bind (h : Stores Ω s mid) (hf : ∀ a, Stores Ω (f a) fun b => mid a → good b) :
    Stores Ω (s >>= f) good := by
  intro A
  obtain ⟨hfirst, hmid⟩ := h A
  obtain ⟨hsecond, hgood⟩ := hf (s A).1 (s A).2
  exact ⟨hfirst.trans hsecond, fun hΩ => hgood hΩ (hmid (hsecond.trans hΩ))⟩

/-- Less may be said of what is stored. -/
theorem mono {s : Store hash β} {good' : β → Prop} (h : Stores Ω s good')
    (himp : ∀ b, good' b → good b) : Stores Ω s good :=
  fun A => ⟨(h A).1, fun hΩ => himp _ ((h A).2 hΩ)⟩

/-- A list is stored item by item. -/
theorem mapM {as : List α} {s : α → Store hash β} {R : β → α → Prop} (h : ∀ a ∈ as,
    Stores Ω (s a) fun b => R b a) :
    Stores Ω (as.mapM s) fun bs => List.Forall₂ R bs as := by
  induction as with
  | nil => exact .pure .nil
  | cons a as ih =>
    obtain ⟨hfirst, hothers⟩ := List.forall_mem_cons.mp h
    rw [List.mapM_cons]
    exact .bind hfirst fun b => .bind (ih hothers) fun bs => .pure
      fun hbs hb => .cons hb hbs

/-- A part that may be missing is stored if it is there. -/
theorem option {s : α → Store hash β} {R : β → α → Prop} {a? : Option α}
    (h : ∀ a ∈ a?, Stores Ω (s a) fun b => R b a) :
    Stores Ω (storeOption s a?) fun b? => Option.Rel R b? a? := by
  cases a? with
  | none => exact .pure .none
  | some a => exact .bind (h a rfl) fun b => .pure fun hb => .some hb

section Fits

variable (hfits : Ω.Fits)

include hfits

/-- A new node stays where it was put, however the arena grows. -/
theorem alloc {k : CellKind} {cell : Cell k} {good : NodeId k → Prop}
    (h : ∀ id, Ω.cell? id = some cell → good id) : Stores Ω (Arena.alloc cell) good :=
  fun A => ⟨extends_extend A [cell],
    fun hΩ => h _ (hΩ.cell? (cell?_alloc (hΩ.fits hfits)))⟩

/-- The items of a list stay next to each other. -/
theorem list {k : CellKind} (items : List (Cell k)) :
    Stores Ω (Arena.list items) fun r => Ω.slice? r = some items :=
  fun A => ⟨extends_extend A items, fun hΩ => hΩ.slice? (slice?_list (hΩ.fits hfits))⟩

/-- A text that was entered is found under its number from then on. -/
theorem intern (text : String) :
    Stores Ω (Arena.intern text) fun symbol => Ω.text? symbol = some text :=
  fun A => ⟨extends_intern A text, fun hΩ => hΩ.text? (text?_intern (hΩ.fits hfits))⟩

end Fits

end Stores

section Parts

variable {Ω : Arena hash} (hfits : Ω.Fits)

include hfits

/-- An identifier is held as the number of its text, with its span. -/
theorem Ident.stores (name : Ident) :
    Stores Ω name.store fun ref => Ω.HoldsIdent ref name :=
  .bind (.intern hfits name.name) fun _ => .pure fun htext => ⟨htext, rfl⟩

theorem StringLit.stores (lit : StringLit) :
    Stores Ω lit.store fun ref => Ω.HoldsString ref lit :=
  .bind (.intern hfits lit.text) fun _ => .pure fun htext => ⟨rfl, htext, rfl⟩

/-- A name is held as a node of the kind that it has. -/
theorem TypeName.stores (name : TypeName) :
    Stores Ω name.store fun id => Ω.HoldsTypeName id name := by
  cases name with
  | plain name =>
    exact .bind (name.stores hfits)
      fun _ => .alloc hfits fun _ hcell hname => .plain hcell hname
  | qualified span pkg name =>
    refine .bind (pkg.stores hfits) fun _ => .bind (name.stores hfits)
      fun _ => .alloc hfits fun _ hcell hname hpkg => ?_
    exact .qualified hcell hpkg hname

/-- A length is held with the texts that occur in it. -/
theorem LengthExpr.stores (length : LengthExpr) :
    Stores Ω length.store fun id => Ω.HoldsLength (.expr id) (.expr length) := by
  cases length with
  | ident name =>
    exact .bind (name.stores hfits)
      fun _ => .alloc hfits fun _ hcell hname => .ident hcell hname
  | selector span pkg sel =>
    refine .bind (pkg.stores hfits) fun _ => .bind (sel.stores hfits)
      fun _ => .alloc hfits fun _ hcell hsel hpkg => ?_
    exact .selector hcell hpkg hsel
  | literal span kind text =>
    exact .bind (.intern hfits text)
      fun _ => .alloc hfits fun _ hcell htext => .literal hcell htext
  | other span => exact .alloc hfits fun _ hcell => .other hcell

theorem ArrayLength.stores (length : ArrayLength) :
    Stores Ω length.store fun ref => Ω.HoldsLength ref length := by
  cases length with
  | ellipsis => exact .pure .ellipsis
  | expr length =>
    exact .bind (length.stores hfits) fun _ => .pure fun hlength => hlength

/-- A list of names that have been stored. -/
theorem stores_makeNames (names : List Ident) (refs : List IdentRef) :
    Stores Ω (makeNames names refs)
      fun r => List.Forall₂ Ω.HoldsIdent refs names → Ω.HoldsNames r names := by
  cases names with
  | nil =>
    rw [makeNames_nil]
    exact .pure fun _ => .empty Ω
  | cons name names =>
    rw [makeNames_cons]
    exact (Stores.list hfits _).mono fun r hslice hrefs => .mk hslice hrefs

theorem stores_names (names : List Ident) :
    Stores Ω (names.mapM Ident.store)
      fun refs => List.Forall₂ Ω.HoldsIdent refs names :=
  .mapM fun name _ => name.stores hfits

end Parts

/-! ## Fields -/

/-- The parts of a parameter are held. -/
inductive Arena.HoldsHeld (A : Arena hash) : HeldField → Field TypeExpr → Prop
  | bare {ref : IdentRef} {name : Ident} {tag : Option StringLit} {span : Span} :
      A.HoldsIdent ref name →
    HoldsHeld A (.bare ref span) ⟨[], .named (.plain name), tag, span⟩
  | unnamed {id : NodeId .type} {type : TypeExpr} {tag : Option StringLit}
      {span : Span} : A.HoldsType id type →
    HoldsHeld A (.unnamed id span) ⟨[], type, tag, span⟩
  | named {refs : List IdentRef} {id : NodeId .type} {field : Field TypeExpr} :
    List.Forall₂ A.HoldsIdent refs field.names → A.HoldsType id field.type →
    HoldsHeld A (.named refs id field.span) field

/-- Two lists correspond if both correspond to a third one. -/
theorem forall₂_comp {γ : Type} {P : β → γ → Prop} {Q : α → γ → Prop} {as : List α}
    {bs : List β} {cs : List γ}
    (h : List.Forall₂ (fun a b => ∀ c, P b c → Q a c) as bs)
    (h' : List.Forall₂ P bs cs) : List.Forall₂ Q as cs := by
  induction h generalizing cs with
  | nil =>
    cases h'
    exact .nil
  | cons hfirst _ ih =>
    cases h' with
    | cons hb hbs => exact .cons (hfirst _ hb) (ih hbs)

section Fields

variable {Ω : Arena hash} (hfits : Ω.Fits)

include hfits

/-- A field that was kept back holds in the end what it was kept for. -/
theorem HeldField.stores_settle (held : HeldField) : Stores Ω held.settle fun id =>
    ∀ field, Ω.HoldsHeld held field → Ω.HoldsField Untagged Ω.HoldsType id field := by
  cases held with
  | bare ref span =>
    -- the node of the type is made here, with the span of the name
    refine .bind (.alloc hfits fun id hcell => hcell)
      fun type => .alloc hfits fun id hcell htype field hheld => ?_
    cases hheld with
    | bare hname =>
      rw [hname.span] at htype
      exact .mk hcell (.empty Ω) (.named (.plain htype hname)) rfl
  | unnamed type span =>
    refine .alloc hfits fun id hcell field hheld => ?_
    cases hheld with
    | unnamed htype => exact .mk hcell (.empty Ω) htype rfl
  | named refs type span =>
    refine .bind (.list hfits _)
      fun r => .alloc hfits fun id hcell hslice field hheld => ?_
    cases hheld with
    | named hnames htype => exact .mk hcell (.mk hslice hnames) htype rfl

section Field

variable {field : Field TypeExpr}
  (htype : Stores Ω field.type.store fun id => Ω.HoldsType id field.type)

include htype

/-- The parts of a field are held before the field is made. -/
theorem Field.stores_hold :
    Stores Ω field.hold fun held => Ω.HoldsHeld held field := by
  obtain ⟨names, type, tag, span⟩ := field
  unfold Field.hold
  cases hbare : Field.bare? ⟨names, type, tag, span⟩ with
  | some name =>
    obtain ⟨hnames, hplain⟩ := Field.bare?_eq_some hbare
    dsimp only at hnames hplain
    subst hnames hplain
    exact .bind (name.stores hfits) fun _ => .pure fun hname => .bare hname
  | none =>
    cases names with
    | nil =>
      dsimp only
      rw [List.mapM_nil, pure_bind]
      exact .bind htype fun _ => .pure fun hid => .unnamed hid
    | cons name names =>
      exact .bind (stores_names hfits _)
        fun _ => .bind htype fun _ => .pure fun hid hrefs => .named hrefs hid

/-- A member holds its names, its type and its tag. -/
theorem Field.stores_member :
    Stores Ω field.storeMember
      fun id => Ω.HoldsField (Option.Rel Ω.HoldsString) Ω.HoldsType id field := by
  refine .bind (stores_names hfits _)
    fun refs => .bind (stores_makeNames hfits _ refs)
    fun r => .bind htype fun id => ?_
  refine .bind (.option fun lit _ => lit.stores hfits)
    fun tag' => .alloc hfits fun _ hcell htag hid hr hrefs => ?_
  exact .mk hcell (hr hrefs) hid htag

/-- An element of an interface has no tag. -/
theorem Field.stores_element :
    Stores Ω field.storeElement
      fun id => Ω.HoldsField Untagged Ω.HoldsType id field := by
  refine .bind (stores_names hfits _) fun refs => .bind htype
    fun id => .bind (stores_makeNames hfits _ refs) fun r => ?_
  exact .alloc hfits fun _ hcell hr hid hrefs => .mk hcell (hr hrefs) hid rfl

/-- A receiver is held as a parameter is. -/
theorem Field.stores_receiver :
    Stores Ω field.storeReceiver
      fun id => Ω.HoldsField Untagged Ω.HoldsType id field :=
  .bind (Field.stores_hold hfits htype)
    fun held => (held.stores_settle hfits).mono fun _ hsettle hheld =>
    hsettle field hheld

end Field

/-- Parameters are held in order, although they are made in two rounds. -/
theorem stores_params {params : List (Field TypeExpr)}
    (htypes : ∀ f ∈ params, Stores Ω f.type.store fun id => Ω.HoldsType id f.type) :
    Stores Ω (storeParams params)
      fun ids => List.Forall₂ (Ω.HoldsField Untagged Ω.HoldsType) ids params := by
  refine .bind (.mapM fun f hf => Field.stores_hold hfits (htypes f hf))
    fun held => ?_
  exact (Stores.mapM fun h _ => h.stores_settle hfits).mono
    fun _ hids hheld => forall₂_comp hids hheld

/-- A signature holds its parameters and results, if their types are held. -/
theorem Signature.stores {sig : Signature TypeExpr}
    (htypes : ∀ f ∈ sig.params ++ sig.results,
      Stores Ω f.type.store fun id => Ω.HoldsType id f.type) :
    Stores Ω sig.store fun id => Ω.HoldsSignature Ω.HoldsType id sig := by
  refine .bind (stores_params hfits fun f hf => htypes f (List.mem_append_left _ hf))
    fun params' => ?_
  refine .bind (stores_params hfits fun f hf => htypes f (List.mem_append_right _ hf))
    fun results' => ?_
  refine .bind (.list hfits _) fun _ => .bind (.list hfits _) fun _ => ?_
  exact .alloc hfits fun _ hcell hr hp hresults hparams =>
    .mk hcell (.mk hp hparams) (.mk hr hresults)

/-! ## Types -/

/-- **Every type is held by the node that it was stored as**, however the arena
grows. The induction is on the type. -/
theorem TypeExpr.stores (t : TypeExpr) :
    Stores Ω t.store fun id => Ω.HoldsType id t := by
  induction t using TypeExpr.induction_children with
  | h t ih =>
    cases t with
    | named name => exact (name.stores hfits).mono fun _ hname => .named hname
    | applied span base args =>
      rw [TypeExpr.store, storeTypes_eq]
      refine .bind (base.stores hfits)
        fun _ => .bind (.mapM fun a ha => ih a (List.mem_cons_of_mem _ ha))
        fun _ => ?_
      refine .bind (.list hfits _)
        fun _ => .alloc hfits fun _ hcell hslice hargs hbase => ?_
      exact .applied hcell hbase (.mk hslice hargs)
    | pointer span elem =>
      rw [TypeExpr.store]
      exact .bind (ih elem (List.mem_singleton_self _))
        fun _ => .alloc hfits fun _ hcell helem => .pointer hcell helem
    | array span length elem =>
      rw [TypeExpr.store]
      refine .bind (length.stores hfits)
        fun _ => .bind (ih elem (List.mem_singleton_self _)) fun _ => ?_
      exact .alloc hfits fun _ hcell helem hlength => .array hcell hlength helem
    | slice span elem =>
      rw [TypeExpr.store]
      exact .bind (ih elem (List.mem_singleton_self _))
        fun _ => .alloc hfits fun _ hcell helem => .slice hcell helem
    | map span key value =>
      rw [TypeExpr.store]
      have hvalue := ih value (List.mem_cons_of_mem _ (List.mem_singleton_self _))
      refine .bind (ih key List.mem_cons_self) fun _ => .bind hvalue fun _ => ?_
      exact .alloc hfits fun _ hcell hvalue hkey => .map hcell hkey hvalue
    | chan span dir elem =>
      rw [TypeExpr.store]
      exact .bind (ih elem (List.mem_singleton_self _))
        fun _ => .alloc hfits fun _ hcell helem => .chan hcell helem
    | func span sig =>
      rw [TypeExpr.store_func]
      refine .bind (Signature.stores hfits fun f hf => ih f.type ?_) fun _ => ?_
      · rw [TypeExpr.children, ← List.map_append]
        exact List.mem_map_of_mem hf
      · exact .alloc hfits fun _ hcell hsig => .func hcell hsig
    | struct span fields =>
      rw [TypeExpr.store, storeMembers_eq]
      refine .bind (.mapM fun f hf =>
        Field.stores_member hfits (ih f.type (List.mem_map_of_mem hf))) fun _ => ?_
      exact .bind (.list hfits _) fun _ => .alloc hfits fun _ hcell hslice hids =>
        .struct hcell (.mk hslice hids)
    | interface span elems =>
      rw [TypeExpr.store, storeElements_eq]
      refine .bind (.mapM fun f hf =>
        Field.stores_element hfits (ih f.type (List.mem_map_of_mem hf))) fun _ => ?_
      exact .bind (.list hfits _) fun _ => .alloc hfits fun _ hcell hslice hids =>
        .interface hcell (.mk hslice hids)
    | variadic span elem =>
      rw [TypeExpr.store]
      exact .bind (ih elem (List.mem_singleton_self _))
        fun _ => .alloc hfits fun _ hcell helem => .variadic hcell helem
    | paren span elem =>
      rw [TypeExpr.store]
      exact .bind (ih elem (List.mem_singleton_self _))
        fun _ => .alloc hfits fun _ hcell helem => .paren hcell helem
    | union span terms =>
      have hterm : ∀ term ∈ terms,
          Stores Ω term.store fun item => HoldsTerm Ω.HoldsType item term := by
        intro term hmem
        exact .bind (ih term.type (List.mem_map_of_mem hmem))
          fun _ => .pure fun htype => .mk htype
      rw [TypeExpr.store, storeTerms_eq]
      refine .bind (.mapM hterm) fun items => .bind (.list hfits items)
        fun _ => .alloc hfits fun _ hcell hslice hitems => ?_
      exact .union hcell (.mk (by rwa [List.map_id']) hitems)

/-! ## Files -/

theorem stores_typeParams (params : List (Field TypeExpr)) :
    Stores Ω (storeTypeParams params) fun r => Ω.HoldsFields r params := by
  cases params with
  | nil => exact .pure (.empty Ω)
  | cons param params =>
    refine .bind (.mapM fun f _ => Field.stores_element hfits (f.type.stores hfits))
      fun _ => ?_
    exact (Stores.list hfits _).mono fun _ hslice hids => .mk hslice hids

/-- An import holds its name and path. -/
theorem ImportSpec.stores (spec : ImportSpec) :
    Stores Ω spec.store fun ref => Ω.HoldsImport ref spec := by
  refine .bind (.option fun name _ => name.stores hfits)
    fun _ => .bind (spec.path.stores hfits) fun _ => ?_
  exact .pure fun hpath hname => .mk hname hpath

/-- A value declaration holds its names and its type. -/
theorem ValueSpec.stores (spec : ValueSpec) :
    Stores Ω spec.store fun ref => Ω.HoldsValues ref spec := by
  refine .bind (stores_names hfits _)
    fun refs => .bind (stores_makeNames hfits _ refs) fun _ => ?_
  refine .bind (.option fun type _ => type.stores hfits)
    fun _ => .pure fun htype hnames hrefs => ?_
  exact .mk (hnames hrefs) htype

/-- A type declaration holds its name, its type parameters and its type. -/
theorem TypeSpec.stores (spec : TypeSpec) :
    Stores Ω spec.store fun ref => Ω.HoldsTypeSpec ref spec := by
  refine .bind (spec.name.stores hfits)
    fun _ => .bind (stores_typeParams hfits _) fun _ => ?_
  exact .bind (spec.type.stores hfits)
    fun _ => .pure fun htype hparams hname => .mk hname hparams htype

/-- A group holds its specs in order. -/
theorem Group.stores {σ : Type} {kind : GroupKind} {s : σ →
    Store hash SpecNode} {R : SpecNode → σ → Prop}
    (hspec : ∀ spec, Stores Ω (s spec) fun ref => R ref spec) (group : Group σ) :
    Stores Ω (group.store kind s) fun id => Ω.HoldsGroup kind R id group := by
  refine .bind (.mapM fun spec _ => hspec spec)
    fun _ => .bind (.list hfits _) fun _ => ?_
  exact .alloc hfits fun _ hcell hslice hspecs => .mk hcell (.mk hslice hspecs)

/-- A function holds its receiver, name, type parameters and signature. -/
theorem FuncDecl.stores (decl : FuncDecl) :
    Stores Ω decl.store fun id => Ω.HoldsDecl id (.func decl) := by
  refine .bind (.option fun f _ => Field.stores_receiver hfits (f.type.stores hfits))
    fun _ => ?_
  refine .bind (decl.name.stores hfits)
    fun _ => .bind (stores_typeParams hfits _) fun _ => ?_
  refine .bind (Signature.stores hfits fun f _ => f.type.stores hfits) fun _ => ?_
  exact .alloc hfits fun _ hcell hsig hparams hname hreceiver =>
    .func hcell hreceiver hname hparams hsig

/-- **Every declaration is held by the node that it was stored as.** -/
theorem Decl.stores (decl : Decl) :
    Stores Ω decl.store fun id => Ω.HoldsDecl id decl := by
  cases decl with
  | imports group =>
    exact (group.stores hfits (ImportSpec.stores hfits)).mono
      fun _ hgroup => .imports hgroup
  | consts group =>
    exact (group.stores hfits (ValueSpec.stores hfits)).mono
      fun _ hgroup => .consts hgroup
  | vars group =>
    exact (group.stores hfits (ValueSpec.stores hfits)).mono
      fun _ hgroup => .vars hgroup
  | types group =>
    exact (group.stores hfits (TypeSpec.stores hfits)).mono
      fun _ hgroup => .types hgroup
  | func decl => exact decl.stores hfits

/-- **An arena that a file is put into holds the file.** -/
theorem SourceFile.stores (file : SourceFile) :
    Stores Ω file.store fun stored => Ω.HoldsFile stored file := by
  refine .bind (file.package.stores hfits)
    fun _ => .bind (.mapM fun decl _ => decl.stores hfits) fun _ => ?_
  exact .bind (.list hfits _)
    fun _ => .pure fun hslice hdecls hpackage => ⟨hpackage, .mk hslice hdecls⟩

end Fields

end GoInventory
