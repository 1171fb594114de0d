import GoInventory.Proofs.Arena.Basic

/-!
# Putting trees into an arena

A type is put into an arena from the inside out: first what it is made of, then
the lists that hold it together, then the node itself. So a node is always
behind those below it.

Parameters are the exception. Whether `a` is the name of a parameter or of
a type is known only at the end of the list, so all that the entries are
made of is put into the arena first (`Field.hold`), and the fields are made
in a second round (`HeldField.settle`). A type that is a name on its own is
made there as well.
-/

namespace GoInventory

open Arena

variable {hash : String → UInt64}

/-- Put an identifier into the arena. -/
def Ident.store (name : Ident) : Store hash IdentRef := do
  let symbol ← intern name.name
  pure ⟨symbol, name.span⟩

/-- Put a string literal into the arena. -/
def StringLit.store (lit : StringLit) : Store hash StringRef := do
  let symbol ← intern lit.text
  pure ⟨lit.kind, symbol, lit.span⟩

/-- Put a part into the arena, if it is there. -/
def storeOption {α β : Type} (store : α → Store hash β) :
    Option α → Store hash (Option β)
  | none => pure none
  | some a => do
    let b ← store a
    pure (some b)

/-- Make the list of names from what they go by. If there are none, it
belongs to no place. -/
def makeNames (names : List Ident) (refs : List IdentRef) :
    Store hash (ListRef .nameItem) :=
  if names.isEmpty then pure .empty else list (refs.map .nameItem)

theorem makeNames_nil (refs : List IdentRef) :
    (makeNames [] refs : Store hash _) = pure .empty := rfl

theorem makeNames_cons (name : Ident) (names : List Ident) (refs : List IdentRef) :
    (makeNames (name :: names) refs : Store hash _) = list (refs.map .nameItem) := rfl

/-- Put the name of a type into the arena. -/
def TypeName.store : TypeName → Store hash (NodeId .type)
  | plain name => do
    let name' ← name.store
    alloc (.type (.plain name') name.span)
  | qualified span pkg name => do
    let pkg' ← pkg.store
    let name' ← name.store
    alloc (.type (.qualified pkg' name') span)

/-- Put an array length into the arena. -/
def LengthExpr.store : LengthExpr → Store hash (NodeId .length)
  | ident name => do
    let name' ← name.store
    alloc (.length (.ident name') name.span)
  | selector span pkg sel => do
    let pkg' ← pkg.store
    let sel' ← sel.store
    alloc (.length (.selector pkg' sel') span)
  | literal span kind text => do
    let symbol ← intern text
    alloc (.length (.literal kind symbol) span)
  | other span => alloc (.length .other span)

/-- Put what stands between the brackets of an array type into the arena. -/
def ArrayLength.store : ArrayLength → Store hash LengthRef
  | expr length => do
    let id ← length.store
    pure (.expr id)
  | ellipsis => pure .ellipsis

/-- The parts of a parameter whose field is still to be made. -/
inductive HeldField where
  /-- A name on its own, which is the name of a type. -/
  | bare (name : IdentRef) (span : Span)
  | unnamed (type : NodeId .type) (span : Span)
  | named (names : List IdentRef) (type : NodeId .type) (span : Span)

/-- The name of the type, if the parameter is nothing but that. -/
def Field.bare? (field : Field TypeExpr) : Option Ident :=
  match field.names, field.type with
  | [], .named (.plain name) => some name
  | _, _ => none

theorem Field.bare?_eq_some {field : Field TypeExpr} {name : Ident}
    (h : field.bare? = some name) :
    field.names = [] ∧ field.type = .named (.plain name) := by
  unfold bare? at h
  split at h
  next name' hnames htype =>
    cases h
    exact ⟨hnames, htype⟩
  next => cases h

/-- Make the field of a parameter. -/
def HeldField.settle : HeldField → Store hash (NodeId .field)
  | bare name span => do
    let type ← alloc (.type (.plain name) name.span)
    alloc (.field ⟨.empty, type, none⟩ span)
  | unnamed type span => alloc (.field ⟨.empty, type, none⟩ span)
  | named names type span => do
    let names' ← list (names.map .nameItem)
    alloc (.field ⟨names', type, none⟩ span)

/-- Make the fields of parameters, and then of results, and their signature. -/
def makeSignature (params results : List (NodeId .field)) (span : Span) :
    Store hash (NodeId .signature) := do
  let params' ← list (params.map .fieldItem)
  let results' ← list (results.map .fieldItem)
  alloc (.signature params' results' span)

mutual

/-- Put a type into the arena. -/
def TypeExpr.store : TypeExpr → Store hash (NodeId .type)
  | .named name => name.store
  | .applied span base args => do
    let base' ← base.store
    let args' ← storeTypes args
    let r ← list (args'.map .typeItem)
    alloc (.type (.applied base' r) span)
  | .pointer span elem => do
    let elem' ← elem.store
    alloc (.type (.pointer elem') span)
  | .array span length elem => do
    let length' ← length.store
    let elem' ← elem.store
    alloc (.type (.array length' elem') span)
  | .slice span elem => do
    let elem' ← elem.store
    alloc (.type (.slice elem') span)
  | .map span key value => do
    let key' ← key.store
    let value' ← value.store
    alloc (.type (.map key' value') span)
  | .chan span dir elem => do
    let elem' ← elem.store
    alloc (.type (.chan dir elem') span)
  | .func span ⟨params, results, sigSpan⟩ => do
    let heldParams ← holdFields params
    let params' ← heldParams.mapM HeldField.settle
    let heldResults ← holdFields results
    let results' ← heldResults.mapM HeldField.settle
    let signature ← makeSignature params' results' sigSpan
    alloc (.type (.func signature) span)
  | .struct span fields => do
    let fields' ← storeMembers fields
    let r ← list (fields'.map .fieldItem)
    alloc (.type (.struct r) span)
  | .interface span elems => do
    let elems' ← storeElements elems
    let r ← list (elems'.map .fieldItem)
    alloc (.type (.interface r) span)
  | .variadic span elem => do
    let elem' ← elem.store
    alloc (.type (.variadic elem') span)
  | .paren span elem => do
    let elem' ← elem.store
    alloc (.type (.paren elem') span)
  | .union span terms => do
    let terms' ← storeTerms terms
    let r ← list terms'
    alloc (.type (.union r) span)

/-- Put types into the arena, one after the other. -/
def storeTypes : List TypeExpr → Store hash (List (NodeId .type))
  | [] => pure []
  | type :: rest => do
    let first ← type.store
    let others ← storeTypes rest
    pure (first :: others)

/-- Put the parts of parameters into the arena. -/
def holdFields : List (Field TypeExpr) → Store hash (List HeldField)
  | [] => pure []
  | ⟨names, type, tag, span⟩ :: rest => do
    let first ← match Field.bare? ⟨names, type, tag, span⟩ with
      | some name => do
        let name' ← name.store
        pure (HeldField.bare name' span)
      | none => do
        let names' ← names.mapM Ident.store
        let type' ← type.store
        pure (if names.isEmpty then HeldField.unnamed type' span
          else HeldField.named names' type' span)
    let others ← holdFields rest
    pure (first :: others)

/-- Put the members of a struct into the arena. -/
def storeMembers : List (Field TypeExpr) → Store hash (List (NodeId .field))
  | [] => pure []
  | ⟨names, type, tag, span⟩ :: rest => do
    let names' ← names.mapM Ident.store
    let r ← makeNames names names'
    let type' ← type.store
    let tag' ← storeOption StringLit.store tag
    let first ← alloc (.field ⟨r, type', tag'⟩ span)
    let others ← storeMembers rest
    pure (first :: others)

/-- Put the elements of an interface into the arena. -/
def storeElements : List (Field TypeExpr) → Store hash (List (NodeId .field))
  | [] => pure []
  | ⟨names, type, _, span⟩ :: rest => do
    let names' ← names.mapM Ident.store
    let type' ← type.store
    let r ← makeNames names names'
    let first ← alloc (.field ⟨r, type', none⟩ span)
    let others ← storeElements rest
    pure (first :: others)

/-- Put the terms of a constraint into the arena. -/
def storeTerms : List (Term TypeExpr) → Store hash (List (Cell .termItem))
  | [] => pure []
  | ⟨tilde, type⟩ :: rest => do
    let type' ← type.store
    let others ← storeTerms rest
    pure (.termItem tilde type' :: others)

end

namespace Field

variable (field : Field TypeExpr)

/-- Put the parts of a parameter into the arena. -/
def hold : Store hash HeldField :=
  match field.bare? with
  | some name => do
    let name' ← name.store
    pure (.bare name' field.span)
  | none => do
    let names' ← field.names.mapM Ident.store
    let type' ← field.type.store
    pure (if field.names.isEmpty then .unnamed type' field.span
      else .named names' type' field.span)

/-- Put a member of a struct into the arena. -/
def storeMember : Store hash (NodeId .field) := do
  let names' ← field.names.mapM Ident.store
  let r ← makeNames field.names names'
  let type' ← field.type.store
  let tag' ← storeOption StringLit.store field.tag
  alloc (.field ⟨r, type', tag'⟩ field.span)

/-- Put an element of an interface or a group of type parameters into the arena. -/
def storeElement : Store hash (NodeId .field) := do
  let names' ← field.names.mapM Ident.store
  let type' ← field.type.store
  let r ← makeNames field.names names'
  alloc (.field ⟨r, type', none⟩ field.span)

end Field

/-- Put a term of a constraint into the arena. -/
def Term.store (term : Term TypeExpr) : Store hash (Cell .termItem) := do
  let type' ← term.type.store
  pure (.termItem term.tilde type')

/-- Put parameters into the arena: first their parts, then their fields. -/
def storeParams (params : List (Field TypeExpr)) :
    Store hash (List (NodeId .field)) := do
  let held ← params.mapM Field.hold
  held.mapM HeldField.settle

/-- Put parameters and results into the arena. -/
def Signature.store (sig : Signature TypeExpr) : Store hash (NodeId .signature) := do
  let params' ← storeParams sig.params
  let results' ← storeParams sig.results
  makeSignature params' results' sig.span

/-! ## Lists are stored item by item -/

theorem storeTypes_eq (types : List TypeExpr) :
    (storeTypes types : Store hash _) = types.mapM TypeExpr.store := by
  induction types with
  | nil => rfl
  | cons type rest ih => rw [storeTypes, List.mapM_cons, ih]

theorem holdFields_eq (fields : List (Field TypeExpr)) :
    (holdFields fields : Store hash _) = fields.mapM Field.hold := by
  induction fields with
  | nil => rfl
  | cons field rest ih =>
    obtain ⟨names, type, tag, span⟩ := field
    rw [holdFields, List.mapM_cons, ih]
    unfold Field.hold
    dsimp only
    cases Field.bare? ⟨names, type, tag, span⟩ <;> rfl

theorem storeMembers_eq (fields : List (Field TypeExpr)) :
    (storeMembers fields : Store hash _) = fields.mapM Field.storeMember := by
  induction fields with
  | nil => rfl
  | cons field rest ih =>
    rw [storeMembers, List.mapM_cons, ih]
    rfl

theorem storeElements_eq (elems : List (Field TypeExpr)) :
    (storeElements elems : Store hash _) = elems.mapM Field.storeElement := by
  induction elems with
  | nil => rfl
  | cons elem rest ih =>
    rw [storeElements, List.mapM_cons, ih]
    rfl

theorem storeTerms_eq (terms : List (Term TypeExpr)) :
    (storeTerms terms : Store hash _) = terms.mapM Term.store := by
  induction terms with
  | nil => rfl
  | cons term rest ih =>
    rw [storeTerms, List.mapM_cons, ih]
    rfl

theorem TypeExpr.store_func (span : Span) (sig : Signature TypeExpr) :
    ((TypeExpr.func span sig).store : Store hash _)
      = sig.store >>= fun signature => alloc (.type (.func signature) span) := by
  obtain ⟨params, results, sigSpan⟩ := sig
  rw [TypeExpr.store, holdFields_eq, holdFields_eq]
  rfl

/-! ## Files -/

/-- Put type parameters into the arena. If there are none, their list
belongs to no place. -/
def storeTypeParams : List (Field TypeExpr) → Store hash (ListRef .fieldItem)
  | [] => pure .empty
  | params => do
    let params' ← params.mapM Field.storeElement
    list (params'.map .fieldItem)

/-- Put an import into the arena. -/
def ImportSpec.store (spec : ImportSpec) : Store hash SpecNode := do
  let name' ← storeOption Ident.store spec.name
  let path' ← spec.path.store
  pure (.imports name' path')

/-- Put constants or variables into the arena. -/
def ValueSpec.store (spec : ValueSpec) : Store hash SpecNode := do
  let names' ← spec.names.mapM Ident.store
  let r ← makeNames spec.names names'
  let type' ← storeOption TypeExpr.store spec.type
  pure (.values r type' spec.values)

/-- Put a type definition into the arena. -/
def TypeSpec.store (spec : TypeSpec) : Store hash SpecNode := do
  let name' ← spec.name.store
  let params' ← storeTypeParams spec.typeParams
  let type' ← spec.type.store
  pure (.type name' params' spec.isAlias type')

/-- Put a declaration of specs into the arena. -/
def Group.store {σ : Type} (kind : GroupKind) (store : σ → Store hash SpecNode)
    (group : Group σ) : Store hash (NodeId .decl) := do
  let specs' ← group.specs.mapM store
  let r ← list (specs'.map .specItem)
  alloc (.decl (.group kind r group.grouped) group.span)

/-- Put a receiver into the arena. It is a list of one parameter. -/
def Field.storeReceiver (field : Field TypeExpr) : Store hash (NodeId .field) := do
  let held ← field.hold
  held.settle

/-- Put a function into the arena. -/
def FuncDecl.store (decl : FuncDecl) : Store hash (NodeId .decl) := do
  let receiver' ← storeOption Field.storeReceiver decl.receiver
  let name' ← decl.name.store
  let params' ← storeTypeParams decl.typeParams
  let signature' ← decl.signature.store
  alloc (.decl (.func receiver' name' params' signature' decl.body) decl.span)

/-- Put a declaration into the arena. -/
def Decl.store : Decl → Store hash (NodeId .decl)
  | imports group => group.store .imports ImportSpec.store
  | consts group => group.store .consts ValueSpec.store
  | vars group => group.store .vars ValueSpec.store
  | types group => group.store .types TypeSpec.store
  | func decl => decl.store

/-- Put a file into the arena. -/
def SourceFile.store (file : SourceFile) : Store hash StoredFile := do
  let package' ← file.package.store
  let decls' ← file.decls.mapM Decl.store
  let r ← list (decls'.map .declItem)
  pure ⟨package', r⟩

end GoInventory
