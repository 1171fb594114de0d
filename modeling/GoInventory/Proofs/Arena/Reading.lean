import GoInventory.Member
import GoInventory.Proofs.Arena.Holds
import GoInventory.TypeText
import Mathlib.Data.List.Forall2

/-!
# Reading an arena

Whoever reads an arena follows links, and each of them may lead nowhere. So a
reader gives what it has read, or says why it stopped (`Interrupt`): a number
was out of range, or there were too many rounds of one type in another. The last
reason is no accident: some types have no text.

The declarations of a file and the members of a type are read here. In an arena
that holds a file nothing can go wrong with them, and what they give stands for
the declarations and members of the file (`Arena.declarations_of_holds`,
`Arena.projectFields_of_holds`).
-/

namespace GoInventory

/-- Why reading an arena stops. -/
inductive Interrupt where
  | outOfRange
  | outOfRounds
  | unsupported (e : UnsupportedType)
deriving DecidableEq, Repr

/-- The members of a declared type, if it is a struct or an interface. -/
inductive UnderlyingRef where
  | struct (fields : ListRef .fieldItem)
  | interface (elems : ListRef .fieldItem)
  | other
deriving DecidableEq, Repr

/-- A declaration, read from an arena. -/
inductive DeclarationRef where
  | function (name : String) (hasReceiver : Bool)
  | value (kind : ValueKind) (names : List String)
  | type (name : String) (underlying : UnderlyingRef)
deriving DecidableEq, Repr

/-- A named member of a struct or interface, read from an arena. -/
structure MemberRef where
  name : String
  type? : Option (NodeId .type)
  rawTag : String
deriving DecidableEq, Repr

/-! ## What a cell is -/

namespace Cell

def name : Cell .nameItem → IdentRef
  | nameItem name => name

def declId : Cell .declItem → NodeId .decl
  | declItem id => id

def fieldId : Cell .fieldItem → NodeId .field
  | fieldItem id => id

def typeId : Cell .typeItem → NodeId .type
  | typeItem id => id

def fieldNode : Cell .field → FieldNode
  | field node _ => node

end Cell

namespace Arena

variable {hash : String → UInt64} {k : CellKind} {α β γ : Type} (A : Arena hash)

/-! ## Looking up -/

/-- What was found, if anything was. -/
def found : Option α → Except Interrupt α
  | some a => .ok a
  | none => .error .outOfRange

def node (id : NodeId k) : Except Interrupt (Cell k) := found (A.cell? id)

def items (r : ListRef k) : Except Interrupt (List (Cell k)) := found (A.slice? r)

def text (symbol : UInt32) : Except Interrupt String := found (A.text? symbol)

/-- The names in a list. -/
def names (r : ListRef .nameItem) : Except Interrupt (List String) := do
  let items ← A.items r
  items.mapM fun item => A.text item.name.symbol

/-- The fields in a list. -/
def fieldIds (r : ListRef .fieldItem) : Except Interrupt (List (NodeId .field)) := do
  let items ← A.items r
  pure (items.map Cell.fieldId)

/-! ## Declarations -/

/-- A declared type. -/
def typeDeclaration (name : IdentRef) (type : NodeId .type) :
    Except Interrupt DeclarationRef := do
  let cell ← A.node type
  let text ← A.text name.symbol
  match cell with
  | .type (.struct fields) _ => pure (.type text (.struct fields))
  | .type (.interface elems) _ => pure (.type text (.interface elems))
  | .type _ _ => pure (.type text .other)

/-- The type that a spec declares. -/
def typeOfSpec : Cell .specItem → Except Interrupt (List DeclarationRef)
  | .specItem (.type name _ _ type) => do
    let declaration ← A.typeDeclaration name type
    pure [declaration]
  | .specItem _ => pure []

/-- The names that a spec gives to values. -/
def namesOfSpec : Cell .specItem → Except Interrupt (List String)
  | .specItem (.values names _ _) => A.names names
  | .specItem _ => pure []

/-- The constants or variables of a group, unless it has no names. -/
def valueDeclarations (kind : ValueKind) (specs : ListRef .specItem) :
    Except Interrupt (List DeclarationRef) := do
  let items ← A.items specs
  let names ← items.mapM A.namesOfSpec
  pure (if names.flatten.isEmpty then [] else [.value kind names.flatten])

/-- What a top-level declaration declares. -/
def declarationsOf (id : NodeId .decl) : Except Interrupt (List DeclarationRef) := do
  let cell ← A.node id
  match cell with
  | .decl (.func receiver name _ _ _) _ => do
    let text ← A.text name.symbol
    pure [.function text receiver.isSome]
  | .decl (.group .imports _ _) _ => pure []
  | .decl (.group .consts specs _) _ => A.valueDeclarations .const specs
  | .decl (.group .vars specs _) _ => A.valueDeclarations .var specs
  | .decl (.group .types specs _) _ => do
    let items ← A.items specs
    let declarations ← items.mapM A.typeOfSpec
    pure declarations.flatten

/-- What a file declares. -/
def declarations (file : StoredFile) : Except Interrupt (List DeclarationRef) := do
  let items ← A.items file.decls
  let declarations ← items.mapM fun item => A.declarationsOf item.declId
  pure declarations.flatten

/-! ## Members -/

/-- The content of a tag that may be missing. -/
def rawTag : Option StringRef → Except Interrupt String
  | none => pure ""
  | some ref => do
    let text ← A.text ref.symbol
    pure (StringLit.tagText ⟨ref.kind, text, ref.span⟩)

/-- The members that a field of a struct declares. -/
def membersOfField (id : NodeId .field) : Except Interrupt (List MemberRef) := do
  let cell ← A.node id
  let tag ← A.rawTag cell.fieldNode.tag
  let names ← A.names cell.fieldNode.names
  pure (names.map fun name => ⟨name, some cell.fieldNode.type, tag⟩)

/-- The members that an element of an interface declares. -/
def membersOfElement (id : NodeId .field) : Except Interrupt (List MemberRef) := do
  let cell ← A.node id
  let names ← A.names cell.fieldNode.names
  pure (names.map fun name => ⟨name, none, ""⟩)

/-- The members of a type. -/
def membersOf : UnderlyingRef → Except Interrupt (List MemberRef)
  | .struct fields => do
    let ids ← A.fieldIds fields
    let members ← ids.mapM A.membersOfField
    pure members.flatten
  | .interface elems => do
    let ids ← A.fieldIds elems
    let members ← ids.mapM A.membersOfElement
    pure members.flatten
  | .other => pure []

/-- The members of the declaration, if it is a type of this name. -/
def projectFields (typeName : String) :
    DeclarationRef → Except Interrupt (List MemberRef)
  | .type name underlying =>
    if name == typeName then A.membersOf underlying else pure []
  | _ => pure []

/-! ## What the results stand for -/

/-- The members of a declared type. -/
inductive HoldsUnderlying : UnderlyingRef → Underlying → Prop
  | struct {r : ListRef .fieldItem} {fields : List (Field TypeExpr)} :
    A.HoldsList .fieldItem (A.HoldsField (Option.Rel A.HoldsString) A.HoldsType)
      r fields →
    HoldsUnderlying (.struct r) (.struct fields)
  | interface {r : ListRef .fieldItem} {elems : List (Field TypeExpr)} :
      A.HoldsFields r elems →
    HoldsUnderlying (.interface r) (.interface elems)
  | other : HoldsUnderlying .other .other

/-- A declaration. -/
inductive HoldsDeclaration : DeclarationRef → Declaration → Prop
  | function (name : String) (hasReceiver : Bool) :
      HoldsDeclaration (.function name hasReceiver) (.function name hasReceiver)
  | value (kind : ValueKind) (names : List String) :
      HoldsDeclaration (.value kind names) (.value kind names)
  | type {name : String} {r : UnderlyingRef} {underlying : Underlying} :
      A.HoldsUnderlying r underlying →
    HoldsDeclaration (.type name r) (.type name underlying)

/-- A member. -/
structure HoldsMember (ref : MemberRef) (member : Member) : Prop where
  name : ref.name = member.name
  type : Option.Rel A.HoldsType ref.type? member.type?
  rawTag : ref.rawTag = member.rawTag

variable {A}

/-! ## Reading what is held -/

theorem node_of_cell {id : NodeId k} {cell : Cell k} (h : A.cell? id = some cell) :
    A.node id = .ok cell := by
  unfold node
  rw [h]
  rfl

theorem items_of_slice {r : ListRef k} {items : List (Cell k)}
    (h : A.slice? r = some items) : A.items r = .ok items := by
  unfold Arena.items
  rw [h]
  rfl

theorem text_of_holds {ref : IdentRef} {name : Ident} (h : A.HoldsIdent ref name) :
    A.text ref.symbol = .ok name.name := by
  unfold text
  rw [h.text]
  rfl

/-- If each item can be read, so can the list. -/
theorem mapM_of_forall₂ {f : β → Except Interrupt γ} {R : β → α → Prop}
    {Q : γ → α → Prop} {bs : List β} {as : List α} (h : List.Forall₂ R bs as)
    (hread : ∀ b a, R b a → ∃ c, f b = .ok c ∧ Q c a) :
    ∃ cs, bs.mapM f = .ok cs ∧ List.Forall₂ Q cs as := by
  induction h with
  | nil => exact ⟨[], rfl, .nil⟩
  | cons hab _ ih =>
    obtain ⟨c, hc, hq⟩ := hread _ _ hab
    obtain ⟨cs, hcs, hqs⟩ := ih
    refine ⟨c :: cs, ?_, .cons hq hqs⟩
    rw [List.mapM_cons, hc, hcs]
    rfl

theorem eq_map_of_forall₂ {g : α → γ} {cs : List γ} {as : List α}
    (h : List.Forall₂ (fun c a => c = g a) cs as) :
    cs = as.map g := by
  rw [← List.forall₂_eq_eq_eq]
  exact List.forall₂_map_right_iff.mpr h

/-- What stands for lists, one after the other, stands for all of it. -/
theorem forall₂_flatten {P : γ → β → Prop} {g : α → List β} {css : List (List γ)}
    {as : List α} (h : List.Forall₂ (fun cs a => List.Forall₂ P cs (g a)) css as) :
    List.Forall₂ P css.flatten (as.flatMap g) :=
  List.rel_flatten (List.forall₂_map_right_iff.mpr h)

/-- A list that is held can be read item by item. -/
theorem items_of_holds {cell : β → Cell k} {R : β → α → Prop} {Q : γ → α → Prop}
    {r : ListRef k} {as : List α} {f : Cell k → Except Interrupt γ}
    (h : A.HoldsList cell R r as)
    (hread : ∀ b a, R b a → ∃ c, f (cell b) = .ok c ∧ Q c a) :
    ∃ cs, (A.items r >>= fun items => items.mapM f) = .ok cs ∧
      List.Forall₂ Q cs as := by
  cases h with
  | @mk start len refs as hslice hrefs =>
    obtain ⟨cs, hcs, hqs⟩ := mapM_of_forall₂ hrefs hread
    refine ⟨cs, ?_, hqs⟩
    rw [items_of_slice hslice]
    show (refs.map cell).mapM f = .ok cs
    rw [List.mapM_map]
    exact hcs

theorem names_of_holds {r : ListRef .nameItem} {names : List Ident}
    (h : A.HoldsNames r names) : A.names r = .ok (names.map (·.name)) := by
  obtain ⟨texts, htexts, heq⟩ :=
    items_of_holds (f := fun item => A.text item.name.symbol)
    (Q := fun text (name : Ident) => text = name.name) h
      fun ref name hname => ⟨name.name, text_of_holds hname, rfl⟩
  rw [← eq_map_of_forall₂ heq]
  exact htexts

theorem fieldIds_of_holds {R : NodeId .field → Field TypeExpr → Prop}
    {Q : γ → Field TypeExpr → Prop} {r : ListRef .fieldItem}
    {fields : List (Field TypeExpr)} {f : NodeId .field → Except Interrupt γ}
    (h : A.HoldsList .fieldItem R r fields)
    (hread : ∀ id field, R id field → ∃ c, f id = .ok c ∧ Q c field) :
    ∃ cs, (A.fieldIds r >>= fun ids => ids.mapM f) = .ok cs ∧
      List.Forall₂ Q cs fields := by
  obtain ⟨cs, hcs, hqs⟩ := items_of_holds (f := fun item => f item.fieldId) h hread
  refine ⟨cs, ?_, hqs⟩
  rw [← hcs]
  unfold fieldIds
  rw [bind_assoc]
  simp only [pure_bind, List.mapM_map]
  rfl

/-! ## Declarations -/

theorem typeDeclaration_of_holds {name : IdentRef} {id : NodeId .type}
    {spec : TypeSpec} (hname : A.HoldsIdent name spec.name)
    (htype : A.HoldsType id spec.type) :
    ∃ ref, A.typeDeclaration name id = .ok ref ∧
      A.HoldsDeclaration ref (.ofTypeSpec spec) := by
  unfold typeDeclaration Declaration.ofTypeSpec
  generalize spec.type = type at htype
  rw [text_of_holds hname]
  cases htype with
  | struct hcell hfields =>
    rw [node_of_cell hcell]
    exact ⟨_, rfl, .type (.struct hfields)⟩
  | interface hcell helems =>
    rw [node_of_cell hcell]
    exact ⟨_, rfl, .type (.interface helems)⟩
  | named hname' =>
    cases hname' with
    | plain hcell | qualified hcell =>
      rw [node_of_cell hcell]
      exact ⟨_, rfl, .type .other⟩
  | applied hcell | pointer hcell | array hcell | slice hcell | map hcell | chan hcell
      | func hcell | variadic hcell
  | paren hcell | union hcell =>
    rw [node_of_cell hcell]
    exact ⟨_, rfl, .type .other⟩

theorem valueDeclarations_of_holds {kind : ValueKind} {r : ListRef .specItem}
    {group : Group ValueSpec} (h : A.HoldsList .specItem A.HoldsValues r group.specs) :
    ∃ refs, A.valueDeclarations kind r = .ok refs ∧
      List.Forall₂ A.HoldsDeclaration refs (Declaration.ofValues kind group) := by
  obtain ⟨names, hnames, heq⟩ := items_of_holds (f := A.namesOfSpec)
    (Q := fun texts (spec : ValueSpec) => texts = spec.names.map (·.name)) h
      fun ref spec hspec => by
      cases hspec with
      | mk hrefs => exact ⟨_, names_of_holds hrefs, rfl⟩
  have hflat : names.flatten
      = group.specs.flatMap fun spec => spec.names.map (·.name) :=
    congrArg List.flatten (eq_map_of_forall₂ heq)
  unfold valueDeclarations Declaration.ofValues
  rw [← bind_assoc, hnames, ← hflat]
  refine ⟨_, rfl, ?_⟩
  dsimp only
  split
  · exact .nil
  · exact .cons (.value kind _) .nil

theorem declarationsOf_of_holds {id : NodeId .decl} {decl : Decl}
    (h : A.HoldsDecl id decl) :
    ∃ refs, A.declarationsOf id = .ok refs ∧
      List.Forall₂ A.HoldsDeclaration refs decl.declarations := by
  unfold declarationsOf
  cases h with
  | imports hgroup =>
    cases hgroup with
    | mk hcell =>
      rw [node_of_cell hcell]
      exact ⟨[], rfl, .nil⟩
  | consts hgroup =>
    cases hgroup with
    | mk hcell hspecs =>
      rw [node_of_cell hcell]
      exact valueDeclarations_of_holds hspecs
  | vars hgroup =>
    cases hgroup with
    | mk hcell hspecs =>
      rw [node_of_cell hcell]
      exact valueDeclarations_of_holds hspecs
  | types hgroup =>
    cases hgroup with
    | @mk specs _ hcell hspecs =>
      have hread : ∀ ref spec, A.HoldsTypeSpec ref spec →
          ∃ refs, A.typeOfSpec (.specItem ref) = .ok refs ∧
            List.Forall₂ A.HoldsDeclaration refs [Declaration.ofTypeSpec spec] := by
        intro ref spec hspec
        cases hspec with
        | mk hname _ htype =>
          obtain ⟨declaration, hdeclaration, hholds⟩ :=
            typeDeclaration_of_holds hname htype
          unfold typeOfSpec
          dsimp only
          rw [hdeclaration]
          exact ⟨_, rfl, .cons hholds .nil⟩
      obtain ⟨lists, hlists, hholds⟩ := items_of_holds hspecs hread
      rw [node_of_cell hcell]
      refine ⟨lists.flatten, ?_, ?_⟩
      · show (A.items specs >>= fun items =>
          items.mapM A.typeOfSpec >>= fun ds => pure ds.flatten) = _
        rw [← bind_assoc, hlists]
        rfl
      · have hflat := forall₂_flatten hholds
        rwa [← List.map_eq_flatMap] at hflat
  | @func receiver name params sig decl hcell hreceiver hname =>
    -- of the receiver only that there is one is read
    have hsome : receiver.isSome = decl.receiver.isSome := by
      generalize decl.receiver = field at hreceiver
      cases hreceiver <;> rfl
    rw [node_of_cell hcell]
    show ∃ refs, (A.text name.symbol >>= fun text =>
      pure [DeclarationRef.function text receiver.isSome]) = .ok refs ∧ _
    rw [text_of_holds hname, hsome]
    exact ⟨_, rfl, .cons (.function _ _) .nil⟩

/-- **The declarations of a file that is held can be read**, and stand for
those of the file. -/
theorem declarations_of_holds {stored : StoredFile} {file : SourceFile}
    (h : A.HoldsFile stored file) :
    ∃ refs, A.declarations stored = .ok refs ∧
      List.Forall₂ A.HoldsDeclaration refs file.declarations := by
  obtain ⟨lists, hlists, hholds⟩ :=
    items_of_holds (f := fun item => A.declarationsOf item.declId) h.decls
    fun id decl hdecl => declarationsOf_of_holds hdecl
  refine ⟨lists.flatten, ?_, forall₂_flatten hholds⟩
  unfold declarations
  rw [← bind_assoc, hlists]
  rfl

/-! ## Members -/

theorem membersOfField_of_holds {id : NodeId .field} {field : Field TypeExpr}
    (h : A.HoldsField (Option.Rel A.HoldsString) A.HoldsType id field) :
    ∃ refs, A.membersOfField id = .ok refs ∧
      List.Forall₂ A.HoldsMember refs (Member.ofField field) := by
  cases h with
  | @mk raw names type tag field hcell hnames htype htag =>
    have hraw : A.rawTag tag = .ok (tagText field.tag) := by
      generalize field.tag = tag' at htag
      cases htag with
      | none => rfl
      | @some ref lit hlit =>
        unfold rawTag text
        dsimp only
        rw [hlit.text, hlit.kind, hlit.span]
        rfl
    unfold membersOfField
    rw [node_of_cell hcell]
    show ∃ refs, (A.rawTag tag >>= fun tag => A.names names >>= fun names =>
      pure (names.map fun name => MemberRef.mk name (some type) tag)) = .ok refs ∧ _
    rw [hraw, names_of_holds hnames]
    refine ⟨_, rfl, ?_⟩
    unfold Member.ofField
    rw [List.map_map, List.forall₂_map_left_iff, List.forall₂_map_right_iff,
      List.forall₂_same]
    exact fun name _ => ⟨rfl, .some htype, rfl⟩

theorem membersOfElement_of_holds {T : Option StringRef → Option StringLit → Prop}
    {id : NodeId .field} {field : Field TypeExpr}
    (h : A.HoldsField T A.HoldsType id field) :
    ∃ refs, A.membersOfElement id = .ok refs ∧
      List.Forall₂ A.HoldsMember refs (Member.ofElement field) := by
  cases h with
  | @mk raw names type tag field hcell hnames =>
    unfold membersOfElement
    rw [node_of_cell hcell]
    show ∃ refs, (A.names names >>= fun names =>
      pure (names.map fun name => MemberRef.mk name none "")) = .ok refs ∧ _
    rw [names_of_holds hnames]
    refine ⟨_, rfl, ?_⟩
    unfold Member.ofElement
    rw [List.map_map, List.forall₂_map_left_iff, List.forall₂_map_right_iff,
      List.forall₂_same]
    exact fun name _ => ⟨rfl, .none, rfl⟩

theorem membersOf_of_holds {r : UnderlyingRef} {underlying : Underlying}
    (h : A.HoldsUnderlying r underlying) :
    ∃ refs, A.membersOf r = .ok refs ∧
      List.Forall₂ A.HoldsMember refs underlying.named := by
  cases h with
  | struct hfields =>
    obtain ⟨lists, hlists, hholds⟩ :=
      fieldIds_of_holds hfields fun id field => membersOfField_of_holds
    refine ⟨lists.flatten, ?_, forall₂_flatten hholds⟩
    unfold membersOf
    dsimp only
    rw [← bind_assoc, hlists]
    rfl
  | interface helems =>
    obtain ⟨lists, hlists, hholds⟩ :=
      fieldIds_of_holds helems fun id field => membersOfElement_of_holds
    refine ⟨lists.flatten, ?_, forall₂_flatten hholds⟩
    unfold membersOf
    dsimp only
    rw [← bind_assoc, hlists]
    rfl
  | other => exact ⟨[], rfl, .nil⟩

/-- **The members of a declaration can be read**, and stand for those of
the declaration. -/
theorem projectFields_of_holds {ref : DeclarationRef} {declaration : Declaration}
    (h : A.HoldsDeclaration ref declaration) (typeName : String) :
    ∃ refs, A.projectFields typeName ref = .ok refs ∧
      List.Forall₂ A.HoldsMember refs (declaration.membersOf typeName) := by
  cases h with
  | function | value => exact ⟨[], rfl, .nil⟩
  | type hunderlying =>
    unfold projectFields Declaration.membersOf
    dsimp only
    split
    · exact membersOf_of_holds hunderlying
    · exact ⟨[], rfl, .nil⟩

end Arena

end GoInventory
