import GoInventory.Column
import GoInventory.Proofs.TypeText.Outline

/-!
# Declarations up to their offsets

What an inventory shows of a declaration does not depend on where the
declaration stands. Its names, its members and their tags are the same when the
offsets in it are mapped, the types of its members are mapped with it, and so
are the types that stand in it directly (`Decl.declarations_mapOffsets`,
`Declaration.membersOf_mapOffsets`, `Decl.rootTypes_mapOffsets`). A column shows
the same value, or fails with the same error at the place that is mapped along
(`Column.values_mapOffsets`).
-/

namespace GoInventory

/-! ## Leaving offsets as they are -/

@[simp] theorem Span.mapOffsets_id : Span.mapOffsets id = id := rfl

@[simp] theorem Ident.mapOffsets_id : Ident.mapOffsets id = id := rfl

@[simp] theorem StringLit.mapOffsets_id : StringLit.mapOffsets id = id := rfl

@[simp] theorem TypeName.mapOffsets_id (n : TypeName) : n.mapOffsets id = n := by
  cases n <;> rfl

@[simp] theorem ArrayLength.mapOffsets_id (length : ArrayLength) :
    length.mapOffsets id = length := by
  cases length with
  | ellipsis => rfl
  | expr length => cases length <;> rfl

/-- A field is not changed if its type is not. -/
theorem Field.mapOffsets_id_of_type {f : Field TypeExpr}
    (h : f.type.mapOffsets id = f.type) : f.mapOffsets id = f := by
  simp [Field.mapOffsets, h]

/-- If no offset is changed, no type is. The induction is on the type. -/
@[simp] theorem TypeExpr.mapOffsets_id : TypeExpr.mapOffsets id = id := by
  funext t
  induction t using induction_children with
  | h t ih =>
    have hfields : ∀ fields : List (Field TypeExpr),
      (∀ f ∈ fields, f.type ∈ t.children) →
        fields.map (Field.mapOffsets id) = fields := by
      intro fields hmem
      rw [List.map_congr_left
        fun f hf => Field.mapOffsets_id_of_type (ih f.type (hmem f hf)), List.map_id']
    cases t with
    | named n => simp [mapOffsets]
    | applied s base args =>
      have hargs : args.map (mapOffsets id) = args := by
        rw [List.map_congr_left
          fun u hu => ih u (List.mem_cons_of_mem _ hu), List.map_id]
      simp [mapOffsets, hargs]
    | pointer s elem | slice s elem | chan s dir elem | variadic s elem | paren s elem
        | array s length elem =>
      have helem := ih elem (by simp [children])
      simp [mapOffsets, helem]
    | map s key value =>
      have hkey := ih key (by simp [children])
      have hvalue := ih value (by simp [children])
      simp [mapOffsets, hkey, hvalue]
    | func s sig =>
      have hparams :=
        hfields sig.params fun f hf => List.mem_append_left _ (List.mem_map_of_mem hf)
      have hresults := hfields sig.results
        fun f hf => List.mem_append_right _ (List.mem_map_of_mem hf)
      simp [mapOffsets_func, Signature.mapOffsets, hparams, hresults]
    | struct s fields | interface s fields =>
      have hall := hfields fields fun f hf => List.mem_map_of_mem hf
      simp [mapOffsets, hall]
    | union s terms =>
      have hterms : terms.map (Term.mapOffsets id) = terms := by
        rw [List.map_congr_left fun term hterm => ?_, List.map_id']
        have htype := ih term.type (List.mem_map_of_mem hterm)
        simp [Term.mapOffsets, htype]
      simp [mapOffsets, hterms]

@[simp] theorem Field.mapOffsets_id : Field.mapOffsets id = id := by
  funext f
  exact mapOffsets_id_of_type (by simp)

@[simp] theorem ImportSpec.mapOffsets_id : ImportSpec.mapOffsets id = id := by
  funext s
  simp [ImportSpec.mapOffsets]

@[simp] theorem ValueSpec.mapOffsets_id : ValueSpec.mapOffsets id = id := by
  funext s
  simp [ValueSpec.mapOffsets]

@[simp] theorem TypeSpec.mapOffsets_id : TypeSpec.mapOffsets id = id := by
  funext s
  simp [TypeSpec.mapOffsets]

/-- The specs of a group are not changed if no offset is. -/
@[simp] theorem Group.mapOffsets_id {σ : Type} (group : Group σ) :
    group.mapOffsets id id = group := by
  simp [Group.mapOffsets]

/-- A declaration whose offsets stay is the same. -/
theorem Decl.mapOffsets_id : Decl.mapOffsets id = id := by
  funext d
  cases d with
  | imports | consts | vars | types => simp [mapOffsets]
  | func d => simp [mapOffsets, FuncDecl.mapOffsets, Signature.mapOffsets]

/-! ## What is declared -/

/-- The members with their offsets mapped. -/
def Underlying.mapOffsets (g : Nat → Nat) : Underlying → Underlying
  | struct fields => struct (fields.map (Field.mapOffsets g))
  | interface elems => interface (elems.map (Field.mapOffsets g))
  | other => other

/-- The declaration with the offsets in it mapped. -/
def Declaration.mapOffsets (g : Nat → Nat) : Declaration → Declaration
  | function name hasReceiver => function name hasReceiver
  | value kind names => value kind names
  | type name underlying => type name (underlying.mapOffsets g)

/-- The member with its offsets mapped. -/
def Member.mapOffsets (g : Nat → Nat) (m : Member) : Member :=
  ⟨m.name, m.type?.map (TypeExpr.mapOffsets g), m.rawTag⟩

section Views

variable (g : Nat → Nat)

/-- **What a type declaration is made of does not depend on places**: a struct
stays a struct, an alias an alias. -/
theorem Underlying.ofType_mapOffsets (t : TypeExpr) :
    ofType (t.mapOffsets g) = (ofType t).mapOffsets g := by
  cases t with
  | struct | interface => simp [TypeExpr.mapOffsets, ofType, mapOffsets]
  | func s sig => rw [TypeExpr.mapOffsets_func]; rfl
  | _ => rfl

/-- It has the same members, each in its new place. -/
theorem Underlying.members_mapOffsets (u : Underlying) :
    (u.mapOffsets g).members = u.members.map (Field.mapOffsets g) := by
  cases u <;> rfl

/-- Constants and variables are listed in the same order. -/
theorem Declaration.ofValues_mapOffsets (kind : ValueKind) (group : Group ValueSpec) :
    ofValues kind (group.mapOffsets g (ValueSpec.mapOffsets g))
      = (ofValues kind group).map (mapOffsets g) := by
  have hnames : ∀ spec : ValueSpec,
      (spec.mapOffsets g).names.map (·.name) = spec.names.map (·.name) := by
    intro spec
    simp [ValueSpec.mapOffsets, Ident.mapOffsets]
  unfold ofValues Group.mapOffsets
  simp only [List.flatMap_map, hnames]
  split <;> rfl

/-- **A declaration declares the same names wherever it stands.** -/
theorem Decl.declarations_mapOffsets (d : Decl) :
    (d.mapOffsets g).declarations
      = d.declarations.map (Declaration.mapOffsets g) := by
  cases d with
  | imports => rfl
  | consts group | vars group => exact Declaration.ofValues_mapOffsets g _ group
  | types group =>
    show (group.specs.map (TypeSpec.mapOffsets g)).map Declaration.ofTypeSpec = _
    rw [List.map_map, declarations, List.map_map]
    refine List.map_congr_left fun spec _ => ?_
    show Declaration.type _ (.ofType (spec.type.mapOffsets g)) = _
    rw [Underlying.ofType_mapOffsets]
    rfl
  | func d =>
    simp [mapOffsets, FuncDecl.mapOffsets, declarations, Declaration.mapOffsets,
      Ident.mapOffsets]

/-! ## Members and columns -/

/-- The text of a tag does not depend on where it stands. -/
theorem tagText_map_mapOffsets (tag : Option StringLit) :
    tagText (tag.map (StringLit.mapOffsets g)) = tagText tag := by
  cases tag <;> rfl

/-- The members keep the names that they are listed under. -/
theorem Underlying.named_mapOffsets (u : Underlying) :
    (u.mapOffsets g).named = u.named.map (Member.mapOffsets g) := by
  cases u with
  | struct fields =>
    simp only [mapOffsets, named, List.flatMap_map, List.map_flatMap]
    refine List.flatMap_congr fun f _ => ?_
    simp [Member.ofField, Field.mapOffsets, tagText_map_mapOffsets, Member.mapOffsets,
      Ident.mapOffsets]
  | interface elems =>
    simp only [mapOffsets, named, List.flatMap_map, List.map_flatMap]
    refine List.flatMap_congr fun f _ => ?_
    simp [Member.ofElement, Field.mapOffsets, Member.mapOffsets, Ident.mapOffsets]
  | other => rfl

/-- The members of a name are the same wherever it is declared. -/
theorem Declaration.membersOf_mapOffsets (typeName : String) (d : Declaration) :
    (d.mapOffsets g).membersOf typeName
      = (d.membersOf typeName).map (Member.mapOffsets g) := by
  cases d with
  | function | value => rfl
  | type name underlying =>
    simp only [mapOffsets, membersOf, Underlying.named_mapOffsets]
    split <;> rfl

/-- A column shows the same value, or fails at the place to which its
type was moved. -/
theorem Column.value_mapOffsets (column : Column) (member : Member) :
    column.value (member.mapOffsets g)
      = (column.value member).mapError (·.mapOffsets g) := by
  cases column with
  | name | tags | tag => rfl
  | type =>
    obtain ⟨name, type?, rawTag⟩ := member
    cases type? with
    | none => rfl
    | some type => exact type.render_mapOffsets g

/-- The same for a whole record. It fails at the first of the columns that fail. -/
theorem Column.values_mapOffsets (columns : List Column) (member : Member) :
    values columns (member.mapOffsets g)
      = (values columns member).mapError (·.mapOffsets g) := by
  unfold values
  induction columns with
  | nil => rfl
  | cons column columns ih =>
    rw [List.mapM_cons, List.mapM_cons, column.value_mapOffsets, ih]
    cases column.value member with
    | error e => rfl
    | ok text => cases columns.mapM (·.value member) <;> rfl

/-! ## Types -/

theorem Decl.fieldTypes_mapOffsets (fields : List (Field TypeExpr)) :
    fieldTypes (fields.map (Field.mapOffsets g))
      = (fieldTypes fields).map (TypeExpr.mapOffsets g) := by
  simp [fieldTypes, Field.mapOffsets]

/-- The types that are looked at in a declaration are the same ones in
their new places. -/
theorem Decl.rootTypes_mapOffsets (d : Decl) :
    (d.mapOffsets g).rootTypes = d.rootTypes.map (TypeExpr.mapOffsets g) := by
  cases d with
  | imports => rfl
  | consts group | vars group =>
    simp only [mapOffsets, Group.mapOffsets, rootTypes, List.filterMap_map,
      List.map_filterMap]
    rfl
  | types group =>
    simp only [mapOffsets, Group.mapOffsets, rootTypes, List.flatMap_map,
      List.map_flatMap]
    refine List.flatMap_congr fun spec _ => ?_
    simp only [TypeSpec.mapOffsets, fieldTypes_mapOffsets,
      Underlying.ofType_mapOffsets,
      Underlying.members_mapOffsets, List.map_append, List.map_cons]
  | func d =>
    have hreceiver : (d.receiver.map (Field.mapOffsets g)).toList
        = d.receiver.toList.map (Field.mapOffsets g) := by
      cases d.receiver <;> rfl
    simp only [mapOffsets, FuncDecl.mapOffsets, Signature.mapOffsets,
      rootTypes, hreceiver, fieldTypes_mapOffsets, List.map_append]

end Views

end GoInventory
