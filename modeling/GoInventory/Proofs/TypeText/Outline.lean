import GoInventory.Proofs.Syntax.Nodes
import GoInventory.Proofs.Syntax.Offsets
import GoInventory.TypeText

/-!
# What the text of a type depends on

The canonical text says nothing about places in the source, and nothing about
the members of structs and interfaces. So it does not change when offsets are
mapped (`render_mapOffsets`) or bodies are emptied (`render_withoutBodies`).

Both are proved by induction over the children of a type, which is one principle
for all forms (`TypeExpr.induction_children`).
-/

namespace GoInventory

namespace TypeExpr

theorem sizeOf_field_lt {fields : List (Field TypeExpr)} {c : TypeExpr}
    (h : c ∈ fields.map (·.type)) : sizeOf c < sizeOf fields := by
  obtain ⟨⟨names, type, tag, s⟩, hf, rfl⟩ := List.mem_map.mp h
  have hlt := List.sizeOf_lt_of_mem hf
  simp only [Field.mk.sizeOf_spec] at hlt
  show sizeOf type < sizeOf fields
  omega

/-- A type is larger than the types that stand in it. -/
theorem sizeOf_child_lt {t c : TypeExpr} (h : c ∈ t.children) :
    sizeOf c < sizeOf t := by
  cases t with
  | named => cases h
  | applied s base args =>
    simp only [applied.sizeOf_spec]
    rcases List.mem_cons.mp h with rfl | h
    · simp only [named.sizeOf_spec]
      have hargs : 0 < sizeOf args := by
        cases args <;> simp only [List.nil.sizeOf_spec,
          List.cons.sizeOf_spec] <;> omega
      omega
    · have hlt := List.sizeOf_lt_of_mem h
      omega
  | map s key value =>
    simp only [map.sizeOf_spec]
    rcases List.mem_cons.mp h with rfl | h
    · omega
    · rw [List.mem_singleton.mp h]
      omega
  | func s sig =>
    obtain ⟨params, results, s'⟩ := sig
    simp only [func.sizeOf_spec, Signature.mk.sizeOf_spec]
    rcases List.mem_append.mp h with h | h
    · have hlt : sizeOf c < sizeOf params := sizeOf_field_lt h
      omega
    · have hlt : sizeOf c < sizeOf results := sizeOf_field_lt h
      omega
  | struct s fields =>
    have hlt := sizeOf_field_lt h
    simp only [struct.sizeOf_spec]
    omega
  | interface s elems =>
    have hlt := sizeOf_field_lt h
    simp only [interface.sizeOf_spec]
    omega
  | union s terms =>
    obtain ⟨⟨tilde, type⟩, htm, rfl⟩ := List.mem_map.mp h
    have hlt := List.sizeOf_lt_of_mem htm
    simp only [Term.mk.sizeOf_spec] at hlt
    simp only [union.sizeOf_spec]
    omega
  | pointer | array | slice | chan | variadic | paren =>
    rw [List.mem_singleton.mp h]
    simp only [pointer.sizeOf_spec, array.sizeOf_spec, slice.sizeOf_spec,
      chan.sizeOf_spec, variadic.sizeOf_spec, paren.sizeOf_spec]
    omega

/-- What passes from the children of a type to the type holds of all types. -/
theorem induction_children {P : TypeExpr → Prop}
    (h : ∀ t, (∀ c ∈ t.children, P c) → P t) (t : TypeExpr) : P t :=
  h t fun c _hc => induction_children h c
termination_by sizeOf t
decreasing_by exact sizeOf_child_lt _hc

end TypeExpr

/-! ## Where `...` may stand -/

namespace TypeExpr

/-- The children that do not stand in the body of a struct or interface. -/
def openChildren : TypeExpr → List TypeExpr
  | struct _ _ | interface _ _ => []
  | t => t.children

theorem mem_children_of_mem_openChildren {t c : TypeExpr} (h : c ∈ t.openChildren) :
    c ∈ t.children := by
  cases t with
  | struct | interface => cases h
  | _ => exact h

/-- Of these, the ones that are not the type of parameters. -/
def plainChildren : TypeExpr → List TypeExpr
  | func _ sig => sig.results.map (·.type)
  | t => t.openChildren

/-- The type is the other one, or stands in it outside the bodies of structs
and interfaces. -/
inductive OutsideBodies (u : TypeExpr) : TypeExpr → Prop
  | self : OutsideBodies u u
  | child {t c : TypeExpr} : c ∈ t.openChildren → OutsideBodies u c →
      OutsideBodies u t

/-- Outside bodies, `...` stands before the type of parameters only, and not
before that of a result. -/
def DotsInParams (t : TypeExpr) : Prop :=
  ∀ u : TypeExpr, u.OutsideBodies t → ∀ c ∈ u.plainChildren, ∀ s elem,
    c ≠ variadic s elem

theorem dotsInParams_iff {t : TypeExpr} :
    t.DotsInParams ↔ (∀ c ∈ t.plainChildren, ∀ s elem, c ≠ variadic s elem) ∧
      ∀ c ∈ t.openChildren, c.DotsInParams := by
  constructor
  · intro h
    exact ⟨h t .self, fun c hc u hu => h u (.child hc hu)⟩
  · intro hboth u hu
    obtain ⟨hplain, hopen⟩ := hboth
    cases hu with
    | self => exact hplain
    | child hc hu => exact hopen _ hc u hu

end TypeExpr

/-! ## Types without bodies -/

mutual

/-- The type with the bodies of structs and interfaces emptied. -/
def TypeExpr.withoutBodies : TypeExpr → TypeExpr
  | .named name => .named name
  | .applied span base args => .applied span base (withoutBodiesTypes args)
  | .pointer span elem => .pointer span elem.withoutBodies
  | .array span length elem => .array span length elem.withoutBodies
  | .slice span elem => .slice span elem.withoutBodies
  | .map span key value => .map span key.withoutBodies value.withoutBodies
  | .chan span dir elem => .chan span dir elem.withoutBodies
  | .func span ⟨params, results, inner⟩ =>
    .func span ⟨withoutBodiesFields params, withoutBodiesFields results, inner⟩
  | .struct span _ => .struct span []
  | .interface span _ => .interface span []
  | .variadic span elem => .variadic span elem.withoutBodies
  | .paren span elem => .paren span elem.withoutBodies
  | .union span terms => .union span (withoutBodiesTerms terms)

/-- The types with all bodies emptied. -/
def withoutBodiesTypes : List TypeExpr → List TypeExpr
  | [] => []
  | type :: rest => type.withoutBodies :: withoutBodiesTypes rest

/-- The fields with all bodies emptied. -/
def withoutBodiesFields : List (Field TypeExpr) → List (Field TypeExpr)
  | [] => []
  | ⟨names, type, tag, span⟩ :: rest =>
    ⟨names, type.withoutBodies, tag, span⟩ :: withoutBodiesFields rest

/-- The terms with all bodies emptied. -/
def withoutBodiesTerms : List (Term TypeExpr) → List (Term TypeExpr)
  | [] => []
  | ⟨tilde, type⟩ :: rest => ⟨tilde, type.withoutBodies⟩ :: withoutBodiesTerms rest

end

/-- The field with the bodies in its type emptied. -/
def Field.withoutBodies (f : Field TypeExpr) : Field TypeExpr :=
  ⟨f.names, f.type.withoutBodies, f.tag, f.span⟩

@[simp] theorem withoutBodiesTypes_eq (types : List TypeExpr) :
    withoutBodiesTypes types = types.map TypeExpr.withoutBodies := by
  induction types with
  | nil => rfl
  | cons t rest ih => rw [withoutBodiesTypes, ih, List.map_cons]

@[simp] theorem withoutBodiesFields_eq (fields : List (Field TypeExpr)) :
    withoutBodiesFields fields = fields.map Field.withoutBodies := by
  induction fields with
  | nil => rfl
  | cons f rest ih => rw [withoutBodiesFields, ih, List.map_cons]; rfl

/-! ## The text -/

section Text

variable {f : TypeExpr → TypeExpr} {field : Field TypeExpr → Field TypeExpr}
  {move : UnsupportedType → UnsupportedType}

/-- A change that keeps the text of types keeps the texts of a list of them. -/
theorem renderTypes_map {types : List TypeExpr}
    (h : ∀ t ∈ types, (f t).render = t.render.mapError move) :
    renderTypes (types.map f) = (renderTypes types).mapError move := by
  induction types with
  | nil => rfl
  | cons t rest ih =>
    rw [List.map_cons, renderTypes, renderTypes, h t List.mem_cons_self,
      ih fun u hu => h u (List.mem_cons_of_mem t hu)]
    cases t.render with
    | error e => rfl
    | ok text => cases renderTypes rest <;> rfl

theorem namedText_congr {names names' : List Ident}
    (h : names'.map (·.name) = names.map (·.name)) (type : String) :
    namedText names' type = namedText names type := by
  have hempty : names'.isEmpty = names.isEmpty := by
    simpa using congrArg List.isEmpty h
  unfold namedText
  rw [hempty, h]

theorem renderFields_cons (f : Field TypeExpr) (rest : List (Field TypeExpr)) :
    renderFields (f :: rest) = do
      let text ← f.type.render
      return namedText f.names text :: (← renderFields rest) := by
  rw [renderFields]

/-- The same for a list of fields that keep their names. -/
theorem renderFields_map {fields : List (Field TypeExpr)}
    (hnames : ∀ f ∈ fields, (field f).names.map (·.name) = f.names.map (·.name))
    (h : ∀ f ∈ fields, (field f).type.render = f.type.render.mapError move) :
    renderFields (fields.map field) = (renderFields fields).mapError move := by
  induction fields with
  | nil => rfl
  | cons f rest ih =>
    have htext := namedText_congr (hnames f List.mem_cons_self)
    have hrest := ih (fun g hg => hnames g (List.mem_cons_of_mem f hg))
      fun g hg => h g (List.mem_cons_of_mem f hg)
    rw [List.map_cons, renderFields_cons, renderFields_cons,
      h f List.mem_cons_self, hrest]
    cases f.type.render with
    | error e => rfl
    | ok text =>
      simp only [htext]
      cases renderFields rest <;> rfl

/-- Results are written in parentheses or not, whatever their types are. -/
theorem resultText_map {results : List (Field TypeExpr)} (texts : List String)
    (hnames : ∀ f ∈ results, (field f).names.map (·.name) = f.names.map (·.name)) :
    resultText (results.map field) texts = resultText results texts := by
  have hbare : isBareResult (results.map field) = isBareResult results := by
    match results with
    | [] => rfl
    | [f] =>
      show (field f).names.isEmpty = f.names.isEmpty
      simpa using congrArg List.isEmpty (hnames f List.mem_cons_self)
    | _ :: _ :: _ => rfl
  unfold resultText
  rw [hbare, List.isEmpty_map]

end Text

/-- The error with its place mapped. -/
def UnsupportedType.mapOffsets (g : Nat → Nat) (e : UnsupportedType) :
    UnsupportedType :=
  ⟨e.form, e.span.mapOffsets g⟩

theorem mapError_id {ε α : Type} (x : Except ε α) : x.mapError id = x := by
  cases x <;> rfl

theorem TypeName.text_mapOffsets (g : Nat → Nat) (n : TypeName) :
    (n.mapOffsets g).text = n.text := by
  cases n <;> rfl

theorem ArrayLength.render_mapOffsets (g : Nat → Nat) (whole : Span)
    (length : ArrayLength) :
    (length.mapOffsets g).render (whole.mapOffsets g)
      = (length.render whole).mapError (·.mapOffsets g) := by
  cases length with
  | ellipsis => rfl
  | expr length => cases length <;> rfl

/-- **The text of a type does not depend on offsets**, and the error, if there
is one, moves along. -/
theorem TypeExpr.render_mapOffsets (g : Nat → Nat) (t : TypeExpr) :
    (t.mapOffsets g).render = t.render.mapError (·.mapOffsets g) := by
  induction t using induction_children with
  | h t ih =>
    cases t with
    | named n =>
      show Except.ok (n.mapOffsets g).text = _
      rw [n.text_mapOffsets g]
      rfl
    | struct | interface | paren | union => rfl
    | pointer s elem | slice s elem | chan s dir elem | variadic s elem =>
      rw [mapOffsets, render, render, ih elem (by simp [children])]
      cases elem.render <;> rfl
    | array s length elem =>
      rw [mapOffsets, render, render, length.render_mapOffsets,
        ih elem (by simp [children])]
      cases length.render s with
      | error e => rfl
      | ok text => cases elem.render <;> rfl
    | map s key value =>
      rw [mapOffsets, render, render, ih key (by simp [children]),
        ih value (by simp [children])]
      cases key.render with
      | error e => rfl
      | ok text => cases value.render <;> rfl
    | applied s base args =>
      have hargs :=
        renderTypes_map (f := TypeExpr.mapOffsets g) fun u (hu : u ∈ args) =>
        ih u (List.mem_cons_of_mem _ hu)
      rw [mapOffsets, mapOffsetsTypes_eq, render, render, hargs, base.text_mapOffsets]
      cases renderTypes args <;> rfl
    | func s sig =>
      -- the texts of fields are made of their names and of the texts of their types
      obtain ⟨params, results, s'⟩ := sig
      have hnames : ∀ f : Field TypeExpr,
          (f.mapOffsets g).names.map (·.name) = f.names.map (·.name) := by
        intro f
        simp [Field.mapOffsets, Ident.mapOffsets, Function.comp_def]
      have hfields : ∀ fields : List (Field TypeExpr),
          (∀ f ∈ fields, f.type ∈ (func s ⟨params, results, s'⟩).children) →
          renderFields (fields.map (Field.mapOffsets g))
            = (renderFields fields).mapError (·.mapOffsets g) := fun fields hmem =>
        renderFields_map (fun f _ => hnames f) fun f hf => ih f.type (hmem f hf)
      rw [mapOffsets, mapOffsetsFields_eq, mapOffsetsFields_eq, render, render,
        hfields params fun f hf => List.mem_append_left _ (List.mem_map_of_mem hf),
        hfields results fun f hf => List.mem_append_right _ (List.mem_map_of_mem hf)]
      cases renderFields params with
      | error e => rfl
      | ok texts =>
        cases renderFields results with
        | error e => rfl
        | ok texts' =>
          show Except.ok ("func(" ++ commaJoin texts ++ ")"
            ++ resultText (results.map _) texts') = _
          rw [resultText_map texts' fun f _ => hnames f]
          rfl

/-- **The text of a type does not depend on the bodies of structs and
interfaces.** -/
theorem TypeExpr.render_withoutBodies (t : TypeExpr) :
    t.withoutBodies.render = t.render := by
  induction t using induction_children with
  | h t ih =>
    cases t with
    | named | struct | interface | paren | union => rfl
    | pointer s elem | slice s elem | chan s dir elem | variadic s elem =>
      rw [withoutBodies, render, render, ih elem (by simp [children])]
    | array s length elem =>
      rw [withoutBodies, render, render, ih elem (by simp [children])]
    | map s key value =>
      rw [withoutBodies, render, render, ih key (by simp [children]),
        ih value (by simp [children])]
    | applied s base args =>
      have hargs := renderTypes_map (f := withoutBodies) fun u (hu : u ∈ args) =>
        (ih u (List.mem_cons_of_mem _ hu)).trans (mapError_id u.render).symm
      rw [withoutBodies, withoutBodiesTypes_eq, render, render, hargs, mapError_id]
    | func s sig =>
      obtain ⟨params, results, s'⟩ := sig
      have hnames : ∀ f : Field TypeExpr,
          f.withoutBodies.names.map (·.name) = f.names.map (·.name) := fun _ => rfl
      have hfields : ∀ fields : List (Field TypeExpr),
          (∀ f ∈ fields, f.type ∈ (func s ⟨params, results, s'⟩).children) →
          renderFields (fields.map Field.withoutBodies) = renderFields fields := by
        intro fields hmem
        rw [renderFields_map (fun f _ => hnames f) fun f hf =>
          (ih f.type (hmem f hf)).trans (mapError_id f.type.render).symm]
        exact mapError_id _
      rw [withoutBodies, withoutBodiesFields_eq, withoutBodiesFields_eq,
        render, render,
        hfields params fun f hf => List.mem_append_left _ (List.mem_map_of_mem hf),
        hfields results fun f hf => List.mem_append_right _ (List.mem_map_of_mem hf)]
      simp only [resultText_map _ fun f _ => hnames f]

/-- The text goes with the type up to spans. -/
theorem TypeExpr.render_of_eraseSpans_eq {t t' : TypeExpr} {r : String}
    (h : t'.eraseSpans = t.eraseSpans) (ht : t.render = .ok r) :
    t'.render = .ok r := by
  have hmapped : t'.render.mapError (·.mapOffsets forget) = .ok r := by
    rw [← render_mapOffsets]
    show t'.eraseSpans.render = .ok r
    rw [h, eraseSpans, render_mapOffsets, ht]
    rfl
  cases hr : t'.render with
  | error e =>
    rw [hr] at hmapped
    cases hmapped
  | ok r' =>
    rw [hr] at hmapped
    exact hmapped

end GoInventory
