import GoInventory.Syntax.Parameter

/-!
# Trees up to their offsets

Two trees are the same up to spans if they become equal when every offset in
them is set to zero. Setting to zero is one way to map the offsets of a tree,
and moving a declaration within a file is another, so the functions here take
the map of offsets as a parameter.

The grouping of parameters does not look at spans: it commutes with every map of
offsets (`ParamEntry.group_mapOffsets`).
-/

namespace GoInventory

/-- The span with both its offsets mapped. -/
def Span.mapOffsets (g : Nat → Nat) (s : Span) : Span :=
  ⟨g s.start, g s.stop⟩

/-- The identifier with its offsets mapped. -/
def Ident.mapOffsets (g : Nat → Nat) (n : Ident) : Ident :=
  ⟨n.name, n.span.mapOffsets g⟩

/-- The literal with its offsets mapped. -/
def StringLit.mapOffsets (g : Nat → Nat) (lit : StringLit) : StringLit :=
  ⟨lit.kind, lit.text, lit.span.mapOffsets g⟩

/-- The name with its offsets mapped. -/
def TypeName.mapOffsets (g : Nat → Nat) : TypeName → TypeName
  | plain name => plain (name.mapOffsets g)
  | qualified span pkg name =>
    qualified (span.mapOffsets g) (pkg.mapOffsets g) (name.mapOffsets g)

/-- The length with its offsets mapped. -/
def LengthExpr.mapOffsets (g : Nat → Nat) : LengthExpr → LengthExpr
  | ident name => ident (name.mapOffsets g)
  | selector span pkg sel =>
    selector (span.mapOffsets g) (pkg.mapOffsets g) (sel.mapOffsets g)
  | literal span kind text => literal (span.mapOffsets g) kind text
  | other span => other (span.mapOffsets g)

/-- The length with its offsets mapped. -/
def ArrayLength.mapOffsets (g : Nat → Nat) : ArrayLength → ArrayLength
  | expr length => expr (length.mapOffsets g)
  | ellipsis => ellipsis

mutual

/-- The type with all its offsets mapped. -/
def TypeExpr.mapOffsets (g : Nat → Nat) : TypeExpr → TypeExpr
  | .named name => .named (name.mapOffsets g)
  | .applied span base args =>
    .applied (span.mapOffsets g) (base.mapOffsets g) (mapOffsetsTypes g args)
  | .pointer span elem => .pointer (span.mapOffsets g) (elem.mapOffsets g)
  | .array span length elem =>
    .array (span.mapOffsets g) (length.mapOffsets g) (elem.mapOffsets g)
  | .slice span elem => .slice (span.mapOffsets g) (elem.mapOffsets g)
  | .map span key value =>
    .map (span.mapOffsets g) (key.mapOffsets g) (value.mapOffsets g)
  | .chan span dir elem => .chan (span.mapOffsets g) dir (elem.mapOffsets g)
  | .func span ⟨params, results, inner⟩ =>
    .func (span.mapOffsets g)
      ⟨mapOffsetsFields g params, mapOffsetsFields g results, inner.mapOffsets g⟩
  | .struct span fields => .struct (span.mapOffsets g) (mapOffsetsFields g fields)
  | .interface span elems => .interface (span.mapOffsets g) (mapOffsetsFields g elems)
  | .variadic span elem => .variadic (span.mapOffsets g) (elem.mapOffsets g)
  | .paren span elem => .paren (span.mapOffsets g) (elem.mapOffsets g)
  | .union span terms => .union (span.mapOffsets g) (mapOffsetsTerms g terms)

/-- The types with all their offsets mapped. -/
def mapOffsetsTypes (g : Nat → Nat) : List TypeExpr → List TypeExpr
  | [] => []
  | type :: rest => type.mapOffsets g :: mapOffsetsTypes g rest

/-- The fields with all their offsets mapped. -/
def mapOffsetsFields (g : Nat → Nat) : List (Field TypeExpr) → List (Field TypeExpr)
  | [] => []
  | ⟨names, type, tag, span⟩ :: rest =>
    ⟨names.map (Ident.mapOffsets g), type.mapOffsets g,
      tag.map (StringLit.mapOffsets g),
      span.mapOffsets g⟩ :: mapOffsetsFields g rest

/-- The terms with all their offsets mapped. -/
def mapOffsetsTerms (g : Nat → Nat) : List (Term TypeExpr) → List (Term TypeExpr)
  | [] => []
  | ⟨tilde, type⟩ :: rest => ⟨tilde, type.mapOffsets g⟩ :: mapOffsetsTerms g rest

end

/-- The field with its offsets mapped. -/
def Field.mapOffsets (g : Nat → Nat) (f : Field TypeExpr) : Field TypeExpr :=
  ⟨f.names.map (Ident.mapOffsets g), f.type.mapOffsets g,
    f.tag.map (StringLit.mapOffsets g),
    f.span.mapOffsets g⟩

/-- The signature with its offsets mapped. -/
def Signature.mapOffsets (g : Nat → Nat) (sig : Signature TypeExpr) :
    Signature TypeExpr :=
  ⟨sig.params.map (Field.mapOffsets g), sig.results.map (Field.mapOffsets g),
    sig.span.mapOffsets g⟩

/-- The term with its offsets mapped. -/
def Term.mapOffsets (g : Nat → Nat) (t : Term TypeExpr) : Term TypeExpr :=
  ⟨t.tilde, t.type.mapOffsets g⟩

/-- The import with its offsets mapped. -/
def ImportSpec.mapOffsets (g : Nat → Nat) (s : ImportSpec) : ImportSpec :=
  ⟨s.name.map (Ident.mapOffsets g), s.path.mapOffsets g⟩

/-- The constants or variables with their offsets mapped. -/
def ValueSpec.mapOffsets (g : Nat → Nat) (s : ValueSpec) : ValueSpec :=
  ⟨s.names.map (Ident.mapOffsets g), s.type.map (TypeExpr.mapOffsets g),
    s.values.map (Span.mapOffsets g)⟩

/-- The declared type with its offsets mapped. -/
def TypeSpec.mapOffsets (g : Nat → Nat) (s : TypeSpec) : TypeSpec :=
  ⟨s.name.mapOffsets g, s.typeParams.map (Field.mapOffsets g), s.isAlias,
    s.type.mapOffsets g⟩

/-- The group with its offsets mapped; `spec` maps those of its specs. -/
def Group.mapOffsets {σ : Type} (g : Nat → Nat) (spec : σ → σ) (group : Group σ) :
    Group σ :=
  ⟨group.specs.map spec, group.grouped, group.span.mapOffsets g⟩

/-- The function with its offsets mapped. -/
def FuncDecl.mapOffsets (g : Nat → Nat) (d : FuncDecl) : FuncDecl :=
  ⟨d.receiver.map (Field.mapOffsets g), d.name.mapOffsets g,
    d.typeParams.map (Field.mapOffsets g),
    d.signature.mapOffsets g, d.body.map (Span.mapOffsets g), d.span.mapOffsets g⟩

/-- The declaration with all its offsets mapped. -/
def Decl.mapOffsets (g : Nat → Nat) : Decl → Decl
  | imports group => imports (group.mapOffsets g (ImportSpec.mapOffsets g))
  | consts group => consts (group.mapOffsets g (ValueSpec.mapOffsets g))
  | vars group => vars (group.mapOffsets g (ValueSpec.mapOffsets g))
  | types group => types (group.mapOffsets g (TypeSpec.mapOffsets g))
  | func decl => func (decl.mapOffsets g)

section Equations

variable (g : Nat → Nat)

@[simp] theorem mapOffsetsTypes_eq (types : List TypeExpr) :
    mapOffsetsTypes g types = types.map (TypeExpr.mapOffsets g) := by
  induction types with
  | nil => rfl
  | cons t rest ih => rw [mapOffsetsTypes, ih, List.map_cons]

@[simp] theorem mapOffsetsFields_eq (fields : List (Field TypeExpr)) :
    mapOffsetsFields g fields = fields.map (Field.mapOffsets g) := by
  induction fields with
  | nil => rfl
  | cons f rest ih => rw [mapOffsetsFields, ih, List.map_cons]; rfl

@[simp] theorem mapOffsetsTerms_eq (terms : List (Term TypeExpr)) :
    mapOffsetsTerms g terms = terms.map (Term.mapOffsets g) := by
  induction terms with
  | nil => rfl
  | cons t rest ih => rw [mapOffsetsTerms, ih, List.map_cons]; rfl

theorem TypeExpr.mapOffsets_func (span : Span) (sig : Signature TypeExpr) :
    (TypeExpr.func span sig).mapOffsets g
      = .func (span.mapOffsets g) (sig.mapOffsets g) := by
  obtain ⟨params, results, inner⟩ := sig
  simp only [TypeExpr.mapOffsets, mapOffsetsFields_eq, Signature.mapOffsets]

end Equations

/-- All offsets are one. -/
def forget : Nat → Nat :=
  fun _ => 0

/-- The type without its offsets. Two types are the same up to spans if this
makes them equal. -/
def TypeExpr.eraseSpans (t : TypeExpr) : TypeExpr :=
  t.mapOffsets forget

/-- A span that is not cut moves with its ends. -/
theorem Span.clamp_add {start stop k : Nat} (hstart : start + k ≤ maxOffset)
    (hstop : stop + k ≤ maxOffset) :
    clamp (start + k) (stop + k) = (clamp start stop).mapOffsets (· + k) := by
  unfold clamp mapOffsets
  dsimp only
  rw [Nat.min_eq_left hstart, Nat.min_eq_left hstop, Nat.min_eq_left (by omega),
    Nat.min_eq_left (by omega)]

theorem Ident.mapOffsets_forget {n n' : Ident} (h : n.name = n'.name) :
    n.mapOffsets forget = n'.mapOffsets forget := by
  unfold Ident.mapOffsets
  rw [h]
  rfl

/-! ## The grouping of parameters -/

namespace ParamEntry

/-- The entry with its offsets mapped. -/
def mapOffsets (g : Nat → Nat) : ParamEntry → ParamEntry
  | bare name => bare (name.mapOffsets g)
  | typed name type span =>
    typed (name.mapOffsets g) (type.mapOffsets g) (span.mapOffsets g)
  | unnamed type span => unnamed (type.mapOffsets g) (span.mapOffsets g)

theorem isTyped_mapOffsets (g : Nat → Nat) (entry : ParamEntry) :
    (entry.mapOffsets g).isTyped = entry.isTyped := by
  cases entry <;> rfl

theorem asUnnamed_mapOffsets (g : Nat → Nat) (entry : ParamEntry) :
    (entry.mapOffsets g).asUnnamed = entry.asUnnamed.mapOffsets g := by
  cases entry <;> simp [mapOffsets, asUnnamed, Field.mapOffsets, TypeExpr.mapOffsets,
    TypeName.mapOffsets, Ident.mapOffsets]

/-- The start of a group moves with its first name, or with its only entry. -/
theorem groupStart_mapOffsets (g : Nat → Nat) (waiting : List Ident) (last : Span) :
    groupStart (waiting.map (Ident.mapOffsets g)) (last.mapOffsets g)
      = g (groupStart waiting last) := by
  cases waiting <;> rfl

/-- Grouping named parameters does not look at offsets. -/
theorem groupNamed_mapOffsets (g : Nat → Nat) (entries : List ParamEntry) :
    ∀ waiting : List Ident,
      (groupNamed (waiting.map (Ident.mapOffsets g))
        (entries.map (mapOffsets g))).toOption
        = (groupNamed waiting entries).toOption.map
          (List.map (Field.mapOffsets g)) := by
  induction entries with
  | nil =>
    intro waiting
    simp only [List.map_nil, groupNamed, List.getLast?_map]
    cases waiting.getLast? <;> rfl
  | cons entry rest ih =>
    intro waiting
    cases entry with
    | bare name =>
      have h := ih (waiting ++ [name])
      rw [List.map_append] at h
      exact h
    | typed name type span =>
      -- both groupings of the rest fail, or both succeed and agree up to the map
      have h := ih []
      simp only [List.map_cons, mapOffsets, groupNamed]
      rw [List.map_nil] at h
      cases hm : groupNamed [] (rest.map (mapOffsets g)) with
      | error e =>
        rw [hm] at h
        cases ho : groupNamed [] rest with
        | error e' => rfl
        | ok fields => rw [ho] at h; cases h
      | ok fields' =>
        rw [hm] at h
        cases ho : groupNamed [] rest with
        | error e' => rw [ho] at h; cases h
        | ok fields =>
          rw [ho] at h
          have hfields : fields' = fields.map (Field.mapOffsets g) :=
            Option.some.inj h
          subst hfields
          simp only [Except.map, Except.toOption, Option.map_some, List.map_cons,
            Field.mapOffsets,
            List.map_append, List.map_nil, Option.map_none, groupStart_mapOffsets]
          rfl
    | unnamed type span => rfl

/-- Grouping parameters does not look at offsets. -/
theorem group_mapOffsets (g : Nat → Nat) (entries : List ParamEntry) :
    (group (entries.map (mapOffsets g))).toOption
      = (group entries).toOption.map (List.map (Field.mapOffsets g)) := by
  have hany : (entries.map (mapOffsets g)).any isTyped = entries.any isTyped := by
    rw [List.any_map]
    congr 1
    funext entry
    exact isTyped_mapOffsets g entry
  unfold group
  rw [hany]
  split
  · exact groupNamed_mapOffsets g entries []
  · simp only [Except.toOption, Option.map_some, List.map_map]
    congr 2
    funext entry
    exact asUnnamed_mapOffsets g entry

/-- Entries that are the same up to offsets are grouped to the same fields
up to offsets. -/
theorem group_congr_mapOffsets {g : Nat → Nat} {entries entries' : List ParamEntry}
    {fields : List (Field TypeExpr)}
    (h : entries'.map (mapOffsets g) = entries.map (mapOffsets g))
    (hgroup : group entries = .ok fields) :
    ∃ fields', group entries' = .ok fields' ∧
      fields'.map (Field.mapOffsets g) = fields.map (Field.mapOffsets g) := by
  have hmap := group_mapOffsets g entries'
  rw [h, group_mapOffsets, hgroup] at hmap
  cases hgroup' : group entries' with
  | error e =>
    rw [hgroup'] at hmap
    cases hmap
  | ok fields' =>
    rw [hgroup'] at hmap
    exact ⟨fields', rfl, (Option.some.inj hmap).symm⟩

end ParamEntry

end GoInventory
