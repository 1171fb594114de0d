import GoInventory.Proofs.Syntax.Bare
import GoInventory.Proofs.Syntax.Grouping
import GoInventory.Proofs.Syntax.TypeMoving

/-!
# Types without their places

No parser of types decides anything by the offsets of its tokens
(`mirrors_typeExpr`). Looking ahead does not: the search for a closing bracket
counts tokens, and what stands behind the bracket is asked for its kind only.
The grouping of parameters puts spans together by hand and reports the spans of
single entries, so the entries of a list are shown to be within the source
before they are grouped (`ParamEntry.group_error`).
-/

namespace GoInventory

/-! ## Looking ahead -/

/-- Which tokens a bracket encloses does not depend on where they stand. -/
theorem enclosed?_map (g : Nat → Nat) (tokens : List Token) :
    ∀ depth, enclosed? depth (tokens.map (Token.mapOffsets g))
      = (enclosed? depth tokens).map fun r =>
        (r.1.map (Token.mapOffsets g), r.2.map (Token.mapOffsets g)) := by
  induction tokens with
  | nil => exact fun _ => rfl
  | cons t tokens ih =>
    intro depth
    have htok : (t.mapOffsets g).tok = t.tok := rfl
    rw [List.map_cons]
    rcases t.tok.bracket_cases with ho | ⟨-, hc⟩ | ⟨ho, hc⟩
    · rw [enclosed?_opening ho, enclosed?_opening (htok ▸ ho), ih, Option.map_map,
        Option.map_map]
      rfl
    · cases depth with
      | zero =>
        rw [enclosed?_closing_zero hc, enclosed?_closing_zero (htok ▸ hc)]; rfl
      | succ outer =>
        rw [enclosed?_closing_succ hc, enclosed?_closing_succ (htok ▸ hc), ih,
          Option.map_map, Option.map_map]
        rfl
    · rw [enclosed?_plain ho hc, enclosed?_plain (htok ▸ ho) (htok ▸ hc), ih,
        Option.map_map, Option.map_map]
      rfl

namespace Cursor

variable (c : Cursor)

/-- Whether brackets start a type is asked of tokens, not of places. -/
theorem bare_bracketsStartType : c.bare.bracketsStartType = c.bracketsStartType := by
  have hdrop : c.bare.rest.drop 2 = (c.rest.drop 2).map (Token.mapOffsets forget) :=
    List.map_drop.symm
  unfold bracketsStartType
  rw [c.bare_peek?, hdrop, enclosed?_map]
  split
  next => rfl
  next => rfl
  next =>
    -- what follows the closing bracket is the same token
    match enclosed? 0 (c.rest.drop 2) with
    | none => rfl
    | some (_, []) => rfl
    | some (_, [_]) => rfl
    | some (_, _ :: _ :: _) => rfl

/-- The shape of an entry is the same without places. -/
theorem bare_entryShape : c.bare.entryShape = c.entryShape := by
  unfold entryShape EntryShape.ofTokens
  rw [c.bare_peek?, c.bare_peek?]
  split
  next => exact EntryShape.afterName_congr fun _ => c.bare_bracketsStartType
  next => rfl

/-- Whether a member is embedded is the same without places. -/
theorem bare_isEmbedded? : c.bare.isEmbedded? = c.isEmbedded? := by
  unfold isEmbedded? embeds?
  rw [c.bare_peek?, c.bare_peek?]
  split
  next => rfl
  next =>
    exact congrArg some (embedsAfterName_congr fun _ => c.bare_bracketsStartType)
  next => rfl

theorem bare_atMethod : c.bare.atMethod = c.atMethod := by
  unfold atMethod
  rw [c.bare_peek?, c.bare_peek?]

/-- Whether brackets declare type parameters is the same without places. -/
theorem bare_bracketsDeclareTypes :
    c.bare.bracketsDeclareTypes = c.bracketsDeclareTypes := by
  unfold bracketsDeclareTypes
  rw [c.bare_peek?, c.bare_peek?, c.bare_peek?]

end Cursor

/-! ## The grouping of parameters -/

namespace ParamEntry

variable {n : Nat}

/-- An error in the grouping of parameters is reported at one of the
names or entries. -/
theorem groupNamed_error {entries : List ParamEntry}
    (hentries : ∀ entry ∈ entries, entry.span.Within n) :
    ∀ {waiting : List Ident} {e : SyntaxError},
      (∀ name ∈ waiting, name.span.Within n) →
      groupNamed waiting entries = .error e → e.span.Within n := by
  induction entries with
  | nil =>
    intro waiting e hwaiting h
    unfold groupNamed at h
    split at h
    next => cases h
    next last hlast =>
      cases h
      exact hwaiting last (List.mem_of_getLast? hlast)
  | cons entry rest ih =>
    intro waiting e hwaiting h
    obtain ⟨hentry, hrest⟩ := List.forall_mem_cons.mp hentries
    cases entry with
    | bare name =>
      refine ih hrest (fun other hother => ?_) h
      rcases List.mem_append.mp hother with hother | hother
      · exact hwaiting other hother
      · rw [List.mem_singleton.mp hother]
        exact hentry
    | typed name type span =>
      rw [groupNamed] at h
      cases hgroup : groupNamed [] rest with
      | ok fields =>
        rw [hgroup] at h
        cases h
      | error e' =>
        rw [hgroup] at h
        cases h
        exact ih hrest (List.forall_mem_nil _) hgroup
    | unnamed type span =>
      cases h
      exact hentry

/-- The span of an error in grouping is that of an entry, so it lies
within the source. -/
theorem group_error {entries : List ParamEntry} {e : SyntaxError}
    (hentries : ∀ entry ∈ entries, entry.span.Within n) (h : group entries = .error e) :
    e.span.Within n := by
  unfold group at h
  split at h
  · exact groupNamed_error hentries (List.forall_mem_nil _) h
  · cases h

end ParamEntry

namespace Parser

variable {n : Nat}

/-! ## Names and array lengths -/

theorem mirrors_typeName :
    Mirrors n (TypeName.mapOffsets forget) typeName typeName := by
  refine mirrors_here.bind fun s hs => ?_
  refine mirrors_ident.bind fun first _ => ?_
  refine (mirrors_eat _).bind fun dotted _ => ?_
  refine .ite (fun _ => ?_) fun _ => mirrors_pure rfl
  refine mirrors_ident.bind fun name _ => ?_
  exact (mirrors_since hs).bind fun span _ => mirrors_pure rfl

/-- The tokens of a length are the same, and only its span forgets its place. -/
theorem mirrors_arrayLength :
    Mirrors n (LengthExpr.mapOffsets forget) arrayLength arrayLength := by
  intro c hc
  have hbare : enclosed? 0 c.bare.rest = _ := enclosed?_map forget c.rest 0
  cases henclosed : enclosed? 0 c.rest with
  | none =>
    rw [henclosed] at hbare
    dsimp only [arrayLength, AtCursor.arrayLength]
    rw [henclosed, hbare]
    exact .error hc.here
  | some r =>
    rw [henclosed] at hbare
    obtain ⟨_ | ⟨first, more⟩, rest⟩ := r
    · dsimp only [arrayLength, AtCursor.arrayLength]
      rw [henclosed, hbare]
      exact .error hc.here
    · obtain ⟨last, hlast⟩ : ∃ last, (first :: more).getLast? = some last :=
        ⟨_, List.getLast?_eq_some_getLast (List.cons_ne_nil _ _)⟩
      have hlast' : ((first :: more).map (Token.mapOffsets forget)).getLast?
          = some (last.mapOffsets forget) := by
        rw [List.getLast?_map, hlast]
        rfl
      obtain ⟨hrest, -⟩ := enclosed?_eq_some henclosed
      obtain ⟨run, hrun⟩ := List.getLast?_eq_some_iff.mp hlast
      have hsplit : c.rest = run ++ last :: rest := by
        rw [hrest, hrun, List.append_assoc]
        rfl
      have hlength : LengthExpr.ofTokens _
          ((first :: more).map (Token.mapOffsets forget)) = _ :=
        ofTokens_mapOffsets (.clamp first.start last.stop) fun _ _ => rfl
      rw [arrayLength_eq henclosed hlast, arrayLength_eq hbare hlast',
        ← List.map_cons]
      show Mirrored n _ _ _
        (.ok (LengthExpr.ofTokens
        ((Span.clamp first.start last.stop).mapOffsets forget) _, _))
      rw [hlength]
      exact .ok (hc.skip hsplit) trivial

theorem mirrors_arrayBound :
    Mirrors n (ArrayLength.mapOffsets forget) arrayBound arrayBound := by
  refine (mirrors_eat _).bind fun dots _ => ?_
  refine .ite (fun _ => mirrors_pure rfl) fun _ => ?_
  exact mirrors_arrayLength.bind fun length _ => mirrors_pure rfl

theorem mirrors_tag :
    Mirrors n (Option.map (StringLit.mapOffsets forget)) tag? tag? := by
  refine (mirrors_peek 0).bind fun r _ => ?_
  cases r with
  | none => exact mirrors_pure rfl
  | some tok =>
    refine .ite (fun _ => ?_) fun _ => mirrors_pure rfl
    exact mirrors_stringLit.bind fun lit _ => mirrors_pure rfl

/-- The names of a member, if it is not embedded. -/
theorem mirrors_memberNames :
    Mirrors n (List.map (Ident.mapOffsets forget)) memberNames memberNames := by
  refine (mirrors_ask (g := id) fun c => c.bare_isEmbedded?).bind fun embedded _ => ?_
  cases embedded with
  | none => exact mirrors_unexpected
  | some embedded =>
    cases embedded with
    | true => exact mirrors_pure rfl
    | false => exact mirrors_identList

section Forms

variable {inner inner' : Parser TypeExpr}
  (hinner : Mirrors n (TypeExpr.mapOffsets forget) inner inner')

include hinner

/-! ## Names with arguments, and types made of other types -/

/-- An error at empty type arguments has the span of the whole, which lies
within the source. -/
theorem mirrors_typeArguments {s : Span} (hs : s.Within n) (base : TypeName) :
    Mirrors n (TypeExpr.mapOffsets forget) (typeArguments inner s base)
      (typeArguments inner' (s.mapOffsets forget) (base.mapOffsets forget)) := by
  refine (mirrors_commaList hinner).bind fun args _ => ?_
  refine (mirrors_since hs).bind fun span hspan => ?_
  rw [List.isEmpty_map]
  refine .ite (fun _ => mirrors_fail hspan) fun _ => mirrors_pure ?_
  rw [TypeExpr.mapOffsets, mapOffsetsTypes_eq]

/-- Names of types, with or without type arguments. -/
theorem mirrors_namedType :
    Mirrors n (TypeExpr.mapOffsets forget) (namedType inner) (namedType inner') := by
  refine mirrors_here.bind fun s hs => ?_
  refine mirrors_typeName.bind fun base _ => ?_
  refine (mirrors_eat _).bind fun bracket _ => ?_
  exact .ite (fun _ => mirrors_typeArguments hinner hs base) fun _ =>
    mirrors_pure (by rw [TypeExpr.mapOffsets])

theorem mirrors_pointerType :
    Mirrors n (TypeExpr.mapOffsets forget) (pointerType inner)
      (pointerType inner') := by
  refine mirrors_here.bind fun s hs => ?_
  refine mirrors_advance.bind fun _ _ => ?_
  refine hinner.bind fun elem _ => ?_
  exact (mirrors_since hs).bind
    fun span _ => mirrors_pure (by rw [TypeExpr.mapOffsets])

/-- Both sides go on with a slice, or both with an array. -/
theorem mirrors_bracketType :
    Mirrors n (TypeExpr.mapOffsets forget) (bracketType inner)
      (bracketType inner') := by
  refine mirrors_here.bind fun s hs => ?_
  refine mirrors_advance.bind fun _ _ => ?_
  refine (mirrors_eat _).bind fun closes _ => ?_
  refine .ite (fun _ => ?_) fun _ => ?_
  · refine hinner.bind fun elem _ => ?_
    exact (mirrors_since hs).bind
      fun span _ => mirrors_pure (by rw [TypeExpr.mapOffsets])
  · refine mirrors_arrayBound.bind fun length _ => ?_
    refine (mirrors_expect _ _).bind fun _ _ => ?_
    refine hinner.bind fun elem _ => ?_
    exact (mirrors_since hs).bind
      fun span _ => mirrors_pure (by rw [TypeExpr.mapOffsets])

theorem mirrors_mapType :
    Mirrors n (TypeExpr.mapOffsets forget) (mapType inner) (mapType inner') := by
  refine mirrors_here.bind fun s hs => ?_
  refine mirrors_advance.bind fun _ _ => ?_
  refine (mirrors_expect _ _).bind fun _ _ => ?_
  refine hinner.bind fun key _ => ?_
  refine (mirrors_expect _ _).bind fun _ _ => ?_
  refine hinner.bind fun value _ => ?_
  exact (mirrors_since hs).bind
    fun span _ => mirrors_pure (by rw [TypeExpr.mapOffsets])

/-- The direction of a channel is told by a token, not by its place. -/
theorem mirrors_chanType :
    Mirrors n (TypeExpr.mapOffsets forget) (chanType inner) (chanType inner') := by
  refine mirrors_here.bind fun s hs => ?_
  refine mirrors_advance.bind fun _ _ => ?_
  refine (mirrors_eat _).bind fun sends _ => ?_
  refine hinner.bind fun elem _ => ?_
  exact (mirrors_since hs).bind
    fun span _ => mirrors_pure (by rw [TypeExpr.mapOffsets]; rfl)

theorem mirrors_receiveType :
    Mirrors n (TypeExpr.mapOffsets forget) (receiveType inner)
      (receiveType inner') := by
  refine mirrors_here.bind fun s hs => ?_
  refine mirrors_advance.bind fun _ _ => ?_
  refine (mirrors_expect _ _).bind fun _ _ => ?_
  refine hinner.bind fun elem _ => ?_
  exact (mirrors_since hs).bind
    fun span _ => mirrors_pure (by rw [TypeExpr.mapOffsets])

theorem mirrors_parenType :
    Mirrors n (TypeExpr.mapOffsets forget) (parenType inner) (parenType inner') := by
  refine mirrors_here.bind fun s hs => ?_
  refine mirrors_advance.bind fun _ _ => ?_
  refine hinner.bind fun elem _ => ?_
  refine (mirrors_expect _ _).bind fun _ _ => ?_
  exact (mirrors_since hs).bind
    fun span _ => mirrors_pure (by rw [TypeExpr.mapOffsets])

/-! ## Parameters, results and function types -/

/-- Variadic or not is told by a token. -/
theorem mirrors_paramType :
    Mirrors n (TypeExpr.mapOffsets forget) (paramType inner) (paramType inner') := by
  refine mirrors_here.bind fun s hs => ?_
  refine (mirrors_eat _).bind fun dots _ => ?_
  refine .ite (fun _ => ?_) fun _ => hinner
  refine hinner.bind fun elem _ => ?_
  exact (mirrors_since hs).bind
    fun span _ => mirrors_pure (by rw [TypeExpr.mapOffsets])

/-- The span of an entry lies within the source, as grouping may report it. -/
theorem mirrors_typedEntry :
    MirrorsWith n (·.span.Within n) (ParamEntry.mapOffsets forget) (typedEntry inner)
      (typedEntry inner') := by
  refine mirrors_here.bind fun s hs => ?_
  refine mirrors_ident.bind fun name _ => ?_
  refine (mirrors_paramType hinner).bind fun type _ => ?_
  exact (mirrors_since hs).bind fun span hspan => .pure rfl hspan

/-- The same for an entry without a name. -/
theorem mirrors_unnamedEntry :
    MirrorsWith n (·.span.Within n) (ParamEntry.mapOffsets forget)
      (unnamedEntry inner)
      (unnamedEntry inner') := by
  refine mirrors_here.bind fun s hs => ?_
  refine (mirrors_paramType hinner).bind fun type _ => ?_
  exact (mirrors_since hs).bind fun span hspan => .pure rfl hspan

/-- **Entries of a list have the same shape with and without places.** -/
theorem mirrors_paramEntry :
    MirrorsWith n (·.span.Within n) (ParamEntry.mapOffsets forget) (paramEntry inner)
      (paramEntry inner') := by
  refine (mirrors_ask (g := id) fun c => c.bare_entryShape).bind fun shape _ => ?_
  cases shape with
  | bare => exact mirrors_ident.bind fun name hname => .pure rfl hname
  | typed => exact mirrors_typedEntry hinner
  | unnamed => exact mirrors_unnamedEntry hinner

omit hinner in
/-- Grouping looks at the kinds of the entries, and puts spans together without
comparing them. -/
theorem mirrors_group {entries : List ParamEntry}
    (hentries : ∀ entry ∈ entries, entry.span.Within n) :
    Mirrors n (List.map (Field.mapOffsets forget))
      (ofExcept (ParamEntry.group entries))
      (ofExcept (ParamEntry.group (entries.map (ParamEntry.mapOffsets forget)))) := by
  intro c hc
  have hmap := ParamEntry.group_mapOffsets forget entries
  unfold ofExcept
  cases hgroup : ParamEntry.group entries with
  | error e =>
    rw [hgroup] at hmap
    cases hbare : ParamEntry.group (entries.map (ParamEntry.mapOffsets forget)) with
    | error e' => exact .error (ParamEntry.group_error hentries hgroup)
    | ok fields' =>
      rw [hbare] at hmap
      cases hmap
  | ok fields =>
    rw [hgroup] at hmap
    cases hbare : ParamEntry.group (entries.map (ParamEntry.mapOffsets forget)) with
    | error e' =>
      rw [hbare] at hmap
      cases hmap
    | ok fields' =>
      rw [hbare] at hmap
      cases hmap
      exact .ok hc trivial

/-- Parameters are grouped alike on both sides. -/
theorem mirrors_parameters :
    Mirrors n (List.map (Field.mapOffsets forget)) (parameters inner)
      (parameters inner') := by
  refine (mirrors_expect _ _).bind fun _ _ => ?_
  refine (mirrors_commaList (mirrors_paramEntry hinner)).bind
    fun entries hentries => ?_
  exact mirrors_group hentries

theorem mirrors_bareResult :
    Mirrors n (List.map (Field.mapOffsets forget)) (bareResult inner)
      (bareResult inner') := by
  refine mirrors_here.bind fun s hs => ?_
  refine hinner.bind fun type _ => ?_
  exact (mirrors_since hs).bind fun span _ => mirrors_pure rfl

/-- Results in parentheses, a bare one, or none. -/
theorem mirrors_results :
    Mirrors n (List.map (Field.mapOffsets forget)) (results inner)
      (results inner') := by
  refine (mirrors_peek 0).bind fun r _ => ?_
  have hbare : ∀ tok : Tok, Mirrors n (List.map (Field.mapOffsets forget))
      (if tok.startsType then bareResult inner else pure [])
      (if tok.startsType then bareResult inner' else pure []) :=
    fun tok => .ite (fun _ => mirrors_bareResult hinner) fun _ => mirrors_pure rfl
  cases r with
  | none => exact mirrors_pure rfl
  | some tok =>
    cases tok with
    | op o =>
      cases o with
      | openParen => exact mirrors_parameters hinner
      | _ => exact hbare _
    | _ => exact hbare _

/-- Parameters and results. -/
theorem mirrors_signature :
    Mirrors n (Signature.mapOffsets forget) (signature inner) (signature inner') := by
  refine mirrors_here.bind fun s hs => ?_
  refine (mirrors_parameters hinner).bind fun params _ => ?_
  refine (mirrors_results hinner).bind fun results _ => ?_
  exact (mirrors_since hs).bind fun span _ => mirrors_pure rfl

theorem mirrors_funcType :
    Mirrors n (TypeExpr.mapOffsets forget) (funcType inner) (funcType inner') := by
  refine mirrors_here.bind fun s hs => ?_
  refine mirrors_advance.bind fun _ _ => ?_
  refine (mirrors_signature hinner).bind fun sig _ => ?_
  exact (mirrors_since hs).bind
    fun span _ => mirrors_pure (TypeExpr.mapOffsets_func _ _ _)

/-! ## Constraints -/

theorem mirrors_term :
    Mirrors n (Term.mapOffsets forget) (term inner) (term inner') := by
  refine (mirrors_eat _).bind fun tilde _ => ?_
  exact hinner.bind fun type _ => mirrors_pure rfl

/-- Whether a constraint is a union depends on the number of its terms
and on a tilde. -/
theorem mirrors_constraint :
    Mirrors n (TypeExpr.mapOffsets forget) (constraint inner)
      (constraint inner') := by
  refine mirrors_here.bind fun s hs => ?_
  refine (mirrors_separatedList (mirrors_term hinner)).bind fun terms _ => ?_
  refine (mirrors_since hs).bind fun span _ => ?_
  have hunion : (TypeExpr.union span terms).mapOffsets forget
      = .union (span.mapOffsets forget) (terms.map (Term.mapOffsets forget)) := by
    rw [TypeExpr.mapOffsets, mapOffsetsTerms_eq]
  -- a single term without a tilde is a type, everything else a union
  obtain _ | ⟨⟨tilde, type⟩, _ | ⟨second, more⟩⟩ := terms
  · exact mirrors_pure hunion
  · cases tilde with
    | false => exact mirrors_pure rfl
    | true => exact mirrors_pure hunion
  · cases tilde <;> exact mirrors_pure hunion

/-! ## Struct and interface bodies -/

/-- A member of a struct, embedded or not. -/
theorem mirrors_structMember :
    Mirrors n (Field.mapOffsets forget) (structMember inner)
      (structMember inner') := by
  refine mirrors_here.bind fun s hs => ?_
  refine mirrors_memberNames.bind fun names _ => ?_
  refine hinner.bind fun type _ => ?_
  refine mirrors_tag.bind fun tag _ => ?_
  exact (mirrors_since hs).bind fun span _ => mirrors_pure rfl

theorem mirrors_structType :
    Mirrors n (TypeExpr.mapOffsets forget) (structType inner)
      (structType inner') := by
  refine mirrors_here.bind fun s hs => ?_
  refine mirrors_advance.bind fun _ _ => ?_
  refine (mirrors_expect _ _).bind fun _ _ => ?_
  refine (mirrors_memberList (mirrors_structMember hinner)).bind fun fields _ => ?_
  refine (mirrors_since hs).bind fun span _ => mirrors_pure ?_
  rw [TypeExpr.mapOffsets, mapOffsetsFields_eq]

/-- The type of a method gets the span of the signature, with or
without its place. -/
theorem mirrors_method :
    Mirrors n (Field.mapOffsets forget) (method inner) (method inner') := by
  refine mirrors_here.bind fun s hs => ?_
  refine mirrors_ident.bind fun name _ => ?_
  refine (mirrors_signature hinner).bind fun sig _ => ?_
  refine (mirrors_since hs).bind fun span _ => mirrors_pure ?_
  unfold Field.mapOffsets
  rw [TypeExpr.mapOffsets_func]
  rfl

theorem mirrors_embeddedElement :
    Mirrors n (Field.mapOffsets forget) (embeddedElement inner)
      (embeddedElement inner') := by
  refine mirrors_here.bind fun s hs => ?_
  refine (mirrors_constraint hinner).bind fun type _ => ?_
  exact (mirrors_since hs).bind fun span _ => mirrors_pure rfl

/-- Both sides see a method, or both an embedded constraint. -/
theorem mirrors_interfaceElement :
    Mirrors n (Field.mapOffsets forget) (interfaceElement inner)
      (interfaceElement inner') := by
  refine (mirrors_ask (g := id) fun c => c.bare_atMethod).bind fun isMethod _ => ?_
  exact .ite (fun _ => mirrors_method hinner) fun _ => mirrors_embeddedElement hinner

theorem mirrors_interfaceType :
    Mirrors n (TypeExpr.mapOffsets forget) (interfaceType inner)
      (interfaceType inner') := by
  refine mirrors_here.bind fun s hs => ?_
  refine mirrors_advance.bind fun _ _ => ?_
  refine (mirrors_expect _ _).bind fun _ _ => ?_
  refine (mirrors_memberList (mirrors_interfaceElement hinner)).bind fun elems _ => ?_
  refine (mirrors_since hs).bind fun span _ => mirrors_pure ?_
  rw [TypeExpr.mapOffsets, mapOffsetsFields_eq]

/-! ## All forms -/

/-- **Every form of type is read without regard to places**, if the
types in it are. -/
theorem mirrors_typeForm :
    Mirrors n (TypeExpr.mapOffsets forget) (typeForm inner) (typeForm inner') := by
  refine (mirrors_peek 0).bind fun r _ => ?_
  cases r with
  | none => exact mirrors_unexpected
  | some tok =>
    cases tok with
    | ident name => exact mirrors_namedType hinner
    | keyword word =>
      cases word with
      | map => exact mirrors_mapType hinner
      | chan => exact mirrors_chanType hinner
      | func => exact mirrors_funcType hinner
      | struct => exact mirrors_structType hinner
      | interface => exact mirrors_interfaceType hinner
      | _ => exact mirrors_unexpected
    | op o =>
      cases o with
      | star => exact mirrors_pointerType hinner
      | openBracket => exact mirrors_bracketType hinner
      | arrow => exact mirrors_receiveType hinner
      | openParen => exact mirrors_parenType hinner
      | _ => exact mirrors_unexpected
    | literal | error => exact mirrors_unexpected

theorem mirrors_typeParameter :
    Mirrors n (Field.mapOffsets forget) (typeParameter inner)
      (typeParameter inner') := by
  refine mirrors_here.bind fun s hs => ?_
  refine mirrors_identList.bind fun names _ => ?_
  refine (mirrors_constraint hinner).bind fun type _ => ?_
  exact (mirrors_since hs).bind fun span _ => mirrors_pure rfl

/-- An error at an empty list of type parameters has a span within the source. -/
theorem mirrors_typeParameters :
    Mirrors n (List.map (Field.mapOffsets forget)) (typeParameters inner)
      (typeParameters inner') := by
  refine mirrors_advance.bind fun _ _ => ?_
  refine (mirrors_commaList (mirrors_typeParameter hinner)).bind fun params _ => ?_
  refine mirrors_here.bind fun s hs => ?_
  rw [List.isEmpty_map]
  exact .ite (fun _ => mirrors_fail hs) fun _ => mirrors_pure rfl

end Forms

/-- Types of a given depth. -/
theorem mirrors_typeWithin (depth : Nat) :
    Mirrors n (TypeExpr.mapOffsets forget) (typeWithin depth) (typeWithin depth) := by
  induction depth with
  | zero => exact mirrors_unexpected
  | succ depth ih => exact mirrors_typeForm ih

/-- **Types are read without regard to places.** -/
theorem mirrors_typeExpr :
    Mirrors n (TypeExpr.mapOffsets forget) typeExpr typeExpr := by
  intro c hc
  show Mirrored n _ _ ((typeWithin c.rest.length : Parser TypeExpr) c)
    ((typeWithin c.bare.rest.length : Parser TypeExpr) c.bare)
  rw [show c.bare.rest.length = c.rest.length from List.length_map _]
  exact mirrors_typeWithin _ c hc

end Parser

end GoInventory
