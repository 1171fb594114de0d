import GoInventory.Proofs.Syntax.Moving
import GoInventory.Proofs.Syntax.Shape
import GoInventory.Proofs.Syntax.Soundness

/-!
# Types in another place

Every parser of types moves (`movesTypes_typeExpr`). Most of them look one token
ahead. Two look further: the search for the bracket that closes an array length,
and the question whether brackets behind a name start a type, which is answered
by what follows the closing one. A search that finds its bracket finds the same
one when more tokens follow. A search that finds none could find one there; but
then the brackets hold type arguments, and these cannot be parsed without the
bracket that closes them (`ClosesArguments`).
-/

namespace GoInventory

/-! ## The search for a closing bracket -/

/-- How many brackets are open does not depend on places. -/
theorem depthAfter?_mapOffsets (g : Nat → Nat) (tokens : List Token) :
    ∀ depth, depthAfter? depth (tokens.map (Token.mapOffsets g))
      = depthAfter? depth tokens := by
  induction tokens with
  | nil => exact fun _ => rfl
  | cons t tokens ih =>
    intro depth
    have htok : (t.mapOffsets g).tok = t.tok := rfl
    rw [List.map_cons]
    rcases t.tok.bracket_cases with ho | ⟨-, hc⟩ | ⟨ho, hc⟩
    · rw [depthAfter?_opening ho, depthAfter?_opening (htok ▸ ho), ih]
    · cases depth with
      | zero => rw [depthAfter?_closing_zero hc, depthAfter?_closing_zero (htok ▸ hc)]
      | succ outer =>
        rw [depthAfter?_closing_succ hc, depthAfter?_closing_succ (htok ▸ hc), ih]
    · rw [depthAfter?_plain ho hc, depthAfter?_plain (htok ▸ ho) (htok ▸ hc), ih]

/-- A search that finds its bracket finds it in the new place, too. -/
theorem enclosed?_mapOffsets {tokens run rest : List Token} {depth : Nat}
    (h : enclosed? depth tokens = some (run, rest)) (g : Nat → Nat)
    (tail : List Token) :
    enclosed? depth (tokens.map (Token.mapOffsets g) ++ tail)
      = some (run.map (Token.mapOffsets g),
        rest.map (Token.mapOffsets g) ++ tail) := by
  obtain ⟨rfl, hdepth, t, more, rfl, ht⟩ := enclosed?_eq_some h
  have hclosing : (t.mapOffsets g).tok.isClosing = true := ht
  rw [List.map_append, List.append_assoc,
    enclosed?_append ((depthAfter?_mapOffsets g run depth).trans hdepth),
    List.map_cons, List.cons_append, enclosed?_closing_zero hclosing]
  simp

/-! ## Looking ahead -/

namespace Move

variable {m : Move} {c : Cursor}

/-- Whether brackets behind a name start a type is the same in both places, if
they are closed. -/
theorem Admits.bracketsStartType (hc : m.Admits c)
    (hbracket : c.peek? 1 = some (.op .openBracket))
    (hclosed : c.bracketsStartType = false →
      (enclosed? 0 (c.rest.drop 2)).isSome = true) :
    (m.cursor c).bracketsStartType = c.bracketsStartType := by
  have hpeek : (m.cursor c).peek? 2 = c.peek? 2 := hc.peek?_succ hbracket (by decide)
  have hdrop : (m.cursor c).rest.drop 2
      = (c.rest.drop 2).map (Token.mapOffsets (· + m.shift)) ++ m.tail := by
    obtain ⟨t, ht, -⟩ := Option.map_eq_some_iff.mp hbracket
    obtain ⟨hlt, -⟩ := List.getElem?_eq_some_iff.mp ht
    unfold cursor
    rw [List.drop_append_of_le_length (by rw [List.length_map]; exact hlt),
      List.map_drop]
  unfold Cursor.bracketsStartType
  rw [hpeek]
  split
  next => rfl
  next => rfl
  next hclose hdots =>
    cases henclosed : enclosed? 0 (c.rest.drop 2) with
    | none =>
      have hfalse : c.bracketsStartType = false := by
        unfold Cursor.bracketsStartType
        rw [henclosed]
        split
        next heq => exact absurd heq hclose
        next heq => exact absurd heq hdots
        next => rfl
      have hnone := hclosed hfalse
      rw [henclosed] at hnone
      cases hnone
    | some r =>
      obtain ⟨run, rest⟩ := r
      obtain ⟨hsplit, -, t, more, rfl, ht⟩ := enclosed?_eq_some henclosed
      rw [hdrop, enclosed?_mapOffsets henclosed]
      cases more with
      | cons next more => rfl
      | nil =>
        -- the bracket is the last token, so nothing follows it in either place
        have hlast : c.rest = (c.rest.take 2 ++ run) ++ [t] := by
          rw [List.append_assoc, ← hsplit, List.take_append_drop]
        have hne : t.tok ≠ .op .semicolon := by
          intro heq
          rw [heq] at ht
          cases ht
        rw [hc.tail_eq_nil hlast hne]
        rfl

end Move

namespace Parser

open Grammar

/-- A type that starts with a name and a bracket cannot be read without the
bracket that closes it. -/
def ClosesArguments (inner : Parser TypeExpr) : Prop :=
  ∀ ⦃c c' : Cursor⦄ ⦃t : TypeExpr⦄ ⦃name : String⦄, inner c = .ok (t, c') →
    c.peek? 0 = some (.ident name) → c.peek? 1 = some (.op .openBracket) →
    (enclosed? 0 (c.rest.drop 2)).isSome = true

/-- **A name with type arguments that was read has its brackets closed**, so the
search for their end finds it among the tokens that were read. -/
theorem closesArguments_typeForm {inner : Parser TypeExpr}
    (htakes : Takes .anywhere inner (Inner (Spells .anywhere))) :
    ClosesArguments (typeForm inner) := by
  intro c c' t name h hname hbracket
  unfold typeForm announcedForm at h
  rw [peek?_bind, hname] at h
  dsimp only at h
  unfold namedType namedOf at h
  rw [here_bind] at h
  obtain ⟨base, c₁, hbase, h₁⟩ := bind_eq_ok_iff.mp h
  obtain ⟨run, e, hp₁, hrun⟩ := typeName_ok (F := .anywhere) hbase trivial
  obtain ⟨b, c₂, heat, h₂⟩ := bind_eq_ok_iff.mp h₁
  -- no dot follows the name, so the type name is the first token
  cases hrun with
  | qualified _ hdot =>
    rw [Cursor.peek?, hp₁.rest] at hbracket
    cases hdot.symm.trans (Option.some.inj hbracket)
  | @plain n first hfirst =>
    have hnext : c₁.peek? 0 = some (.op .openBracket) := by
      rw [Cursor.peek?, hp₁.rest] at hbracket
      exact hbracket
    rcases eat_ok heat with ⟨rfl, lb, hlb, hp₂⟩ | ⟨-, -, hnot⟩
    · unfold typeArguments typeArgumentsOf at h₂
      obtain ⟨args, c₃, hargs, -⟩ := bind_eq_ok_iff.mp h₂
      obtain ⟨more, hp₃, hlisted⟩ := takes_commaList htakes hargs trivial
      have hbalanced : ∀ a part, Inner (Spells .anywhere) a part → Balanced part := by
        intro a part hpart
        obtain ⟨e, depth, hspells⟩ := hpart
        exact (shaped_spellsWithin depth).balanced hspells
      obtain ⟨body, rb, rfl, hrb, hbody⟩ := hlisted.balanced hbalanced rfl rfl
      have hdrop : c.rest.drop 2 = body ++ rb :: c₃.rest := by
        rw [hp₁.rest, hp₂.rest, hp₃.rest]
        simp
      rw [hdrop, enclosed?_of_balanced hbody (by rw [hrb]; rfl)]
      rfl
    · obtain ⟨u, hu, htok⟩ := Option.map_eq_some_iff.mp hnext
      rw [← List.head?_eq_getElem?] at hu
      exact absurd htok (hnot u hu)

/-! ## Names and array lengths -/

variable {m : Move} {c : Cursor}

/-- Names of types move with their tokens. -/
theorem moves_typeName :
    Moves m (TypeName.mapOffsets (· + m.shift)) typeName typeName := by
  intro c
  refine .here fun s hs => ?_
  refine (moves_ident c).bind fun first c => ?_
  refine (moves_eat (by decide) c).bind fun dotted c => ?_
  cases dotted with
  | false => exact .pure rfl
  | true =>
    refine (moves_ident c).bind fun name c => ?_
    exact (moves_since hs c).bind fun span c => .pure rfl

/-- What the tokens of a length are does not depend on their offsets, if these
are mapped with their spans. -/
theorem ofTokens_mapOffsets {tokens : List Token} {g : Nat → Nat} (s : Span)
    (h : ∀ t ∈ tokens, (t.mapOffsets g).span = t.span.mapOffsets g) :
    LengthExpr.ofTokens (s.mapOffsets g) (tokens.map (Token.mapOffsets g))
      = (LengthExpr.ofTokens s tokens).mapOffsets g := by
  have hspan : ∀ start tok stop, ⟨start, tok, stop⟩ ∈ tokens →
      Span.clamp (g start) (g stop) = (Span.clamp start stop).mapOffsets g :=
    fun _ _ _ hmem => h _ hmem
  conv => rhs; unfold LengthExpr.ofTokens
  split
  next start name stop =>
    show LengthExpr.ident ⟨name, .clamp (g start) (g stop)⟩ = _
    rw [hspan start _ stop List.mem_cons_self]
    rfl
  next start pkg stop _ _ start' sel stop' =>
    show LengthExpr.selector _ ⟨pkg, .clamp (g start) (g stop)⟩
      ⟨sel, .clamp (g start') (g stop')⟩ = _
    rw [hspan start (.ident pkg) stop (by simp),
      hspan start' (.ident sel) stop' (by simp)]
    rfl
  next => rfl
  next hident hselector hliteral =>
    -- the moved tokens match none of the patterns either
    unfold LengthExpr.ofTokens
    split
    next start name stop heq =>
      obtain ⟨⟨start₁, tok₁, stop₁⟩, rfl, ht⟩ := List.map_eq_singleton_iff.mp heq
      cases ht
      exact absurd rfl (hident _ _ _)
    next heq =>
      obtain ⟨⟨_, tok₁, _⟩, rest, rfl, ht, heq⟩ := List.map_eq_cons_iff.mp heq
      obtain ⟨⟨_, tok₂, _⟩, rest, rfl, hu, heq⟩ := List.map_eq_cons_iff.mp heq
      obtain ⟨⟨_, tok₃, _⟩, rfl, hw⟩ := List.map_eq_singleton_iff.mp heq
      cases ht
      cases hu
      cases hw
      exact absurd rfl (hselector _ _ _ _ _ _ _ _)
    next heq =>
      obtain ⟨⟨_, tok₁, _⟩, rfl, ht⟩ := List.map_eq_singleton_iff.mp heq
      cases ht
      exact absurd rfl (hliteral _ _ _ _)
    next => rfl

/-- An array length that is not empty and has an end is taken up to that end. -/
theorem arrayLength_eq {first last : Token} {more rest : List Token}
    (h : enclosed? 0 c.rest = some (first :: more, rest))
    (hlast : (first :: more).getLast? = some last) :
    (arrayLength : Parser LengthExpr) c
      = .ok (.ofTokens (.clamp first.start last.stop) (first :: more),
      c.after last rest) := by
  have hget : (first :: more).getLast (List.cons_ne_nil _ _) = last := by
    rw [List.getLast?_eq_some_getLast (List.cons_ne_nil _ _)] at hlast
    exact Option.some.inj hlast
  dsimp only [arrayLength, AtCursor.arrayLength]
  rw [h, ← hget]

/-- A length moves with its tokens, since the search for its end stays
within the brackets.
-/
theorem moves_arrayLength :
    Moves m (LengthExpr.mapOffsets (· + m.shift)) arrayLength arrayLength := by
  intro c length c' hc heq
  cases henclosed : enclosed? 0 c.rest with
  | none =>
    dsimp only [arrayLength, AtCursor.arrayLength] at heq
    rw [henclosed] at heq
    cases heq
  | some r =>
    obtain ⟨_ | ⟨first, more⟩, rest⟩ := r
    · dsimp only [arrayLength, AtCursor.arrayLength] at heq
      rw [henclosed] at heq
      cases heq
    obtain ⟨last, hlast⟩ : ∃ last, (first :: more).getLast? = some last :=
      ⟨_, List.getLast?_eq_some_getLast (List.cons_ne_nil _ _)⟩
    rw [arrayLength_eq henclosed hlast] at heq
    cases heq
    obtain ⟨hrest, -, t, behind, rfl, -⟩ := enclosed?_eq_some henclosed
    obtain ⟨run, hrun⟩ := List.getLast?_eq_some_iff.mp hlast
    have hsplit : c.rest = run ++ last :: t :: behind := by
      rw [hrest, hrun, List.append_assoc]
      rfl
    have hbounds : ∀ u ∈ first :: more, u.start + m.shift ≤ Span.maxOffset ∧
        u.stop + m.shift ≤ Span.maxOffset := by
      intro u hu
      refine hc.tokens u ?_
      rw [hrest]
      exact List.mem_append_left _ hu
    have hspans : ∀ u ∈ first :: more,
        (u.mapOffsets (· + m.shift)).span = u.span.mapOffsets (· + m.shift) :=
      fun u hu => Span.clamp_add (hbounds u hu).1 (hbounds u hu).2
    have hmoved : enclosed? 0 (m.cursor c).rest = _ :=
      enclosed?_mapOffsets henclosed _ m.tail
    have hlast' : ((first :: more).map (Token.mapOffsets (· + m.shift))).getLast?
        = some (last.mapOffsets (· + m.shift)) := by
      rw [List.getLast?_map, hlast]
      rfl
    have hspan : Span.clamp (first.start + m.shift) (last.stop + m.shift) = _ :=
      Span.clamp_add (hbounds first List.mem_cons_self).1
        (hbounds last (List.mem_of_getLast? hlast)).2
    refine ⟨hc.skip hsplit (Or.inr (List.cons_ne_nil _ _)), ?_⟩
    rw [arrayLength_eq hmoved hlast', ← List.map_cons]
    show Except.ok (LengthExpr.ofTokens
      (.clamp (first.start + m.shift) (last.stop + m.shift)) _, _) = _
    rw [hspan, ofTokens_mapOffsets _ hspans]
    rfl

theorem moves_arrayBound :
    Moves m (ArrayLength.mapOffsets (· + m.shift)) arrayBound arrayBound := by
  intro c
  refine (moves_eat (by decide) c).bind fun dots c => ?_
  cases dots with
  | true => exact .pure rfl
  | false => exact (moves_arrayLength c).bind fun length c => .pure rfl

theorem moves_tag :
    Moves m (Option.map (StringLit.mapOffsets (· + m.shift))) tag? tag? := by
  intro c
  refine .peek fun r _ => ?_
  cases r with
  | none => exact .pure rfl
  | some tok =>
    cases hstring : tok.isString with
    | false =>
      simp only [hstring]
      exact .pure rfl
    | true =>
      simp only [hstring]
      exact (moves_stringLit c).bind fun lit c => .pure rfl

/-- What is needed of a parser of types to move the forms around it. -/
structure MovesTypes (m : Move) (inner inner' : Parser TypeExpr) : Prop where
  moves : Moves m (TypeExpr.mapOffsets (· + m.shift)) inner inner'
  takes : Takes .anywhere inner (Inner (Spells .anywhere))
  closes : ClosesArguments inner

section Forms

variable {inner inner' : Parser TypeExpr} (hinner : MovesTypes m inner inner')

include hinner

/-! ## Names, pointers, arrays, maps, channels and parentheses -/

/-- The span of a name with its type arguments moves as its ends do. -/
theorem moves_typeArguments {s : Span} (hs : s.start + m.shift ≤ Span.maxOffset)
    (base : TypeName) :
    Moves m (TypeExpr.mapOffsets (· + m.shift)) (typeArguments inner s base)
      (typeArguments inner' (s.mapOffsets (· + m.shift))
        (base.mapOffsets (· + m.shift))) := by
  intro c
  refine (moves_commaList (by decide) hinner.moves c).bind fun args c => ?_
  refine (moves_since hs c).bind fun span c => ?_
  cases args with
  | nil => exact movesAt_of_error rfl
  | cons first more => exact .pure (by simp [TypeExpr.mapOffsets])

theorem moves_namedType :
    Moves m (TypeExpr.mapOffsets (· + m.shift)) (namedType inner)
      (namedType inner') := by
  intro c
  refine .here fun s hs => ?_
  refine (moves_typeName c).bind fun base c => ?_
  refine (moves_eat (by decide) c).bind fun applied c => ?_
  cases applied with
  | true => exact moves_typeArguments hinner hs base c
  | false => exact .pure (by simp [TypeExpr.mapOffsets])

theorem movesAt_pointerType (hpeek : c.peek? 0 = some (.op .star)) :
    MovesAt m (TypeExpr.mapOffsets (· + m.shift)) (pointerType inner)
      (pointerType inner') c := by
  refine .here fun s hs => ?_
  refine (movesAt_advance hpeek (by decide)).bind fun _ c => ?_
  refine (hinner.moves c).bind fun elem c => ?_
  exact (moves_since hs c).bind fun span c => .pure (by simp [TypeExpr.mapOffsets])

/-- A slice stays a slice, and the length of an array moves with the tokens
between the brackets. -/
theorem movesAt_bracketType (hpeek : c.peek? 0 = some (.op .openBracket)) :
    MovesAt m (TypeExpr.mapOffsets (· + m.shift)) (bracketType inner)
      (bracketType inner') c := by
  refine .here fun s hs => ?_
  refine (movesAt_advance hpeek (by decide)).bind fun _ c => ?_
  refine (moves_eat (by decide) c).bind fun slice c => ?_
  cases slice with
  | true =>
    refine (hinner.moves c).bind fun elem c => ?_
    exact (moves_since hs c).bind fun span c => .pure (by simp [TypeExpr.mapOffsets])
  | false =>
    refine (moves_arrayBound c).bind fun length c => ?_
    refine (moves_expect (by decide) c).bind fun _ c => ?_
    refine (hinner.moves c).bind fun elem c => ?_
    exact (moves_since hs c).bind fun span c => .pure (by simp [TypeExpr.mapOffsets])

theorem movesAt_mapType (hpeek : c.peek? 0 = some (.keyword .map)) :
    MovesAt m (TypeExpr.mapOffsets (· + m.shift)) (mapType inner)
      (mapType inner') c := by
  refine .here fun s hs => ?_
  refine (movesAt_advance hpeek (by decide)).bind fun _ c => ?_
  refine (moves_expect (by decide) c).bind fun _ c => ?_
  refine (hinner.moves c).bind fun key c => ?_
  refine (moves_expect (by decide) c).bind fun _ c => ?_
  refine (hinner.moves c).bind fun value c => ?_
  exact (moves_since hs c).bind fun span c => .pure (by simp [TypeExpr.mapOffsets])

/-- The direction of a channel does not move. -/
theorem movesAt_chanType (hpeek : c.peek? 0 = some (.keyword .chan)) :
    MovesAt m (TypeExpr.mapOffsets (· + m.shift)) (chanType inner)
      (chanType inner') c := by
  refine .here fun s hs => ?_
  refine (movesAt_advance hpeek (by decide)).bind fun _ c => ?_
  refine (moves_eat (by decide) c).bind fun sends c => ?_
  refine (hinner.moves c).bind fun elem c => ?_
  exact (moves_since hs c).bind fun span c => .pure (by simp [TypeExpr.mapOffsets])

theorem movesAt_receiveType (hpeek : c.peek? 0 = some (.op .arrow)) :
    MovesAt m (TypeExpr.mapOffsets (· + m.shift)) (receiveType inner)
      (receiveType inner') c := by
  refine .here fun s hs => ?_
  refine (movesAt_advance hpeek (by decide)).bind fun _ c => ?_
  refine (moves_expect (by decide) c).bind fun _ c => ?_
  refine (hinner.moves c).bind fun elem c => ?_
  exact (moves_since hs c).bind fun span c => .pure (by simp [TypeExpr.mapOffsets])

theorem movesAt_parenType (hpeek : c.peek? 0 = some (.op .openParen)) :
    MovesAt m (TypeExpr.mapOffsets (· + m.shift)) (parenType inner)
      (parenType inner') c := by
  refine .here fun s hs => ?_
  refine (movesAt_advance hpeek (by decide)).bind fun _ c => ?_
  refine (hinner.moves c).bind fun elem c => ?_
  refine (moves_expect (by decide) c).bind fun _ c => ?_
  exact (moves_since hs c).bind fun span c => .pure (by simp [TypeExpr.mapOffsets])

/-! ## Parameters, results and function types -/

/-- A variadic parameter moves with its ellipsis. -/
theorem moves_paramType :
    Moves m (TypeExpr.mapOffsets (· + m.shift)) (paramType inner)
      (paramType inner') := by
  intro c
  refine .here fun s hs => ?_
  refine (moves_eat (by decide) c).bind fun dots c => ?_
  cases dots with
  | true =>
    refine (hinner.moves c).bind fun elem c => ?_
    exact (moves_since hs c).bind fun span c => .pure (by simp [TypeExpr.mapOffsets])
  | false => exact hinner.moves c

/-- A name and a type move together. -/
theorem moves_typedEntry :
    Moves m (ParamEntry.mapOffsets (· + m.shift)) (typedEntry inner)
      (typedEntry inner') := by
  intro c
  refine .here fun s hs => ?_
  refine (moves_ident c).bind fun name c => ?_
  refine (moves_paramType hinner c).bind fun type c => ?_
  exact (moves_since hs c).bind fun span c => .pure rfl

theorem moves_unnamedEntry :
    Moves m (ParamEntry.mapOffsets (· + m.shift)) (unnamedEntry inner)
      (unnamedEntry inner') := by
  intro c
  refine .here fun s hs => ?_
  refine (moves_paramType hinner c).bind fun type c => ?_
  exact (moves_since hs c).bind fun span c => .pure rfl

omit hinner in
/-- A parameter without a name that starts with a name and a bracket is read as
the type arguments of the name. -/
theorem closed_of_unnamedEntry (hcloses : ClosesArguments inner) {c : Cursor}
    {r : ParamEntry × Cursor} {name : String} (h : unnamedEntry inner c = .ok r)
    (hname : c.peek? 0 = some (.ident name))
    (hbracket : c.peek? 1 = some (.op .openBracket)) :
    (enclosed? 0 (c.rest.drop 2)).isSome = true := by
  obtain ⟨entry, c'⟩ := r
  obtain ⟨type, d, htype, -⟩ := spanned_ok h
  unfold paramType paramTypeOf at htype
  rw [here_bind] at htype
  obtain ⟨dots, d', heat, htype⟩ := bind_eq_ok_iff.mp htype
  rcases eat_ok heat with ⟨rfl, t, ht, hp⟩ | ⟨rfl, rfl, -⟩
  · rw [Cursor.peek?, hp.rest] at hname
    cases ht.symm.trans (Option.some.inj hname)
  · exact hcloses htype hname hbracket

omit hinner in
/-- What a parameter looks like is the same in both places, if it can be read. -/
theorem entryShape_eq (hcloses : ClosesArguments inner) (hc : m.Admits c)
    (h : c.entryShape = .unnamed → ∃ r, unnamedEntry inner c = .ok r) :
    (m.cursor c).entryShape = c.entryShape := by
  unfold Cursor.entryShape EntryShape.ofTokens at h ⊢
  rw [hc.peek?_zero]
  split
  next name hname =>
    rw [hname] at h
    rw [hc.peek?_succ hname nofun]
    refine EntryShape.afterName_congr fun hbracket => ?_
    refine hc.bracketsStartType hbracket fun hfalse => ?_
    obtain ⟨r, hr⟩ := h (by rw [hbracket]; exact if_neg (by simp [hfalse]))
    exact closed_of_unnamedEntry hcloses hr hname hbracket
  next => rfl

/-- **An entry has the same shape before and after the move**, since what the
lookahead sees is followed by the same tokens. -/
theorem moves_paramEntry :
    Moves m (ParamEntry.mapOffsets (· + m.shift)) (paramEntry inner)
      (paramEntry inner') := by
  intro c
  refine .ask (g := id) (fun hc hok => entryShape_eq hinner.closes hc
    fun hshape => ?_) ?_
  · rw [hshape] at hok
    exact hok
  · cases c.entryShape with
    | bare => exact (moves_ident c).bind fun name c => .pure rfl
    | typed => exact moves_typedEntry hinner c
    | unnamed => exact moves_unnamedEntry hinner c

omit hinner in
/-- Groups move as their entries do. -/
theorem moves_group (entries : List ParamEntry) :
    Moves m (List.map (Field.mapOffsets (· + m.shift)))
      (ofExcept (ParamEntry.group entries))
      (ofExcept (ParamEntry.group
        (entries.map (ParamEntry.mapOffsets (· + m.shift))))) := by
  intro c fields c' hc heq
  have hmap := ParamEntry.group_mapOffsets (· + m.shift) entries
  unfold ofExcept at heq ⊢
  cases hgroup : ParamEntry.group entries with
  | error e =>
    rw [hgroup] at heq
    cases heq
  | ok found =>
    rw [hgroup] at heq hmap
    cases heq
    cases hgroup' :
      ParamEntry.group (entries.map (ParamEntry.mapOffsets (· + m.shift))) with
    | error e =>
      rw [hgroup'] at hmap
      cases hmap
    | ok found' =>
      rw [hgroup'] at hmap
      cases hmap
      exact ⟨hc, rfl⟩

/-- Parameters move with their list. -/
theorem moves_parameters :
    Moves m (List.map (Field.mapOffsets (· + m.shift))) (parameters inner)
      (parameters inner') := by
  intro c
  refine (moves_expect (by decide) c).bind fun _ c => ?_
  refine (moves_commaList (by decide) (moves_paramEntry hinner) c).bind
    fun entries c => ?_
  exact moves_group entries c

theorem moves_bareResult :
    Moves m (List.map (Field.mapOffsets (· + m.shift))) (bareResult inner)
      (bareResult inner') := by
  intro c
  refine .here fun s hs => ?_
  refine (hinner.moves c).bind fun type c => ?_
  exact (moves_since hs c).bind fun span c => .pure rfl

/-- What announces results is within the tokens that move. -/
theorem moves_results :
    Moves m (List.map (Field.mapOffsets (· + m.shift))) (results inner)
      (results inner') := by
  intro c
  refine .peek fun r _ => ?_
  have hbare : ∀ tok : Tok, MovesAt m (List.map (Field.mapOffsets (· + m.shift)))
      (if tok.startsType then bareResult inner else pure [])
      (if tok.startsType then bareResult inner' else pure []) c := by
    intro tok
    split
    · exact moves_bareResult hinner c
    · exact .pure rfl
  cases r with
  | none => exact .pure rfl
  | some tok =>
    cases tok with
    | op o =>
      cases o with
      | openParen => exact moves_parameters hinner c
      | _ => exact hbare _
    | _ => exact hbare _

/-- Parameters and results move together. -/
theorem moves_signature :
    Moves m (Signature.mapOffsets (· + m.shift)) (signature inner)
      (signature inner') := by
  intro c
  refine .here fun s hs => ?_
  refine (moves_parameters hinner c).bind fun params c => ?_
  refine (moves_results hinner c).bind fun results c => ?_
  exact (moves_since hs c).bind fun span c => .pure rfl

theorem movesAt_funcType (hpeek : c.peek? 0 = some (.keyword .func)) :
    MovesAt m (TypeExpr.mapOffsets (· + m.shift)) (funcType inner)
      (funcType inner') c := by
  refine .here fun s hs => ?_
  refine (movesAt_advance hpeek (by decide)).bind fun _ c => ?_
  refine (moves_signature hinner c).bind fun sig c => ?_
  exact (moves_since hs c).bind fun span c => .pure (TypeExpr.mapOffsets_func _ _ _)

/-! ## Constraints -/

theorem moves_term :
    Moves m (Term.mapOffsets (· + m.shift)) (term inner) (term inner') := by
  intro c
  refine (moves_eat (by decide) c).bind fun tilde c => ?_
  exact (hinner.moves c).bind fun type c => .pure rfl

/-- Whether there is a union does not depend on places. -/
theorem moves_constraint :
    Moves m (TypeExpr.mapOffsets (· + m.shift)) (constraint inner)
      (constraint inner') := by
  intro c
  refine .here fun s hs => ?_
  refine (moves_separatedList (by decide) (moves_term hinner)
    (takes_term hinner.takes) c).bind
    fun terms c => ?_
  refine (moves_since hs c).bind fun span c => ?_
  have hunion : (TypeExpr.union span terms).mapOffsets (· + m.shift)
      = .union (span.mapOffsets (· + m.shift))
        (terms.map (Term.mapOffsets (· + m.shift))) := by
    rw [TypeExpr.mapOffsets, mapOffsetsTerms_eq]
  -- a single term without a tilde is a type, everything else a union
  obtain _ | ⟨⟨tilde, type⟩, _ | ⟨second, more⟩⟩ := terms
  · exact .pure hunion
  · cases tilde with
    | false => exact .pure rfl
    | true => exact .pure hunion
  · cases tilde <;> exact .pure hunion

/-! ## Struct and interface bodies -/

omit hinner in
/-- Whether a member is embedded is the same in both places, if it can be read. -/
theorem isEmbedded?_eq (hcloses : ClosesArguments inner) (hc : m.Admits c)
    (h : c.isEmbedded? = some true → ∃ r, inner c = .ok r) :
    (m.cursor c).isEmbedded? = c.isEmbedded? := by
  unfold Cursor.isEmbedded? embeds? at h ⊢
  rw [hc.peek?_zero]
  split
  next => rfl
  next name hname =>
    rw [hname] at h
    rw [hc.peek?_succ hname nofun]
    refine congrArg some (embedsAfterName_congr fun hbracket => ?_)
    refine hc.bracketsStartType hbracket fun hfalse => ?_
    obtain ⟨⟨t, c'⟩, hr⟩ :=
      h (by rw [hbracket]; exact congrArg (fun b => some (!b)) hfalse)
    exact hcloses hr hname hbracket
  next => rfl

omit hinner in
/-- Whether a member is embedded is decided alike, if it can be read as one. -/
theorem movesAt_memberNames (hcloses : ClosesArguments inner)
    (h : c.isEmbedded? = some true → ∃ r, inner c = .ok r) :
    MovesAt m (List.map (Ident.mapOffsets (· + m.shift)))
      memberNames memberNames c := by
  refine .ask (g := id) (fun hc _ => isEmbedded?_eq hcloses hc h) ?_
  cases c.isEmbedded? with
  | none => exact movesAt_unexpected
  | some embedded =>
    cases embedded with
    | true => exact .pure rfl
    | false => exact moves_identList c

/-- A member moves with its names, its type and its tag. -/
theorem moves_structMember :
    Moves m (Field.mapOffsets (· + m.shift)) (structMember inner)
      (structMember inner') := by
  intro c f c' hc heq
  -- an embedded member has no names, so its type is read from here
  have hembedded : c.isEmbedded? = some true → ∃ r, inner c = .ok r := by
    intro htrue
    unfold structMember structMemberOf at heq
    rw [here_bind] at heq
    obtain ⟨names, c₁, hnames, heq⟩ := bind_eq_ok_iff.mp heq
    unfold memberNames announcedNames at hnames
    rw [isEmbedded?_bind, htrue] at hnames
    cases hnames
    obtain ⟨t, c₂, ht, -⟩ := bind_eq_ok_iff.mp heq
    exact ⟨_, ht⟩
  have hmoves : MovesAt m (Field.mapOffsets (· + m.shift)) (structMember inner)
      (structMember inner') c := by
    refine .here fun s hs => ?_
    refine (movesAt_memberNames hinner.closes hembedded).bind fun names c => ?_
    refine (hinner.moves c).bind fun type c => ?_
    refine (moves_tag c).bind fun tag c => ?_
    exact (moves_since hs c).bind fun span c => .pure rfl
  exact hmoves hc heq

theorem movesAt_structType (hpeek : c.peek? 0 = some (.keyword .struct)) :
    MovesAt m (TypeExpr.mapOffsets (· + m.shift)) (structType inner)
      (structType inner') c := by
  refine .here fun s hs => ?_
  refine (movesAt_advance hpeek (by decide)).bind fun _ c => ?_
  refine (moves_expect (by decide) c).bind fun _ c => ?_
  refine (moves_memberList (by decide) (moves_structMember hinner)
    (takes_structMember hinner.takes) c).bind fun fields c => ?_
  exact (moves_since hs c).bind fun span c => .pure (by simp [TypeExpr.mapOffsets])

/-- A method moves with its signature. -/
theorem moves_method :
    Moves m (Field.mapOffsets (· + m.shift)) (method inner) (method inner') := by
  intro c
  refine .here fun s hs => ?_
  refine (moves_ident c).bind fun name c => ?_
  refine (moves_signature hinner c).bind fun sig c => ?_
  refine (moves_since hs c).bind fun span c => .pure ?_
  unfold Field.mapOffsets
  rw [TypeExpr.mapOffsets_func]
  rfl

theorem moves_embeddedElement :
    Moves m (Field.mapOffsets (· + m.shift)) (embeddedElement inner)
      (embeddedElement inner') := by
  intro c
  refine .here fun s hs => ?_
  refine (moves_constraint hinner c).bind fun type c => ?_
  exact (moves_since hs c).bind fun span c => .pure rfl

omit hinner in
/-- Whether a method is next is told by two tokens, which move. -/
theorem atMethod_eq (hc : m.Admits c) : (m.cursor c).atMethod = c.atMethod := by
  unfold Cursor.atMethod opensMethod
  rw [hc.peek?_zero]
  cases hpeek : c.peek? 0 with
  | none => rfl
  | some tok =>
    cases tok with
    | ident name => rw [hc.peek?_succ hpeek nofun]
    | _ => rfl

/-- A method stays one, and so does what is embedded. -/
theorem moves_interfaceElement :
    Moves m (Field.mapOffsets (· + m.shift)) (interfaceElement inner)
      (interfaceElement inner') := by
  intro c
  refine .ask (g := id) (fun hc _ => atMethod_eq hc) ?_
  cases c.atMethod with
  | true => exact moves_method hinner c
  | false => exact moves_embeddedElement hinner c

theorem movesAt_interfaceType (hpeek : c.peek? 0 = some (.keyword .interface)) :
    MovesAt m (TypeExpr.mapOffsets (· + m.shift)) (interfaceType inner)
      (interfaceType inner') c := by
  refine .here fun s hs => ?_
  refine (movesAt_advance hpeek (by decide)).bind fun _ c => ?_
  refine (moves_expect (by decide) c).bind fun _ c => ?_
  refine (moves_memberList (by decide) (moves_interfaceElement hinner)
    (takes_interfaceElement hinner.takes) c).bind fun elems c => ?_
  exact (moves_since hs c).bind fun span c => .pure (by simp [TypeExpr.mapOffsets])

/-! ## All forms -/

/-- **Every form of type moves**, if the types in it do. -/
theorem moves_typeForm :
    Moves m (TypeExpr.mapOffsets (· + m.shift)) (typeForm inner)
      (typeForm inner') := by
  intro c
  refine .peek fun r hpeek => ?_
  cases r with
  | none => exact movesAt_unexpected
  | some tok =>
    cases tok with
    | ident name => exact moves_namedType hinner c
    | keyword word =>
      cases word with
      | map => exact movesAt_mapType hinner hpeek
      | chan => exact movesAt_chanType hinner hpeek
      | func => exact movesAt_funcType hinner hpeek
      | struct => exact movesAt_structType hinner hpeek
      | interface => exact movesAt_interfaceType hinner hpeek
      | _ => exact movesAt_unexpected
    | op o =>
      cases o with
      | star => exact movesAt_pointerType hinner hpeek
      | openBracket => exact movesAt_bracketType hinner hpeek
      | arrow => exact movesAt_receiveType hinner hpeek
      | openParen => exact movesAt_parenType hinner hpeek
      | _ => exact movesAt_unexpected
    | literal | error => exact movesAt_unexpected

/-- The names of a group of type parameters move with its constraint. -/
theorem moves_typeParameter :
    Moves m (Field.mapOffsets (· + m.shift)) (typeParameter inner)
      (typeParameter inner') := by
  intro c
  refine .here fun s hs => ?_
  refine (moves_identList c).bind fun names c => ?_
  refine (moves_constraint hinner c).bind fun type c => ?_
  exact (moves_since hs c).bind fun span c => .pure rfl

/-- A list of type parameters moves from its opening bracket on. -/
theorem movesAt_typeParameters (hpeek : c.peek? 0 = some (.op .openBracket)) :
    MovesAt m (List.map (Field.mapOffsets (· + m.shift))) (typeParameters inner)
      (typeParameters inner') c := by
  refine (movesAt_advance hpeek (by decide)).bind fun _ c => ?_
  refine (moves_commaList (by decide) (moves_typeParameter hinner) c).bind
    fun params c => ?_
  refine .here fun s hs => ?_
  cases params with
  | nil => exact movesAt_of_error rfl
  | cons first more => exact .pure rfl

end Forms

/-- The bound on the depth may be larger after the move, when more
tokens are ahead. -/
theorem movesTypes_typeWithin (n : Nat) :
    ∀ n', n ≤ n' → MovesTypes m (typeWithin n) (typeWithin n') := by
  induction n with
  | zero =>
    intro n' _
    refine ⟨fun c => movesAt_of_error rfl, takes_typeWithin 0, ?_⟩
    intro c c' t name h
    cases h
  | succ n ih =>
    intro n' hn'
    obtain ⟨n', rfl⟩ :=
      Nat.exists_eq_add_of_le' (Nat.le_trans (Nat.le_add_left 1 n) hn')
    exact ⟨moves_typeForm (ih n' (Nat.le_of_succ_le_succ hn')),
      takes_typeWithin (n + 1),
      closesArguments_typeForm (takes_typeWithin n)⟩

/-- **Types can be read in another place.** -/
theorem movesTypes_typeExpr : MovesTypes m typeExpr typeExpr where
  moves := fun c _ _ hc heq =>
    (movesTypes_typeWithin _ _ (m.length_le_cursor c)).moves c hc heq
  takes := takes_typeExpr
  closes := fun c _ _ _ heq =>
    (movesTypes_typeWithin (m := m) c.rest.length _ (Nat.le_refl _)).closes heq

end Parser

end GoInventory
