import GoInventory.Proofs.Arena.Builder
import GoInventory.Proofs.Syntax.FileSoundness

/-!
# Builders are parsers that keep what they read

A builder looks at the tokens alone to decide what comes next, and never at what
it has put into the arena. So what it keeps can be put off until everything has
been read (`Builder.keep_read`), and each builder is its parser, followed by
putting the tree that was read into the arena (`Builder.Builds`). For a whole
file this is `buildSource_eq`: what is true of an arena that a source was read
into is true of one that a tree was put into, and can be proved along the tree.

Only parameters need a look at the tokens. Their fields are made in a second
round, from the entries and not from the groups that the tree has
(`Builder.builds_resolve`), and a name on its own gets its type node in the
second round if it was an entry of its own, but in the first if it was read as a
type. The second never happens in a list: behind such a name there would have to
be a comma or the closing parenthesis, and then it would have been an entry of
its own (`Builder.settled_of_commaList`).
-/

namespace GoInventory

open Arena

instance : LawfulMonad Parser := by
  refine LawfulMonad.mk' Parser ?_ ?_ ?_
  · intro α p
    funext c
    show (match p c with
      | .ok (a, c') => (pure (id a) : Parser α) c'
      | .error e => .error e) = p c
    cases p c <;> rfl
  · intro α β a f
    rfl
  · intro α β γ p f g
    funext c
    rw [Parser.bind_apply, Parser.bind_apply, Parser.bind_apply]
    cases p c <;> rfl

/-- Put the parts of an entry into the arena. -/
def ParamEntry.store {hash : String → UInt64} : ParamEntry → Store hash EntryRef
  | .bare name => do
    let name' ← name.store
    pure (.bare name' name.span)
  | .typed name type span => do
    let name' ← name.store
    let type' ← type.store
    pure (.typed name' type' span)
  | .unnamed type span => do
    let type' ← type.store
    pure (.unnamed type' span)

namespace Builder

open TokenReader

variable {hash : String → UInt64} {α β γ : Type}

/-! ## Reading and keeping -/

theorem read_pure (a : α) : (read (pure a) : Builder hash α) = pure a := by
  funext A
  exact pure_bind ..

/-- Reading goes through the steps of a parser one by one. -/
theorem read_bind (p : Parser α) (f : α → Parser β) :
    (read (p >>= f) : Builder hash β) = read p >>= fun a => read (f a) := by
  funext A
  show (p >>= f) >>= _ = (p >>= fun a => pure (a, A))
    >>= fun r => (read (f r.1) : Builder hash β) r.2
  simp only [bind_assoc, pure_bind]
  rfl

theorem keep_pure (a : α) : (keep (pure a) : Builder hash α) = pure a := rfl

/-- Keeping goes through the steps of a store one by one. -/
theorem keep_bind (s : Store hash α) (f : α → Store hash β) :
    keep (s >>= f) = keep s >>= fun a => keep (f a) := by
  funext A
  show pure _ = (pure (s A) : Parser _) >>= fun r => keep (f r.1) r.2
  rw [pure_bind]
  rfl

/-- What is kept does not change what is read, so reading may come first. -/
theorem keep_read (s : Store hash α) (p : Parser β) (f : α → β → Builder hash γ) :
    (keep s >>= fun a => read p >>= fun b => f a b)
      = read p >>= fun b => keep s >>= fun a => f a b := by
  funext A
  show (pure (s A) : Parser _)
    >>= (fun r => (p >>= fun b => pure (b, r.2)) >>= fun q => f r.1 q.1 q.2)
    = (p >>= fun b => pure (b, A))
      >>= fun q => (pure (s q.2) : Parser _) >>= fun r => f r.1 q.1 r.2
  simp only [bind_assoc, pure_bind]

/-- After an error nothing is read or kept. -/
theorem fail_bind (span : Span) (fault : SyntaxFault) (f : α → Builder hash β) :
    (read (.fail span fault) >>= f : Builder hash β) = read (.fail span fault) := rfl

/-- Behind the error that something else was expected nothing is read
or kept either. -/
theorem unexpected_bind (expected : Expected) (f : α → Builder hash β) :
    (read (.unexpected expected) >>= f : Builder hash β)
      = read (.unexpected expected) := rfl

/-- What has been kept is lost with an error, as the arena is part of the result. -/
theorem keep_fail (s : Store hash α) (span : Span) (fault : SyntaxFault) :
    (keep s >>= fun _ => read (.fail span fault) : Builder hash β)
      = read (.fail span fault) := rfl

theorem keep_unexpected (s : Store hash α) (expected : Expected) :
    (keep s >>= fun _ => read (.unexpected expected) : Builder hash β)
      = read (.unexpected expected) := rfl

theorem read_ofExcept_ok (a : α) :
    (read (.ofExcept (.ok a)) : Builder hash α) = pure a :=
  read_pure a

theorem read_ite (b : Bool) (p q : Parser α) :
    (read (if b then p else q) : Builder hash α) = if b then read p else read q := by
  cases b <;> rfl

theorem ite_bind (b : Bool) (x y : Builder hash α) (f : α → Builder hash β) :
    (if b then x else y) >>= f = if b then x >>= f else y >>= f := by
  cases b <;> rfl

/-- A choice that does not depend on what is kept can be made before it. -/
theorem keep_ite (s : Store hash α) (b : Bool) (f g : α → Builder hash β) :
    (keep s >>= fun a => if b then f a else g a) = if b then keep s >>= f
      else keep s >>= g := by
  cases b <;> rfl

/-- A token that the grammar demands is read as by the parser. -/
theorem expect_eq (tok : Tok) (expected : Expected) :
    (expect tok expected : Builder hash Unit) = read (expect tok expected) := by
  show (read (.eat tok) >>= fun b => if b then pure ()
    else read (.unexpected expected)) = _
  unfold expect
  simp only [read_bind, read_ite, read_pure]

theorem isNext_eq (tok : Tok) :
    (isNext tok : Builder hash Bool) = read (isNext tok) := by
  show (read (.peek? 0) >>= fun next => pure (next == some tok)) = _
  unfold isNext
  simp only [read_bind, read_pure]

/-- What a builder reads is what the parser reads. -/
theorem reads_alike :
    (here : Builder hash Span) = read here ∧
      (advance : Builder hash Unit) = read advance ∧
    (∀ n, (peek? n : Builder hash (Option Tok)) = read (peek? n)) ∧
    (∀ tok, (eat tok : Builder hash Bool) = read (eat tok)) ∧
    (∀ first, (since first : Builder hash Span) = read (since first)) ∧
    (∀ tok expected, (expect tok expected : Builder hash Unit)
      = read (expect tok expected)) ∧
    (∀ tok, (isNext tok : Builder hash Bool) = read (isNext tok)) ∧
    (∀ expected, (terminator expected : Builder hash Unit)
      = read (terminator expected)) ∧
    (∀ start, (skipBody start : Builder hash Unit) = read (skipBody start)) ∧
    (∀ start, (skipExpressions start : Builder hash Unit)
      = read (skipExpressions start)) ∧
    (TokenReader.ident : Builder hash Ident) = read TokenReader.ident ∧
    (TokenReader.stringLit : Builder hash StringLit) = read TokenReader.stringLit ∧
    (TokenReader.arrayLength : Builder hash LengthExpr)
      = read TokenReader.arrayLength ∧
    (entryShape : Builder hash EntryShape) = read entryShape ∧
    (isEmbedded? : Builder hash (Option Bool)) = read isEmbedded? ∧
    (atMethod : Builder hash Bool) = read atMethod ∧
    (atTypeParameters : Builder hash Bool) = read atTypeParameters ∧
    (∀ (α : Type) span fault, (fail span fault : Builder hash α)
      = read (fail span fault)) ∧
    (∀ (α : Type) expected, (unexpected expected : Builder hash α)
      = read (unexpected expected)) :=
  ⟨rfl, rfl, fun _ => rfl, fun _ => rfl, fun _ => rfl, expect_eq, isNext_eq,
    fun _ => rfl, fun _ => rfl,
    fun _ => rfl, rfl, rfl, rfl, rfl, rfl, rfl,
    rfl, fun _ _ _ => rfl, fun _ _ => rfl⟩

/-- Only what a parser can give counts for what follows. -/
theorem read_congr {p : Parser α} {f g : α → Builder hash β}
    (h : ∀ c a c', p c = .ok (a, c') → f a = g a) : read p >>= f = read p >>= g := by
  funext A c
  show ((p >>= fun a => pure (a, A)) >>= fun r => f r.1 r.2) c
    = ((p >>= fun a => pure (a, A)) >>= fun r => g r.1 r.2) c
  rw [bind_assoc, bind_assoc, Parser.bind_apply, Parser.bind_apply]
  cases hp : p c with
  | error e => rfl
  | ok r =>
    obtain ⟨a, c'⟩ := r
    dsimp only
    rw [pure_bind, pure_bind, h c a c' hp]

/-- What is kept of a list is empty if the list is. -/
theorem keep_mapM_isEmpty (as : List α) (s : α → Store hash β) (x : Builder hash γ)
    (f : List β → Builder hash γ) :
    (keep (as.mapM s) >>= fun bs => if bs.isEmpty then x else f bs)
      = if as.isEmpty then x else keep (as.mapM s) >>= f := by
  cases as with
  | nil => rfl
  | cons a as =>
    simp only [List.mapM_cons, keep_bind, keep_pure, bind_assoc, pure_bind,
      List.isEmpty_cons, Bool.false_eq_true, if_false]

/-- The builder does what the parser does, and then puts into the arena what
that has read. -/
def Builds (b : Builder hash β) (p : Parser α) (s : α → Store hash β) : Prop :=
  b = read p >>= fun a => keep (s a)

/-! ## Lists -/

/-- Both sides count down from the same bound, since a builder has the
cursor of its parser.
-/
theorem builds_bounded {b : Nat → Builder hash β} {p : Nat → Parser α}
    {s : α → Store hash β} (h : ∀ bound, Builds (b bound) (p bound) s) :
    Builds (bounded b) (bounded p) s := by
  funext A c
  show b (c.rest.length + 1) A c = _
  rw [h (c.rest.length + 1)]
  rfl

section Lists

variable {item' : Builder hash β} {item : Parser α} {s : α → Store hash β}
  (h : Builds item' item s)

include h

/-- The items of a list are kept in order, after the whole list has been read. -/
theorem builds_commaList (close : Operator) (itemEnd : Expected) :
    Builds (commaList close itemEnd item') (commaList close itemEnd item)
      (·.mapM s) := by
  refine builds_bounded fun bound => ?_
  unfold Builds at h ⊢
  subst h
  induction bound with
  | zero => rfl
  | succ bound ih =>
    unfold commaItems
    simp only [ih, reads_alike, read_bind, read_pure, read_ite, ite_bind, keep_ite,
      bind_assoc, pure_bind, keep_read,
      List.mapM_nil, List.mapM_cons, keep_bind, keep_pure]

omit h in
theorem memberEnd_eq (close : Operator) (expected : Expected) :
    (memberEnd close expected : Builder hash Unit)
      = read (memberEnd close expected) := by
  unfold memberEnd
  simp only [reads_alike, read_bind, read_ite, read_pure]

/-- The same for lists in which each item is followed by a semicolon. -/
theorem builds_memberList (close : Operator) (itemEnd : Expected) :
    Builds (memberList close itemEnd item') (memberList close itemEnd item)
      (·.mapM s) := by
  refine builds_bounded fun bound => ?_
  unfold Builds at h ⊢
  subst h
  induction bound with
  | zero => rfl
  | succ bound ih =>
    unfold memberItems
    simp only [ih, reads_alike, memberEnd_eq, read_bind, read_pure, read_ite,
      ite_bind, bind_assoc, pure_bind, keep_read,
      List.mapM_nil, List.mapM_cons, keep_bind, keep_pure]

/-- The same for lists with one item or more. -/
theorem builds_separatedList (separator : Operator) :
    Builds (separatedList separator item') (separatedList separator item)
      (·.mapM s) := by
  refine builds_bounded fun bound => ?_
  unfold Builds at h ⊢
  subst h
  induction bound with
  | zero => rfl
  | succ bound ih =>
    unfold separatedItems
    simp only [ih, reads_alike, read_bind, read_pure, read_ite, ite_bind, keep_ite,
      bind_assoc, pure_bind, keep_read,
      List.mapM_nil, List.mapM_cons, keep_bind, keep_pure]

end Lists

/-! ## Choices

What is read next is decided by the tokens ahead, so both sides take
the same branch. -/

section Choices

variable {p' q' r' : Builder hash β} {p q r : Parser α} {s : α → Store hash β}

/-- A string literal that is there is kept. -/
theorem builds_ifString (h : Builds p' p s) :
    Builds (ifString p') (ifString p) (storeOption s) := by
  unfold Builds at h ⊢
  unfold ifString
  rw [read_bind, bind_assoc]
  refine bind_congr fun tok => ?_
  cases tok with
  | none => rfl
  | some tok =>
    simp only [h, read_bind, read_pure, read_ite, ite_bind, bind_assoc, pure_bind,
      storeOption, keep_bind, keep_pure]

/-- A type that is there is kept. -/
theorem builds_ifType (h : Builds p' p s) :
    Builds (ifType p') (ifType p) (storeOption s) := by
  unfold Builds at h ⊢
  unfold ifType
  rw [read_bind, bind_assoc]
  refine bind_congr fun tok => ?_
  cases tok with
  | none => rfl
  | some tok =>
    simp only [h, read_bind, read_pure, read_ite, ite_bind, bind_assoc, pure_bind,
      storeOption, keep_bind, keep_pure]

/-- What a token announces is kept, if the token is there. -/
theorem builds_ifNext (tok : Tok) (h : Builds p' p s) :
    Builds (ifNext tok p') (ifNext tok p) (storeOption s) := by
  unfold Builds at h ⊢
  subst h
  unfold ifNext
  simp only [reads_alike, read_bind, read_pure, read_ite, ite_bind, bind_assoc,
    pure_bind, storeOption, keep_bind, keep_pure]

/-- A name that is there is kept, and so is what is made of a dot. -/
theorem builds_ifName {dot' : Span → Builder hash β} {dot : Span → Parser α}
    (hdot : ∀ span, Builds (dot' span) (dot span) s) (h : Builds p' p s) :
    Builds (ifName dot' p') (ifName dot p) (storeOption s) := by
  unfold Builds at hdot h ⊢
  unfold ifName
  rw [read_bind, bind_assoc]
  refine bind_congr fun tok => ?_
  split
  · simp only [hdot, reads_alike, read_bind, read_pure, bind_assoc, pure_bind,
      storeOption, keep_bind, keep_pure]
  · simp only [h, read_bind, read_pure, bind_assoc, pure_bind, storeOption, keep_bind,
      keep_pure]
  · rfl

/-- The shape of an entry is asked of the tokens. -/
theorem builds_announcedEntry (hbare : Builds p' p s) (htyped : Builds q' q s)
    (hunnamed : Builds r' r s) :
    Builds (announcedEntry p' q' r') (announcedEntry p q r) s := by
  unfold Builds announcedEntry
  rw [read_bind, bind_assoc]
  refine bind_congr fun shape => ?_
  cases shape with
  | bare => exact hbare
  | typed => exact htyped
  | unnamed => exact hunnamed

/-- And so is whether a member of a struct is embedded. -/
theorem builds_announcedNames {embedded' : β} {embedded : α}
    (hembedded : s embedded = pure embedded') (h : Builds p' p s) :
    Builds (announcedNames embedded' p') (announcedNames embedded p) s := by
  unfold Builds announcedNames
  rw [read_bind, bind_assoc]
  refine bind_congr fun answer => ?_
  match answer with
  | none => rfl
  | some true => rw [read_pure, pure_bind, hembedded, keep_pure]
  | some false => exact h

/-- And whether an element of an interface is a method. -/
theorem builds_announcedElement (hmethod : Builds p' p s) (hembedded : Builds q' q s) :
    Builds (announcedElement p' q') (announcedElement p q) s := by
  unfold Builds at hmethod hembedded ⊢
  unfold announcedElement
  simp only [hmethod, hembedded, reads_alike, read_bind, read_ite,
    ite_bind, bind_assoc]

end Choices

/-! ## Forms that several types share

If the parts are built as they are read, then so is the form, when what is made
of the parts is put into the arena behind them. -/

section Shared

variable {δ : Type} {part' : Builder hash β} {part : Parser α} {s : α → Store hash β}
  {t : δ → Store hash γ} (h : Builds part' part s)

include h

/-- Something, and the span that it covers. -/
theorem builds_spanned {make' : Span → β → Builder hash γ}
    {make : Span → α → Parser δ}
    (hmake : ∀ span a, keep (s a) >>= make' span
      = read (make span a) >>= fun made => keep (t made)) :
    Builds (spanned part' make') (spanned part make) t := by
  unfold Builds at h ⊢
  subst h
  unfold spanned
  simp only [reads_alike, read_bind, bind_assoc, keep_read, hmake]

/-- The same behind the token that announces it. -/
theorem builds_behindToken {make' : Span → β → Builder hash γ}
    {make : Span → α → Parser δ}
    (hmake : ∀ span a, keep (s a) >>= make' span
      = read (make span a) >>= fun made => keep (t made)) :
    Builds (behindToken part' make') (behindToken part make) t := by
  unfold Builds at h ⊢
  subst h
  unfold behindToken
  simp only [reads_alike, read_bind, bind_assoc, keep_read, hmake]

/-- The members are linked when the closing brace has been read. -/
theorem builds_bracedOf {opened itemEnd : Expected}
    {make' : Span → List β → Builder hash γ} {make : Span → List α → Parser δ}
    (hmake : ∀ span items, keep (items.mapM s) >>= make' span
      = read (make span items) >>= fun made => keep (t made)) :
    Builds (bracedOf opened itemEnd part' make') (bracedOf opened itemEnd part make)
      t := by
  have hitems := builds_memberList h .closeBrace itemEnd
  unfold Builds at hitems ⊢
  unfold bracedOf
  simp only [hitems, reads_alike, read_bind, bind_assoc, keep_read, hmake]

end Shared

/-! ## Names and literals -/

theorem builds_ident : Builds (ident : Builder hash _) .ident Ident.store := rfl

/-- The names of a list are put into the arena in order. -/
theorem builds_identList :
    Builds (identList : Builder hash _) .identList (·.mapM Ident.store) :=
  builds_separatedList builds_ident .comma

/-- A list of names has at least one. -/
theorem isEmpty_identList {c c' : Cursor} {names : List Ident}
    (h : (Parser.identList : Parser (List Ident)) c = .ok (names, c')) :
    names.isEmpty = false := by
  obtain ⟨run, -, hrun⟩ := Parser.takes_identList (F := .anywhere) h trivial
  cases hrun <;> rfl

/-- A tag that is there is put into the arena behind the type. -/
theorem builds_tag? :
    Builds (tag? : Builder hash _) .tag? (storeOption StringLit.store) :=
  builds_ifString rfl

/-- Names that are there become a list of their own. -/
theorem builds_nameList : Builds (nameList : Builder hash _) .identList
    fun names => names.mapM Ident.store >>= makeNames names := by
  have hlist : (identList : Builder hash _) = _ := builds_identList
  unfold Builds nameList
  rw [hlist, bind_assoc]
  refine read_congr fun c names c' hnames => ?_
  unfold makeNames
  dsimp only
  rw [isEmpty_identList hnames, keep_bind]
  rfl

/-- An embedded member has the empty list of names. -/
theorem builds_memberNames : Builds (memberNames : Builder hash _) .memberNames
    fun names => names.mapM Ident.store >>= makeNames names :=
  builds_announcedNames rfl builds_nameList

/-- A qualified name puts both of its identifiers into the arena before its node. -/
theorem builds_typeName :
    Builds (typeName : Builder hash _) Parser.typeName TypeName.store := by
  unfold Builds typeName Parser.typeName ident typeNameOf
  simp only [reads_alike, read_bind, read_pure, read_ite, ite_bind, keep_ite,
    bind_assoc, pure_bind, keep_read, TypeName.store,
    Ident.store, keep_bind, keep_pure]

/-! ## Types -/

section Forms

variable {inner' : Builder hash (NodeId .type)} {inner : Parser TypeExpr}
  (h : Builds inner' inner TypeExpr.store)

include h

/-- Pointer types: the node goes into the arena behind the node of the
type pointed to. -/
theorem builds_pointerType :
    Builds (pointerType inner') (Parser.pointerType inner) TypeExpr.store := by
  refine builds_behindToken h fun span elem => ?_
  simp only [read_pure, pure_bind, TypeExpr.store, keep_bind]

/-- Map types: the key goes before the value, and the node behind both. -/
theorem builds_mapType :
    Builds (mapType inner') (Parser.mapType inner) TypeExpr.store := by
  unfold Builds at h ⊢
  subst h
  unfold mapType Parser.mapType mapOf
  simp only [reads_alike, read_bind, read_pure, bind_assoc, pure_bind, keep_read,
    TypeExpr.store, keep_bind]

/-- Channel types: the direction is read from the tokens, and only the element
is kept before the node. -/
theorem builds_chanType :
    Builds (chanType inner') (Parser.chanType inner) TypeExpr.store := by
  unfold Builds at h ⊢
  subst h
  unfold chanType Parser.chanType chanOf
  simp only [reads_alike, read_bind, read_pure, bind_assoc, pure_bind, keep_read,
    TypeExpr.store, keep_bind]

theorem builds_receiveType :
    Builds (receiveType inner') (Parser.receiveType inner) TypeExpr.store := by
  unfold Builds at h ⊢
  subst h
  unfold receiveType Parser.receiveType receiveOf
  simp only [reads_alike, read_bind, read_pure, bind_assoc, pure_bind, keep_read,
    TypeExpr.store, keep_bind]

theorem builds_parenType :
    Builds (parenType inner') (Parser.parenType inner) TypeExpr.store := by
  unfold Builds at h ⊢
  subst h
  unfold parenType Parser.parenType parenOf
  simp only [reads_alike, read_bind, read_pure, bind_assoc, pure_bind, keep_read,
    TypeExpr.store, keep_bind]

/-- Array and slice types: the length goes into the arena before the element. -/
theorem builds_bracketType :
    Builds (bracketType inner') (Parser.bracketType inner) TypeExpr.store := by
  unfold Builds at h ⊢
  subst h
  unfold bracketType Parser.bracketType arrayBound Parser.arrayBound arrayLength
    bracketOf arrayBoundOf
  simp only [reads_alike, read_bind, read_pure, read_ite, ite_bind, bind_assoc,
    pure_bind, keep_read, TypeExpr.store, ArrayLength.store, keep_bind]

/-- Type arguments are linked after the last of them. If there is none, the node
of the base is lost with the error. -/
theorem builds_namedType :
    Builds (namedType inner') (Parser.namedType inner) TypeExpr.store := by
  have hargs := builds_commaList h .closeBracket .typeArgumentEnd
  unfold Builds at hargs ⊢
  unfold namedType Parser.namedType typeArguments Parser.typeArguments namedOf
    typeArgumentsOf
  rw [hargs, builds_typeName]
  simp only [reads_alike, read_bind, read_pure, read_ite, ite_bind, keep_ite,
    bind_assoc, pure_bind, keep_read, TypeExpr.store,
    keep_bind, storeTypes_eq, bind_pure, keep_mapM_isEmpty, fail_bind, keep_fail]

/-- A variadic parameter has a node around the type of its elements. -/
theorem builds_paramType :
    Builds (paramType inner') (Parser.paramType inner) TypeExpr.store := by
  unfold Builds at h ⊢
  subst h
  unfold paramType Parser.paramType paramTypeOf
  simp only [reads_alike, read_bind, read_pure, read_ite, ite_bind, bind_assoc,
    pure_bind, keep_read, TypeExpr.store, keep_bind]

omit h in
theorem builds_bareEntry :
    Builds (bareEntry : Builder hash _) Parser.bareEntry ParamEntry.store := by
  unfold Builds bareEntry Parser.bareEntry ident
  simp only [reads_alike, read_bind, read_pure, bind_assoc, pure_bind,
    ParamEntry.store, Ident.store, keep_bind, keep_pure]

/-- An entry puts its name into the arena before its type. -/
theorem builds_typedEntry :
    Builds (typedEntry inner') (Parser.typedEntry inner) ParamEntry.store := by
  have htype := builds_paramType h
  unfold Builds at htype ⊢
  unfold typedEntry Parser.typedEntry ident typedEntryOf
  simp only [htype, reads_alike, read_bind, read_pure, bind_assoc, pure_bind,
    keep_read, ParamEntry.store, keep_bind, keep_pure]

theorem builds_unnamedEntry :
    Builds (unnamedEntry inner') (Parser.unnamedEntry inner) ParamEntry.store := by
  refine builds_spanned (builds_paramType h) fun span type => ?_
  simp only [read_pure, pure_bind, ParamEntry.store, keep_bind, keep_pure]

theorem builds_paramEntry :
    Builds (paramEntry inner') (Parser.paramEntry inner) ParamEntry.store :=
  builds_announcedEntry builds_bareEntry (builds_typedEntry h) (builds_unnamedEntry h)

end Forms

/-! ## Parameters

The entries of a list are grouped after their parts have been put into the arena. -/

/-- The groups of a list in which every entry needs a name. -/
def groupNamed (pending : List IdentRef) (start : Option Nat) :
    List EntryRef → Except SyntaxError (List HeldField)
  | [] =>
    match pending.getLast? with
    | none => .ok []
    | some last => .error ⟨last.span, .missingParameterType⟩
  | .bare name span :: rest =>
    groupNamed (pending ++ [name]) (start.or (some span.start)) rest
  | .typed name type span :: rest =>
    (groupNamed [] none rest).map
      (.named (pending ++ [name]) type ⟨start.getD span.start, span.stop⟩ :: ·)
  | .unnamed _ span :: _ => .error ⟨span, .mixedParameters⟩

/-- The second round for named parameters is grouping, and then making a field
of each group. -/
theorem resolveNamed_eq (entries : List EntryRef) :
    ∀ (pending : List IdentRef) (start : Option Nat),
    (resolveNamed pending start entries : Builder hash _)
      = read (.ofExcept (groupNamed pending start entries))
        >>= fun held => keep (held.mapM HeldField.settle) := by
  induction entries with
  | nil =>
    intro pending start
    unfold resolveNamed groupNamed
    cases pending.getLast? <;> rfl
  | cons entry rest ih =>
    intro pending start
    cases entry with
    | bare name span => exact ih _ _
    | unnamed type span => rfl
    | typed name type span =>
      unfold resolveNamed groupNamed
      rw [ih]
      cases groupNamed [] none rest with
      | error e => rfl
      | ok held =>
        simp only [Except.map, read_ofExcept_ok, bind_assoc, pure_bind,
          List.mapM_cons, HeldField.settle, keep_bind, keep_pure]

section Held

/-- Putting names into the arena does not change their spans. -/
theorem spans_store (names : List Ident) : ∀ A : Arena hash,
    (names.mapM Ident.store A).1.map (·.span) = names.map (·.span) := by
  induction names with
  | nil => intro A; rfl
  | cons name names ih =>
    intro A
    rw [List.mapM_cons]
    exact congrArg (name.span :: ·) (ih (name.store A).2)

/-- Whether the list is one of named parameters can be asked of the entries or
of what they are stored as. -/
theorem isTyped_store (entries : List ParamEntry) : ∀ A : Arena hash,
    (entries.mapM ParamEntry.store A).1.any EntryRef.isTyped
      = entries.any ParamEntry.isTyped := by
  induction entries with
  | nil => intro A; rfl
  | cons entry entries ih =>
    intro A
    rw [List.mapM_cons]
    have htyped : (entry.store A).1.isTyped = entry.isTyped := by cases entry <;> rfl
    show ((entry.store A).1
      :: (entries.mapM ParamEntry.store (entry.store A).2).1).any EntryRef.isTyped = _
    rw [List.any_cons, List.any_cons, htyped, ih]

/-- Grouping what the entries go by gives what the groups go by. The names in
`pending` are those that have been put into the arena before. -/
def GroupsAlike (entries : List ParamEntry) (pending : List Ident) (A : Arena hash) :
    Prop :=
  match ParamEntry.groupNamed pending entries with
  | .error e =>
    groupNamed (pending.mapM Ident.store A).1 (pending.head?.map (·.span.start))
      (entries.mapM ParamEntry.store (pending.mapM Ident.store A).2).1 = .error e
  | .ok fields =>
    groupNamed (pending.mapM Ident.store A).1 (pending.head?.map (·.span.start))
      (entries.mapM ParamEntry.store (pending.mapM Ident.store A).2).1
        = .ok (fields.mapM Field.hold A).1 ∧
    (entries.mapM ParamEntry.store (pending.mapM Ident.store A).2).2
      = (fields.mapM Field.hold A).2

/-- A further name is put into the arena behind those that already wait. -/
theorem mapM_store_snoc (pending : List Ident) (name : Ident) (A : Arena hash) :
    (pending ++ [name]).mapM Ident.store A
      = ((pending.mapM Ident.store A).1
        ++ [(name.store (pending.mapM Ident.store A).2).1],
        (name.store (pending.mapM Ident.store A).2).2) := by
  rw [List.mapM_append]
  rfl

/-- A field with names puts its names into the arena, and its type behind them. -/
theorem hold_snoc (pending : List Ident) (name : Ident) (type : TypeExpr)
    (span : Span) (A : Arena hash) :
    (Field.mk (pending ++ [name]) type none span).hold A
      = (.named ((pending.mapM Ident.store A).1
        ++ [(name.store (pending.mapM Ident.store A).2).1])
          (type.store (name.store (pending.mapM Ident.store A).2).2).1 span,
        (type.store (name.store (pending.mapM Ident.store A).2).2).2) := by
  have hbare : (Field.mk (pending ++ [name]) type none span).bare? = none := by
    cases pending <;> rfl
  have hempty : (pending ++ [name]).isEmpty = false := by
    cases pending <;> rfl
  unfold Field.hold
  rw [hbare]
  dsimp only
  rw [hempty]
  show ((HeldField.named ((pending ++ [name]).mapM Ident.store A).1
    (type.store ((pending ++ [name]).mapM Ident.store A).2).1 span,
    (type.store ((pending ++ [name]).mapM Ident.store A).2).2) :
      HeldField × Arena hash) = _
  rw [mapM_store_snoc]

/-- At the end of the list the last name that waits is the one without a type. -/
theorem groupsAlike_nil (pending : List Ident) (A : Arena hash) :
    GroupsAlike [] pending A := by
  have hlast : (pending.mapM Ident.store A).1.getLast?.map (·.span)
      = pending.getLast?.map (·.span) := by
    rw [← List.getLast?_map, spans_store, List.getLast?_map]
  unfold GroupsAlike ParamEntry.groupNamed
  cases hpending : pending.getLast? with
  | none =>
    rw [List.getLast?_eq_none_iff.mp hpending]
    exact ⟨rfl, rfl⟩
  | some last =>
    rw [hpending] at hlast
    obtain ⟨last', hlast', hspan⟩ := Option.map_eq_some_iff.mp hlast
    have hspan' : last'.span = last.span := hspan
    show groupNamed _ _ [] = _
    unfold groupNamed
    rw [hlast']
    dsimp only
    rw [hspan']

/-- A bare name waits for the type of a later entry, and has been put into the
arena as one of those that wait. -/
theorem groupsAlike_bare {name : Ident} {entries : List ParamEntry}
    {pending : List Ident} {A : Arena hash}
    (h : GroupsAlike entries (pending ++ [name]) A) :
    GroupsAlike (.bare name :: entries) pending A := by
  have hstart : (pending ++ [name]).head?.map (·.span.start)
      = (pending.head?.map (·.span.start)).or (some name.span.start) := by
    cases pending <;> rfl
  unfold GroupsAlike at h ⊢
  rw [mapM_store_snoc, hstart] at h
  rw [List.mapM_cons]
  exact h

/-- An entry without a name is an error for both, at its span. -/
theorem groupsAlike_unnamed {type : TypeExpr} {span : Span}
    {entries : List ParamEntry} {pending : List Ident} {A : Arena hash} :
    GroupsAlike (.unnamed type span :: entries) pending A := by
  unfold GroupsAlike ParamEntry.groupNamed
  dsimp only
  rw [List.mapM_cons]
  rfl

/-- A name with a type closes the group of those that wait. -/
theorem groupsAlike_typed {name : Ident} {type : TypeExpr} {span : Span}
    {entries : List ParamEntry} {pending : List Ident} {A : Arena hash}
    (h : GroupsAlike entries []
      (type.store (name.store (pending.mapM Ident.store A).2).2).2) :
    GroupsAlike (.typed name type span :: entries) pending A := by
  have hstart : (pending.head?.map (·.span.start)).getD span.start
      = ParamEntry.groupStart pending span := by
    cases pending <;> rfl
  unfold GroupsAlike at h ⊢
  unfold ParamEntry.groupNamed
  rw [List.mapM_cons]
  cases hgroup : ParamEntry.groupNamed [] entries with
  | error e =>
    rw [hgroup] at h
    show Except.map _ (groupNamed [] none _) = .error e
    exact congrArg (Except.map _) h
  | ok fields =>
    rw [hgroup] at h
    obtain ⟨hheld, harena⟩ := h
    dsimp only [Except.map]
    rw [List.mapM_cons]
    show Except.map
      (HeldField.named _ _ ⟨(pending.head?.map (·.span.start)).getD span.start,
      span.stop⟩ :: ·)
        (groupNamed [] none _)
          = .ok ((Field.hold _ A).1
          :: (fields.mapM Field.hold (Field.hold _ A).2).1) ∧
      _ = (fields.mapM Field.hold (Field.hold _ A).2).2
    rw [hold_snoc, hstart]
    exact ⟨congrArg (Except.map _) hheld, harena⟩

/-- **Grouping the entries before or after their parts are stored gives the same
groups**, in the same arena. -/
theorem groupNamed_store (entries : List ParamEntry) :
    ∀ (pending : List Ident) (A : Arena hash),
    GroupsAlike entries pending A := by
  induction entries with
  | nil => exact groupsAlike_nil
  | cons entry entries ih =>
    intro pending A
    cases entry with
    | bare name => exact groupsAlike_bare (ih (pending ++ [name]) A)
    | unnamed type span => exact groupsAlike_unnamed
    | typed name type span => exact groupsAlike_typed (ih [] _)

/-- What an entry of a list without names is to be made into. -/
def toHeld : EntryRef → HeldField
  | .bare name span => .bare name span
  | .typed _ type span | .unnamed type span => .unnamed type span

/-- The two ways to make a field of an entry without a name agree. -/
theorem settle_toHeld :
    (HeldField.settle ∘ toHeld : EntryRef → Store hash _) = settleUnnamed := by
  funext entry
  cases entry <;> rfl

/-- A type that is a name on its own is not an entry without a name, since such
an entry is bare. -/
def Settled (entry : ParamEntry) : Prop :=
  ∀ name span, entry ≠ .unnamed (.named (.plain name)) span

/-- An entry without a name is held as it was stored, if it is not a name that
was read as a type. -/
theorem hold_asUnnamed {entry : ParamEntry} (hsettled : Settled entry)
    (htyped : entry.isTyped = false) :
    (entry.asUnnamed.hold : Store hash _)
      = entry.store >>= fun ref => pure (toHeld ref) := by
  cases entry with
  | bare name => rfl
  | typed => cases htyped
  | unnamed type span =>
    have hbare : (ParamEntry.unnamed type span).asUnnamed.bare? = none := by
      unfold Field.bare? ParamEntry.asUnnamed
      dsimp only
      split
      next name _ => exact absurd rfl (hsettled _ span)
      next => rfl
    unfold Field.hold
    rw [hbare]
    rfl

/-- The same for all entries of a list. -/
theorem mapM_hold_asUnnamed {entries : List ParamEntry}
    (hsettled : ∀ entry ∈ entries, Settled entry)
    (htyped : entries.any ParamEntry.isTyped = false) :
    ((entries.map ParamEntry.asUnnamed).mapM Field.hold : Store hash _)
      = entries.mapM ParamEntry.store >>= fun refs => pure (refs.map toHeld) := by
  induction entries with
  | nil => rfl
  | cons entry entries ih =>
    obtain ⟨hfirst, hothers⟩ := List.forall_mem_cons.mp hsettled
    rw [List.any_cons, Bool.or_eq_false_iff] at htyped
    rw [List.map_cons, List.mapM_cons, List.mapM_cons, hold_asUnnamed hfirst htyped.1,
      ih hothers htyped.2]
    simp only [bind_assoc, pure_bind, List.map_cons]

/-- **The fields of a list are those of its groups.** -/
theorem builds_resolve {entries : List ParamEntry}
    (hsettled : ∀ entry ∈ entries, Settled entry) :
    (keep (entries.mapM ParamEntry.store) >>= resolve : Builder hash _)
      = read (.ofExcept (ParamEntry.group entries))
        >>= fun fields => keep (storeParams fields) := by
  funext A
  show resolve (entries.mapM ParamEntry.store A).1
    (entries.mapM ParamEntry.store A).2 = _
  unfold resolve ParamEntry.group
  rw [isTyped_store]
  cases htyped : entries.any ParamEntry.isTyped with
  | true =>
    have hgroup : GroupsAlike entries [] A := groupNamed_store entries [] A
    unfold GroupsAlike at hgroup
    rw [if_pos rfl, if_pos rfl, resolveNamed_eq]
    cases hfields : ParamEntry.groupNamed [] entries with
    | error e =>
      rw [hfields] at hgroup
      have hrefs : groupNamed [] none (entries.mapM ParamEntry.store A).1
          = .error e := hgroup
      rw [hrefs]
      rfl
    | ok fields =>
      rw [hfields] at hgroup
      obtain ⟨hheld, harena⟩ := hgroup
      have hrefs : groupNamed [] none (entries.mapM ParamEntry.store A).1
          = .ok (fields.mapM Field.hold A).1 := hheld
      have hsame : (entries.mapM ParamEntry.store A).2
          = (fields.mapM Field.hold A).2 := harena
      rw [hrefs, hsame, read_ofExcept_ok, read_ofExcept_ok, pure_bind, pure_bind]
      rfl
  | false =>
    -- no entry has a name, so each becomes a field of its own
    rw [if_neg Bool.false_ne_true, if_neg Bool.false_ne_true,
      read_ofExcept_ok, pure_bind]
    unfold storeParams
    rw [mapM_hold_asUnnamed hsettled htyped, bind_assoc]
    simp only [pure_bind, List.mapM_map, settle_toHeld]
    rfl

end Held

section Entries

open Grammar

/-- An item after which neither a comma nor the closing operator comes is
not in a list. -/
theorem forall_of_commaItems {item : Parser α} {P : α → Prop} {close : Operator}
    {itemEnd : Expected}
    (hitem : ∀ {c c' : Cursor} {a : α}, item c = .ok (a, c') → ¬ P a →
      ∀ t ∈ c'.rest.head?, t.tok ≠ .op .comma ∧ t.tok ≠ .op close) (bound : Nat) :
    ∀ {c c' : Cursor} {as : List α},
      Parser.commaItems close itemEnd item bound c = .ok (as, c') →
      ∀ a ∈ as, P a := by
  induction bound with
  | zero => intro c c' as h; cases h
  | succ bound ih =>
    intro c c' as h
    obtain ⟨b, c₁, heat, h₁⟩ := Parser.bind_eq_ok_iff.mp h
    rcases Parser.eat_ok heat with ⟨rfl, -⟩ | ⟨rfl, rfl, -⟩
    · cases h₁
      intro a ha
      cases ha
    obtain ⟨a, c₂, hfirst, h₂⟩ := Parser.bind_eq_ok_iff.mp h₁
    have hP : ∀ {t : Token} {c₃ : Cursor}, c₂.Passes [t] c₃ →
        t.tok = .op .comma ∨ t.tok = .op close → P a := by
      intro t c₃ hp ht
      by_contra hnot
      have hhead := hitem hfirst hnot t (by rw [hp.rest]; rfl)
      rcases ht with ht | ht
      · exact hhead.1 ht
      · exact hhead.2 ht
    obtain ⟨b, c₃, heat₂, h₃⟩ := Parser.bind_eq_ok_iff.mp h₂
    rcases Parser.eat_ok heat₂ with ⟨rfl, sep, hsep, hp⟩ | ⟨rfl, rfl, -⟩
    · obtain ⟨others, c₄, hothers, h₄⟩ := Parser.bind_eq_ok_iff.mp h₃
      cases h₄
      exact List.forall_mem_cons.mpr ⟨hP hp (.inl hsep), ih hothers⟩
    · obtain ⟨_, c₄, hclose, h₄⟩ := Parser.bind_eq_ok_iff.mp h₃
      cases h₄
      obtain ⟨t, ht, hp⟩ := Parser.expect_ok hclose
      exact List.forall_mem_cons.mpr ⟨hP hp (.inr ht), fun _ hmem => by cases hmem⟩

variable {inner : Parser TypeExpr}
  (htakes : Parser.Takes .anywhere inner (Inner (Spells .anywhere)))

include htakes

omit htakes in
/-- An entry that is just a type has been read as one. -/
theorem inner_of_unnamedEntry {c c' : Cursor} {name : Ident} {span : Span}
    (h : Parser.unnamedEntry inner c
      = .ok (.unnamed (.named (.plain name)) span, c')) :
    inner c = .ok (.named (.plain name), c') := by
  obtain ⟨type, c₁, htype, hmake⟩ := Parser.spanned_ok h
  cases hmake
  unfold Parser.paramType Parser.paramTypeOf at htype
  rw [Parser.here_bind] at htype
  obtain ⟨dots, c₂, heat, h₂⟩ := Parser.bind_eq_ok_iff.mp htype
  rcases Parser.eat_ok heat with ⟨rfl, -⟩ | ⟨rfl, rfl, -⟩
  · -- behind an ellipsis the type would be variadic
    obtain ⟨elem, c₃, -, h₃⟩ := Parser.bind_eq_ok_iff.mp h₂
    cases h₃
  · exact h₂

omit htakes in
/-- Before a comma or the closing parenthesis a name is an entry of its own. -/
theorem next_of_unnamed {c : Cursor} {name : String} {tok : Tok}
    (hshape : c.entryShape = .unnamed) (hfirst : c.peek? 0 = some (.ident name))
    (hnext : c.peek? 1 = some tok) : tok ≠ .op .comma ∧ tok ≠ .op .closeParen := by
  unfold Cursor.entryShape at hshape
  rw [hfirst, hnext] at hshape
  constructor
  · rintro rfl
    cases hshape
  · rintro rfl
    cases hshape

/-- If an entry without a name is a name on its own, then the list cannot go on. -/
theorem settled_of_paramEntry {c c' : Cursor} {entry : ParamEntry}
    (h : Parser.paramEntry inner c = .ok (entry, c')) (hnot : ¬ Settled entry) :
    ∀ t ∈ c'.rest.head?, t.tok ≠ .op .comma ∧ t.tok ≠ .op .closeParen := by
  unfold Settled at hnot
  push Not at hnot
  obtain ⟨name, span, rfl⟩ := hnot
  unfold Parser.paramEntry Parser.announcedEntry at h
  rw [Parser.entryShape_bind] at h
  cases hshape : c.entryShape with
  | bare =>
    rw [hshape] at h
    obtain ⟨n, c₁, -, h₁⟩ := Parser.bind_eq_ok_iff.mp h
    cases h₁
  | typed =>
    rw [hshape] at h
    obtain ⟨start, c₁, -, h₁⟩ := Parser.bind_eq_ok_iff.mp h
    obtain ⟨n, c₂, -, h₂⟩ := Parser.bind_eq_ok_iff.mp h₁
    obtain ⟨type, c₃, -, h₃⟩ := Parser.bind_eq_ok_iff.mp h₂
    obtain ⟨s, c₄, -, h₄⟩ := Parser.bind_eq_ok_iff.mp h₃
    cases h₄
  | unnamed =>
    rw [hshape] at h
    obtain ⟨run, hp, e, hspells⟩ := htakes (inner_of_unnamedEntry h) trivial
    cases spells_iff.mp hspells with
    | named hname =>
      cases hname with
      | @plain _ u hu =>
        intro t ht
        have hfirst : c.peek? 0 = some (.ident name.name) := by
          unfold Cursor.peek?
          rw [hp.rest, ← hu.1]
          rfl
        have hnext : c.peek? 1 = some t.tok := by
          unfold Cursor.peek?
          rw [hp.rest, List.getElem?_append_right (Nat.le_refl 1)]
          rw [List.head?_eq_getElem?] at ht
          exact congrArg (Option.map Token.tok) ht
        exact next_of_unnamed hshape hfirst hnext

/-- **In a list every name on its own is an entry of its own**, and was
not read as a type.
-/
theorem settled_of_commaList {c c' : Cursor} {entries : List ParamEntry}
    (h : Parser.commaList .closeParen .parameterEnd (Parser.paramEntry inner) c
      = .ok (entries, c')) : ∀ entry ∈ entries, Settled entry :=
  forall_of_commaItems
    (fun hentry hnot => settled_of_paramEntry htakes hentry hnot) _ h

end Entries

/-! ## Signatures and members -/

section Forms

variable {inner' : Builder hash (NodeId .type)} {inner : Parser TypeExpr}
  (h : Builds inner' inner TypeExpr.store)
  (htakes : Parser.Takes .anywhere inner (Grammar.Inner (Grammar.Spells .anywhere)))

include h

/-- A result without parentheses is a field without a name. If its type is a
name, the name waits for the second round, but nothing comes in between. -/
theorem builds_bareResult :
    Builds (bareResult inner') (Parser.bareResult inner) storeParams := by
  refine builds_spanned h fun span type => ?_
  rw [read_pure, pure_bind]
  unfold storeParams Field.hold
  cases hbare : Field.bare? ⟨[], type, none, span⟩ with
  | none =>
    simp only [List.mapM_cons, List.mapM_nil, bind_assoc, pure_bind, hbare,
      List.isEmpty_nil, if_true, HeldField.settle, keep_bind, keep_pure]
  | some name =>
    -- the name is put into the arena in the second round, but nothing comes between
    obtain ⟨-, htype⟩ := Field.bare?_eq_some hbare
    dsimp only at htype
    subst htype
    simp only [List.mapM_cons, List.mapM_nil, bind_assoc, pure_bind, hbare,
      HeldField.settle, TypeExpr.store,
      TypeName.store, Ident.store, keep_bind, keep_pure]

include htakes

/-- Parameters are read in the first round and made into fields in the second. -/
theorem builds_parameters :
    Builds (parameters inner') (Parser.parameters inner) storeParams := by
  have hentries := builds_commaList (builds_paramEntry h) .closeParen .parameterEnd
  unfold Builds at hentries ⊢
  unfold parameters Parser.parameters parametersOf
  rw [hentries]
  simp only [reads_alike, read_bind, bind_assoc]
  refine bind_congr fun _ => read_congr fun c entries c' hlist => ?_
  exact builds_resolve (settled_of_commaList htakes hlist)

/-- The next token says which of the three kinds of results there is, to the
builder as to the parser. -/
theorem builds_results :
    Builds (results inner') (Parser.results inner) storeParams := by
  unfold Builds results Parser.results announcedResults
  rw [read_bind, bind_assoc]
  refine bind_congr fun tok => ?_
  have hother : ∀ tok : Tok, (if tok.startsType then bareResult inner' else pure []) =
      (read (if tok.startsType then Parser.bareResult inner else pure [])
        >>= fun fields => keep (storeParams fields)) := by
    intro tok
    rw [read_ite, ite_bind, read_pure, pure_bind, ← builds_bareResult h]
    rfl
  cases tok with
  | none =>
    dsimp only
    rw [read_pure, pure_bind]
    rfl
  | some tok =>
    cases tok with
    | op o =>
      cases o with
      | openParen => exact builds_parameters h htakes
      | _ => exact hother _
    | _ => exact hother _

/-- The lists of parameters and results are linked when both have been read. -/
theorem builds_signature : Builds (signature inner') (Parser.signature inner)
    fun sig => sig.store >>= fun id => pure (id, sig.span) := by
  have hparams := builds_parameters h htakes
  have hresults := builds_results h htakes
  unfold Builds at hparams hresults ⊢
  unfold signature Parser.signature signatureOf
  simp only [hparams, hresults, reads_alike, read_bind, read_pure, bind_assoc,
    pure_bind, keep_read, Signature.store, makeSignature, keep_bind, keep_pure]

/-- The node of a function type refers to that of its signature. -/
theorem builds_funcType :
    Builds (funcType inner') (Parser.funcType inner) TypeExpr.store := by
  refine builds_behindToken (builds_signature h htakes) fun span sig => ?_
  simp only [read_pure, bind_assoc, pure_bind, TypeExpr.store_func, keep_bind,
    keep_pure]

omit htakes

theorem builds_term : Builds (term inner') (Parser.term inner) Term.store := by
  unfold Builds at h ⊢
  subst h
  unfold term Parser.term termOf
  simp only [reads_alike, read_bind, read_pure, bind_assoc, pure_bind, Term.store,
    keep_bind, keep_pure]

/-- A union has its terms as a list. A single type is not wrapped. -/
theorem builds_constraint :
    Builds (constraint inner') (Parser.constraint inner) TypeExpr.store := by
  refine builds_spanned (builds_separatedList (builds_term h) .pipe)
    fun span terms => ?_
  -- only a single term without a tilde is not made into a union
  match terms with
  | [] =>
    simp only [List.mapM_nil, read_pure, pure_bind, keep_pure, TypeExpr.store,
      storeTerms_eq, keep_bind]
  | [⟨false, type⟩] =>
    simp only [List.mapM_cons, List.mapM_nil, Term.store, read_pure, bind_assoc,
      pure_bind, bind_pure, keep_bind, keep_pure]
  | [⟨true, type⟩] =>
    simp only [List.mapM_cons, List.mapM_nil, Term.store, read_pure, bind_assoc,
      pure_bind, keep_bind, keep_pure, TypeExpr.store, storeTerms_eq]
  | ⟨tilde, type⟩ :: second :: more =>
    cases tilde <;>
      simp only [List.mapM_cons, Term.store, read_pure, bind_assoc, pure_bind,
        keep_bind, keep_pure, TypeExpr.store, storeTerms_eq]

/-- A member: names, type and tag in this order, and then the field. -/
theorem builds_structMember :
    Builds (structMember inner') (Parser.structMember inner) Field.storeMember := by
  have hnames : (memberNames : Builder hash _) = _ := builds_memberNames
  have htag : (tag? : Builder hash _) = _ := builds_tag?
  unfold Builds at h ⊢
  subst h
  unfold structMember Parser.structMember structMemberOf
  simp only [hnames, htag, reads_alike, read_bind, read_pure, bind_assoc, pure_bind,
    keep_read, Field.storeMember, keep_bind]

/-- The members of a struct are linked when the closing brace has been read. -/
theorem builds_structType :
    Builds (structType inner') (Parser.structType inner) TypeExpr.store := by
  refine builds_bracedOf (builds_structMember h) fun span fields => ?_
  simp only [read_pure, pure_bind, TypeExpr.store, storeMembers_eq, keep_bind]

/-- What is embedded in an interface is a field without names. -/
theorem builds_embeddedElement :
    Builds (embeddedElement inner') (Parser.embeddedElement inner)
      Field.storeElement := by
  refine builds_spanned (builds_constraint h) fun span type => ?_
  simp only [read_pure, pure_bind, Field.storeElement, List.mapM_nil, makeNames,
    List.isEmpty_nil, if_true, keep_bind, keep_pure]

/-- The names of a group of type parameters are linked after its
constraint has been read.
-/
theorem builds_typeParameter :
    Builds (typeParameter inner') (Parser.typeParameter inner)
      Field.storeElement := by
  have hnames : (identList : Builder hash _) = _ := builds_identList
  have hconstraint := builds_constraint h
  unfold Builds at hconstraint ⊢
  unfold typeParameter Parser.typeParameter typeParameterOf
  simp only [hnames, hconstraint, reads_alike, read_bind, read_pure, bind_assoc,
    pure_bind, keep_read, Field.storeElement, keep_bind]
  refine bind_congr fun start => read_congr fun c names c' hlist => ?_
  simp only [makeNames, isEmpty_identList hlist, Bool.false_eq_true, if_false]

/-- A list of type parameters is not empty, so it is linked as it is. -/
theorem builds_typeParameters :
    Builds (typeParameters inner') (Parser.typeParameters inner) storeTypeParams := by
  have hparams :=
    builds_commaList (builds_typeParameter h) .closeBracket .typeParameterEnd
  unfold Builds at hparams ⊢
  unfold typeParameters Parser.typeParameters typeParametersOf
  simp only [hparams, reads_alike, read_bind, read_pure, read_ite, ite_bind,
    bind_assoc, pure_bind, keep_read, keep_mapM_isEmpty, fail_bind]
  refine bind_congr fun _ => bind_congr fun params => bind_congr fun after => ?_
  cases params with
  | nil => rfl
  | cons param params => simp only [storeTypeParams, keep_bind]

include htakes

/-- A method is a field with one name, and its type is made from the signature,
with the span of the signature. -/
theorem builds_method :
    Builds (method inner') (Parser.method inner) Field.storeElement := by
  have hsig := builds_signature h htakes
  unfold Builds at hsig ⊢
  unfold method Parser.method ident methodOf
  simp only [hsig, reads_alike, read_bind, read_pure, bind_assoc, pure_bind,
    keep_read, Field.storeElement, TypeExpr.store_func,
    List.mapM_cons, List.mapM_nil, makeNames, List.isEmpty_cons, Bool.false_eq_true,
      if_false, List.map_cons, List.map_nil,
    keep_bind, keep_pure]

theorem builds_interfaceElement :
    Builds (interfaceElement inner') (Parser.interfaceElement inner)
      Field.storeElement :=
  builds_announcedElement (builds_method h htakes) (builds_embeddedElement h)

/-- The elements of an interface are linked when the closing brace has been read. -/
theorem builds_interfaceType :
    Builds (interfaceType inner') (Parser.interfaceType inner) TypeExpr.store := by
  refine builds_bracedOf (builds_interfaceElement h htakes) fun span elems => ?_
  simp only [read_pure, pure_bind, TypeExpr.store, storeElements_eq, keep_bind]

/-- **Every form of type is built as it is read**, if the types in it are. -/
theorem builds_typeForm :
    Builds (typeForm inner') (Parser.typeForm inner) TypeExpr.store := by
  unfold Builds typeForm Parser.typeForm announcedForm
  rw [read_bind, bind_assoc]
  refine bind_congr fun tok => ?_
  cases tok with
  | none => rfl
  | some tok =>
    cases tok with
    | ident name => exact builds_namedType h
    | keyword word =>
      cases word with
      | map => exact builds_mapType h
      | chan => exact builds_chanType h
      | func => exact builds_funcType h htakes
      | struct => exact builds_structType h
      | interface => exact builds_interfaceType h htakes
      | _ => rfl
    | op o =>
      cases o with
      | star => exact builds_pointerType h
      | openBracket => exact builds_bracketType h
      | arrow => exact builds_receiveType h
      | openParen => exact builds_parenType h
      | _ => rfl
    | literal | error => rfl

end Forms

/-- The recursion goes as deep on both sides. -/
theorem builds_typeWithin (depth : Nat) :
    Builds (typeWithin depth : Builder hash _) (.typeWithin depth)
      TypeExpr.store := by
  induction depth with
  | zero => rfl
  | succ depth ih => exact builds_typeForm ih (Parser.takes_typeWithin depth)

/-- **Types are built as they are read.** -/
theorem builds_typeExpr :
    Builds (typeExpr : Builder hash _) .typeExpr TypeExpr.store := by
  funext A c
  show typeWithin c.rest.length A c = _
  rw [builds_typeWithin c.rest.length]
  rfl

/-! ## Files -/

/-- Values and bodies have no nodes, and are read as the parser reads them. -/
theorem values?_eq : (values? : Builder hash _) = read values? := by
  unfold values? expressions
  simp only [reads_alike, read_bind, read_ite, read_pure, bind_assoc]

theorem body?_eq : (body? : Builder hash _) = read body? := by
  unfold body? ifNext block
  simp only [reads_alike, read_bind, read_ite, read_pure, bind_assoc]

/-- Semicolons are passed over as by the parser. -/
theorem semicolons_eq : (semicolons : Builder hash _) = read semicolons := by
  have hitems : ∀ bound, (semicolonItems bound : Builder hash _)
      = read (semicolonItems bound) := by
    intro bound
    induction bound with
    | zero => exact (read_pure ()).symm
    | succ bound ih =>
      unfold semicolonItems
      simp only [ih, reads_alike, read_bind, read_ite, read_pure]
  funext A c
  show (semicolonItems (c.rest.length + 1) : Builder hash _) A c = _
  rw [hitems]
  rfl

/-- The dot of an import is stored as a name. -/
theorem builds_importName? :
    Builds (importName? : Builder hash _) .importName? (storeOption Ident.store) := by
  refine builds_ifName (fun span => ?_) rfl
  unfold Builds
  rw [read_pure, pure_bind]

theorem builds_importSpec :
    Builds (importSpec : Builder hash _) .importSpec ImportSpec.store := by
  have hname : (importName? : Builder hash _) = _ := builds_importName?
  unfold Builds importSpec Parser.importSpec stringLit importSpecOf
  simp only [hname, reads_alike, read_bind, read_pure, bind_assoc, pure_bind,
    keep_read, ImportSpec.store, keep_bind, keep_pure]

/-- The type of a value declaration, if there is one. -/
theorem builds_valueType? :
    Builds (valueType? : Builder hash _) .valueType? (storeOption TypeExpr.store) :=
  builds_ifType builds_typeExpr

/-- The check for a missing value comes last and looks at the tokens only, so
what has been kept by then does not matter. -/
theorem builds_valueSpec {missing : Bool → Option Expected} {check : ValueSpec →
    Parser ValueSpec}
    (hcheck : ∀ spec, check spec = match spec.values, missing spec.type.isSome with
      | none, some expected => .unexpected expected
      | _, _ => pure spec) :
    Builds (valueSpec missing : Builder hash _) (Parser.valueSpec >>= check)
      ValueSpec.store := by
  have hnames : (nameList : Builder hash _) = _ := builds_nameList
  have htype : (valueType? : Builder hash _) = _ := builds_valueType?
  unfold Builds valueSpec Parser.valueSpec valueSpecOf
  simp only [hnames, htype, values?_eq, read_bind, bind_assoc, keep_read, pure_bind]
  refine bind_congr fun names => bind_congr fun type => bind_congr fun values => ?_
  rw [hcheck]
  cases hmissing : missing type.isSome <;> cases type <;> cases values <;>
    simp only [Option.isSome_none, Option.isSome_some] at hmissing <;>
    simp only [hmissing, reads_alike, ValueSpec.store, storeOption,
      Option.isSome_none, Option.isSome_some, keep_bind, keep_pure, read_pure,
      bind_assoc, pure_bind, keep_unexpected, unexpected_bind]

/-- Constants: the parser's check says what is missing from the same facts. -/
theorem builds_constSpec (grouped : Bool) :
    Builds (constSpec grouped : Builder hash _) (.constSpec grouped)
      ValueSpec.store := by
  refine builds_valueSpec fun spec => ?_
  obtain ⟨names, type, values⟩ := spec
  cases values <;> cases type <;> cases grouped <;> rfl

theorem builds_varSpec :
    Builds (varSpec : Builder hash _) .varSpec ValueSpec.store := by
  refine builds_valueSpec fun spec => ?_
  obtain ⟨names, type, values⟩ := spec
  cases values <;> cases type <;> rfl

/-- A type declaration without type parameters has the empty list. -/
theorem builds_specTypeParameters :
    Builds (specTypeParameters : Builder hash _)
      .specTypeParameters storeTypeParams := by
  have hparams : (typeParameters typeExpr : Builder hash _) = _ :=
    builds_typeParameters builds_typeExpr
  unfold Builds specTypeParameters Parser.specTypeParameters specTypeParametersOf
  simp only [hparams, reads_alike, read_bind, read_pure, read_ite, ite_bind,
    bind_assoc, pure_bind, storeTypeParams, keep_pure]

/-- A type declaration: name, type parameters and type in this order. -/
theorem builds_typeSpec :
    Builds (typeSpec : Builder hash _) .typeSpec TypeSpec.store := by
  have hparams : (specTypeParameters : Builder hash _) = _ :=
    builds_specTypeParameters
  have htype : (typeExpr : Builder hash _) = _ := builds_typeExpr
  unfold Builds typeSpec Parser.typeSpec ident typeSpecOf
  simp only [hparams, htype, reads_alike, read_bind, read_pure, bind_assoc, pure_bind,
    keep_read, TypeSpec.store, keep_bind, keep_pure]

section Groups

variable {σ : Type} {s : σ → Store hash SpecNode}

theorem builds_groupedSpec {spec' : Builder hash SpecNode} {spec : Parser σ}
    (h : Builds spec' spec s) : Builds (groupedSpec spec') (groupedSpec spec) s := by
  unfold Builds groupedSpec
  rw [read_bind, bind_assoc]
  refine bind_congr fun tok => ?_
  cases tok with
  | none => rfl
  | some tok => exact h

/-- The specs of a group are linked when it is closed. One without parentheses
is a list of one. -/
theorem builds_group (kind : GroupKind) {spec' : Bool → Builder hash SpecNode}
    {spec : Bool → Parser σ} (h : ∀ grouped, Builds (spec' grouped) (spec grouped) s) :
    Builds (group kind spec') (Parser.group spec) (Group.store kind s) := by
  have hspecs := builds_memberList (builds_groupedSpec (h true)) .closeParen .specEnd
  have honly := h false
  unfold Builds at hspecs honly ⊢
  unfold group Parser.group groupOf
  simp only [hspecs, honly, reads_alike, read_bind, read_pure, read_ite, ite_bind,
    bind_assoc, pure_bind, keep_read, Group.store,
    List.mapM_cons, List.mapM_nil, List.map_cons, List.map_nil, keep_bind, keep_pure]

end Groups

/-- Of the fields of a receiver only one is left, and any other number is an
error at the same span. -/
theorem builds_receiver :
    Builds (receiver : Builder hash _) .receiver Field.storeReceiver := by
  have hparams : (parameters typeExpr : Builder hash _) = _ :=
    builds_parameters builds_typeExpr Parser.takes_typeExpr
  unfold Builds receiver Parser.receiver onlyReceiver
  simp only [hparams, read_bind, bind_assoc]
  refine bind_congr fun span => bind_congr fun fields => ?_
  unfold storeParams
  match fields with
  | [] => rfl
  | [only] =>
    simp only [List.mapM_cons, List.mapM_nil, bind_assoc, pure_bind, keep_bind,
      keep_pure, read_pure, Field.storeReceiver, bind_pure]
  | first :: second :: more =>
    simp only [reads_alike, List.mapM_cons, bind_assoc, pure_bind, keep_bind,
      keep_pure, fail_bind, keep_fail]

theorem builds_receiver? :
    Builds (receiver? : Builder hash _) .receiver?
      (storeOption Field.storeReceiver) :=
  builds_ifNext _ builds_receiver

theorem builds_funcTypeParameters :
    Builds (funcTypeParameters : Builder hash _)
      .funcTypeParameters storeTypeParams := by
  have hparams : (typeParameters typeExpr : Builder hash _) = _ :=
    builds_typeParameters builds_typeExpr
  unfold Builds funcTypeParameters Parser.funcTypeParameters funcTypeParametersOf
  simp only [hparams, reads_alike, read_bind, read_pure, read_ite, ite_bind,
    bind_assoc, pure_bind, storeTypeParams, keep_pure]

/-- A function: receiver, name, type parameters and signature in this order. The
body has no nodes. -/
theorem builds_funcDecl :
    Builds (funcDecl : Builder hash _) .funcDecl FuncDecl.store := by
  have hreceiver : (receiver? : Builder hash _) = _ := builds_receiver?
  have hparams : (funcTypeParameters : Builder hash _) = _ :=
    builds_funcTypeParameters
  have hsig : (signature typeExpr : Builder hash _) = _ :=
    builds_signature builds_typeExpr Parser.takes_typeExpr
  unfold Builds funcDecl Parser.funcDecl ident funcDeclOf
  simp only [hreceiver, hparams, hsig, body?_eq, reads_alike, read_bind, read_pure,
    bind_assoc, pure_bind, keep_read, FuncDecl.store, keep_bind, keep_pure]

/-- The keyword says which kind of declaration there is, to the builder as
to the parser. -/
theorem builds_decl : Builds (decl : Builder hash _) .decl Decl.store := by
  unfold Builds decl Parser.decl announcedDecl
  rw [read_bind, bind_assoc]
  refine bind_congr fun tok => ?_
  have himports : (group .imports fun _ => importSpec : Builder hash _) = _ :=
    builds_group .imports fun _ => builds_importSpec
  have hconsts : (group .consts constSpec : Builder hash _) = _ :=
    builds_group .consts builds_constSpec
  have hvars : (group .vars fun _ => varSpec : Builder hash _) = _ :=
    builds_group .vars fun _ => builds_varSpec
  have htypes : (group .types fun _ => typeSpec : Builder hash _) = _ :=
    builds_group .types fun _ => builds_typeSpec
  have hfunc : (funcDecl : Builder hash _) = _ := builds_funcDecl
  cases tok with
  | none => rfl
  | some tok =>
    cases tok with
    | keyword word =>
      cases word with
      | «import» =>
        simp only [himports, read_bind, read_pure, bind_assoc, pure_bind, Decl.store]
      | const =>
        simp only [hconsts, read_bind, read_pure, bind_assoc, pure_bind, Decl.store]
      | var =>
        simp only [hvars, read_bind, read_pure, bind_assoc, pure_bind, Decl.store]
      | type =>
        simp only [htypes, read_bind, read_pure, bind_assoc, pure_bind, Decl.store]
      | func =>
        simp only [hfunc, read_bind, read_pure, bind_assoc, pure_bind, Decl.store]
      | _ => rfl
    | _ => rfl

/-- Declarations are put into the arena in order, after all of them
have been read. -/
theorem builds_declList {item' : Builder hash β} {item : Parser α}
    {s : α → Store hash β} (h : Builds item' item s) :
    Builds (declList item') (declList item) (·.mapM s) := by
  refine builds_bounded fun bound => ?_
  unfold Builds at h ⊢
  subst h
  induction bound with
  | zero => rfl
  | succ bound ih =>
    unfold declItems
    simp only [semicolons_eq, reads_alike, read_bind, bind_assoc]
    refine bind_congr fun _ => bind_congr fun tok => ?_
    cases tok with
    | none => rfl
    | some tok =>
      simp only [ih, read_bind, read_pure, bind_assoc, pure_bind, keep_read,
        List.mapM_cons, keep_bind, keep_pure]

/-- **A file is built as it is read.** -/
theorem builds_file : Builds (file : Builder hash _) .file SourceFile.store := by
  have hdecls : (declList decl : Builder hash _) = _ := builds_declList builds_decl
  unfold Builds file Parser.file TokenReader.file ident fileOf
  simp only [hdecls, semicolons_eq, reads_alike, read_bind, read_pure, bind_assoc,
    pure_bind, keep_read, SourceFile.store, keep_bind, keep_pure]

end Builder

/-- **Reading a source into an arena is parsing it, and putting the file
into the arena.** -/
theorem buildSource_eq (hash : String → UInt64) (source : String) :
    buildSource hash source
      = (parseSource source).map fun file => file.store .empty := by
  have hfile : ∀ c, (Builder.file : Builder hash _) .empty c
      = (Parser.file c).map fun r => (r.1.store .empty, r.2) := by
    intro c
    rw [Builder.builds_file]
    show ((Parser.file >>= fun a => pure (a, Arena.empty))
      >>= fun r => Builder.keep (SourceFile.store r.1) r.2) c = _
    rw [bind_assoc, Parser.bind_apply]
    cases Parser.file c <;> rfl
  unfold buildSource parseSource parseTokens
  dsimp only
  rw [hfile]
  split
  · cases Parser.file _ <;> rfl
  · rfl

end GoInventory
