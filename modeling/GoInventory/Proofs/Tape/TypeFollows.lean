import GoInventory.Proofs.Syntax.Brackets
import GoInventory.Proofs.Tape.Follows

/-!
# Types are read to their end

What bounds the readers of types is that every form takes a token before it asks
for a type (`follows_typeWithin`).

The search for the end of an array length counts brackets of all kinds alike and
starts one token back, at a bracket that has just been taken: so the count is at
one when the position is reached, and the bracket that is found does not lie
before it (`Tape.matchingClose_opening`).
-/

namespace GoInventory

/-! ## Looking ahead -/

namespace Tape

variable {t : Tape} {u : Token}

/-- The count of the search is one ahead of the number of brackets that are to
be closed before its end. -/
theorem closeFrom_succ (tokens : List Token) :
    ∀ i depth, closeFrom i (depth + 1) tokens
      = (enclosed? depth tokens).map fun r => i + r.1.length := by
  induction tokens with
  | nil => exact fun _ _ => rfl
  | cons u rest ih =>
    intro i depth
    have hstep : ∀ inner, ((enclosed? inner rest).map fun r => (u :: r.1, r.2)).map
      (fun r => i + r.1.length)
        = closeFrom (i + 1) (inner + 1) rest := by
      intro inner
      rw [ih, Option.map_map]
      congr 1
      funext r
      show i + (r.1.length + 1) = i + 1 + r.1.length
      omega
    unfold closeFrom
    rcases u.tok.bracket_cases with ho | ⟨ho, hc⟩ | ⟨ho, hc⟩
    · rw [if_pos ho, enclosed?_opening ho, hstep]
    · rw [if_neg (by rw [ho]; exact Bool.false_ne_true), if_pos hc]
      cases depth with
      | zero => rw [enclosed?_closing_zero hc]; rfl
      | succ outer => rw [enclosed?_closing_succ hc, hstep]
    · rw [if_neg (by rw [ho]; exact Bool.false_ne_true),
        if_neg (by rw [hc]; exact Bool.false_ne_true), enclosed?_plain ho hc, hstep]

/-- From an opening bracket on, the search ends behind what that
bracket encloses. -/
theorem matchingClose_opening {i : Nat} (hu : t.tokens[i]? = some u)
    (ho : u.tok.isOpening = true) :
    t.matchingClose i = (enclosed? 0 (t.tokens.toList.drop (i + 1))).map
      fun r => i + 1 + r.1.length := by
  obtain ⟨hlt, hu⟩ := Array.getElem?_eq_some_iff.mp hu
  unfold matchingClose
  rw [List.drop_eq_getElem_cons (by rwa [Array.length_toList]), Array.getElem_toList,
    hu, closeFrom, if_pos ho, closeFrom_succ]

/-- Both searches start behind the same opening bracket, and look at the token
behind the same closing one. -/
theorem cursor_bracketsStartType (h : t.peek? 1 = some (.op .openBracket)) :
    t.cursor.bracketsStartType = t.bracketsStartType := by
  obtain ⟨u, hu, htok⟩ := Option.map_eq_some_iff.mp h
  have hdrop : t.cursor.rest.drop 2 = t.tokens.toList.drop (t.pos + 2) :=
    List.drop_drop
  unfold Cursor.bracketsStartType bracketsStartType
  rw [t.cursor_peek?, matchingClose_opening hu (by rw [htok]; rfl), hdrop]
  cases henclosed : enclosed? 0 (t.tokens.toList.drop (t.pos + 2)) with
  | none => rfl
  | some r =>
    obtain ⟨run, rest⟩ := r
    obtain ⟨hsplit, -, close, more, rfl, -⟩ := enclosed?_eq_some henclosed
    have hnext : t.tokens[t.pos + 2 + run.length + 1]? = more[0]? := by
      have hget : (t.tokens.toList.drop (t.pos + 2))[run.length + 1]? = more[0]? := by
        rw [hsplit, List.getElem?_append_right (by omega), Nat.add_sub_cancel_left]
        rfl
      rw [List.getElem?_drop, Array.getElem?_toList, ← Nat.add_assoc] at hget
      exact hget
    dsimp only [Option.map_some]
    rw [hnext]
    cases more with
    | nil => rfl
    | cons next _ => rfl

/-- An opening bracket matters only behind a name, and there both searches
say the same. -/
theorem cursor_entryShape (t : Tape) : t.cursor.entryShape = t.entryShape := by
  unfold Cursor.entryShape entryShape
  rw [t.cursor_peek?, t.cursor_peek?]
  exact EntryShape.ofTokens_congr t.cursor_bracketsStartType

theorem cursor_isEmbedded? (t : Tape) : t.cursor.isEmbedded? = t.isEmbedded? := by
  unfold Cursor.isEmbedded? isEmbedded?
  rw [t.cursor_peek?, t.cursor_peek?]
  exact embeds?_congr t.cursor_bracketsStartType

theorem cursor_atMethod (t : Tape) : t.cursor.atMethod = t.atMethod := by
  unfold Cursor.atMethod atMethod
  rw [t.cursor_peek?, t.cursor_peek?]

/-- Type parameters are told from a length by the same tokens. -/
theorem cursor_atTypeParameters (t : Tape) :
    t.cursor.atTypeParameters = t.atTypeParameters := by
  unfold Cursor.atTypeParameters Cursor.bracketsDeclareTypes atTypeParameters
  rw [t.cursor_peek?, t.cursor_peek?, t.cursor_peek?, t.cursor_peek?]

end Tape

namespace TapeReader

open TokenReader
open OnTape (advanceTo slice lastOf)

/-- Going on to a position takes as many rounds as there are tokens before it. -/
theorem advanceTo_forward {run rest : List Token} {rounds : Nat} :
    ∀ {t : Tape} {n : Nat}, t.cursor.rest = run ++ rest →
    run.length < n →
    advanceTo (t.pos + run.length) n rounds t = .ok ((), t.forward run) := by
  induction run with
  | nil =>
    intro t n _ hn
    obtain ⟨n, rfl⟩ := Nat.exists_eq_add_of_le' (Nat.zero_lt_of_lt hn)
    rw [advanceTo, bind_ok rfl, if_neg (by simp)]
    rfl
  | cons u run ih =>
    intro t n h hn
    rw [List.length_cons] at hn
    obtain ⟨n, rfl⟩ := Nat.exists_eq_add_of_le' (Nat.zero_lt_of_lt hn)
    have hu := Tape.get_of_cursor h
    have hpos : t.pos + (u :: run).length = (t.after u).pos + run.length := by
      show t.pos + (run.length + 1) = t.pos + 1 + run.length
      omega
    rw [advanceTo, bind_ok rfl, if_pos (by simp), bind_ok (advance_of_some hu), hpos,
      ih (Tape.cursor_after h) (by omega), Tape.forward_cons]

/-- **A slice of tokens that are ahead is in range.** -/
theorem slice_forward {run rest : List Token} {rounds : Nat} {t : Tape}
    (h : t.cursor.rest = run ++ rest) (hin : t.InRange) :
    slice t.pos (t.pos + run.length) rounds t = .ok (run, t) := by
  have hrange : t.pos ≤ t.pos + run.length ∧ t.pos + run.length ≤ t.tokens.size :=
    ⟨Nat.le_add_right _ _, Tape.size_of_cursor h hin⟩
  have hrun : (t.tokens.extract t.pos (t.pos + run.length)).toList = run := by
    rw [Array.toList_extract]
    show t.cursor.rest.take (t.pos + run.length - t.pos) = run
    rw [Nat.add_sub_cancel_left, h, List.take_left]
  unfold slice
  rw [if_pos hrange, hrun]

/-- A slice that is not empty has a last token. -/
theorem lastOf_ok {run : List Token} (hne : run ≠ []) (rounds : Nat) (t : Tape) :
    lastOf run rounds t = .ok (run.getLast hne, t) := by
  unfold lastOf
  rw [← List.getLast?_eq_getElem?, List.getLast?_eq_some_getLast hne]
  rfl

/-- **The slice of an array length is in range**, behind an opening bracket. -/
theorem followsAt_arrayLength {t : Tape} {before : Token} {rounds : Nat}
    (hbefore : t.tokens[t.pos - 1]? = some before)
    (hopening : before.tok.isOpening = true) (hpos : 0 < t.pos) :
    FollowsAt rounds t 0 arrayLength arrayLength := by
  intro hrounds hin
  have hclose : t.matchingClose (t.pos - 1)
      = (enclosed? 0 t.cursor.rest).map fun r => t.pos + r.1.length := by
    rw [Tape.matchingClose_opening hbefore hopening, Nat.sub_add_cancel hpos]
    rfl
  show Ends t 0 (OnTape.arrayLength rounds t) (AtCursor.arrayLength t.cursor)
  unfold OnTape.arrayLength AtCursor.arrayLength
  rw [bind_ok rfl]
  dsimp only [id]
  rw [hclose]
  cases henclosed : enclosed? 0 t.cursor.rest with
  | none =>
    exact follows_unexpected .closeBracket rounds t (Nat.le_refl _) hrounds hin
  | some r =>
    obtain ⟨run, rest⟩ := r
    obtain ⟨hsplit, -⟩ := enclosed?_eq_some henclosed
    have hlength := t.length_cursor
    rw [hsplit, List.length_append] at hlength
    dsimp only [Option.map_some]
    rw [bind_ok (slice_forward hsplit hin)]
    cases run with
    | nil =>
      exact follows_unexpected .arrayLength rounds t (Nat.le_refl _) hrounds hin
    | cons first more =>
      have hne := List.cons_ne_nil first more
      dsimp only
      have hadvance :
        OnTape.bounded (advanceTo (t.pos + (first :: more).length)) rounds t
          = .ok ((), t.forward (first :: more)) := advanceTo_forward hsplit (by omega)
      rw [bind_ok (lastOf_ok hne rounds t), bind_ok hadvance]
      have hend := ends_forward
        (LengthExpr.ofTokens (.clamp first.start ((first :: more).getLast hne).stop)
        (first :: more)) hsplit hin (Nat.zero_le _)
      rw [List.getLast?_eq_some_getLast hne] at hend
      exact hend

/-! ## Parts of types -/

/-- A name takes at least one token. -/
theorem follows_typeName {k : Nat} : Follows k 1 typeName typeName := by
  refine follows_here.bind fun start => ?_
  refine follows_ident.bind_then fun first => ?_
  refine follows_eat (fun _ _ => ?_) (follows_pure _)
  refine follows_ident.any.bind fun name => ?_
  exact follows_spanned start _

/-- A tag takes a token, but may be missing. -/
theorem follows_tag? {k : Nat} : Follows k 0 tag? tag? := by
  refine (follows_peek? 0).bind fun next => ?_
  cases next with
  | none => exact follows_pure none
  | some tok =>
    refine .ite (fun _ => ?_) fun _ => follows_pure none
    exact follows_stringLit.any.bind fun lit => follows_pure _

section Forms

variable {k : Nat} {inner : TapeReader TypeExpr} {inner' : Parser TypeExpr}
  (hinner : Follows k 1 inner inner')

/-- An embedded member has no names, so this may take no token. -/
theorem follows_memberNames {k : Nat} : Follows k 0 memberNames memberNames := by
  refine (follows_ask Tape.cursor_isEmbedded?).bind fun embedded => ?_
  cases embedded with
  | none => exact follows_unexpected .structMember
  | some b =>
    cases b with
    | true => exact follows_pure []
    | false => exact follows_identList.any

include hinner

theorem follows_paramType : Follows k 1 (paramType inner) (paramType inner') := by
  refine follows_here.bind fun start => ?_
  refine follows_eat (fun j hj => ?_) hinner
  refine (hinner.mono (by omega) (Nat.zero_le 1)).bind fun elem => ?_
  exact follows_spanned start _

/-- **An entry of a list takes a token**, whatever its shape, so the list
comes to an end.
-/
theorem follows_paramEntry : Follows k 1 (paramEntry inner) (paramEntry inner') := by
  refine (follows_ask Tape.cursor_entryShape).bind fun shape => ?_
  have htype := follows_paramType hinner
  cases shape with
  | bare => exact follows_ident.bind_then fun name => follows_pure _
  | typed =>
    refine follows_here.bind fun start => ?_
    refine follows_ident.bind_then fun name => ?_
    refine htype.any.bind fun type => ?_
    exact follows_spanned start _
  | unnamed =>
    refine follows_here.bind fun start => ?_
    refine htype.bind_then fun type => ?_
    exact follows_spanned start _

theorem follows_term : Follows k 1 (term inner) (term inner') := by
  refine (follows_eaten _).bind fun tilde => ?_
  exact hinner.bind_then fun type => follows_pure _

theorem follows_bareResult : Follows k 0 (bareResult inner) (bareResult inner') := by
  refine follows_here.bind fun start => ?_
  refine hinner.any.bind fun type => ?_
  exact follows_spanned start _

/-- A member takes the tokens of its type, if not its names. -/
theorem follows_structMember :
    Follows k 1 (structMember inner) (structMember inner') := by
  refine follows_here.bind fun start => ?_
  refine follows_memberNames.bind fun names => ?_
  refine hinner.bind_then fun type => ?_
  refine follows_tag?.bind fun tag => ?_
  exact follows_spanned start _

/-- A constraint takes the tokens of its first term. -/
theorem follows_constraint : Follows k 1 (constraint inner) (constraint inner') := by
  refine follows_here.bind fun start => ?_
  refine (follows_separatedList (follows_term hinner)).bind_then fun terms => ?_
  refine (follows_since start).bind fun span => ?_
  rcases terms with _ | ⟨⟨tilde, type⟩, more⟩
  · exact follows_pure _
  · cases tilde with
    | true => exact follows_pure _
    | false => cases more <;> exact follows_pure _

theorem follows_parameters : Follows k 0 (parameters inner) (parameters inner') := by
  refine (follows_expect _ _).any.bind fun _ => ?_
  exact (follows_commaList (follows_paramEntry hinner)).any.bind
    fun entries => follows_ofExcept _

/-- Results may be missing. -/
theorem follows_results : Follows k 0 (results inner) (results inner') := by
  have hother : ∀ tok : Tok,
    Follows k 0 (if tok.startsType then bareResult inner else pure [])
      (if tok.startsType then bareResult inner' else pure []) := fun tok =>
    .ite (fun _ => follows_bareResult hinner) fun _ => follows_pure []
  refine (follows_peek? 0).bind fun next => ?_
  cases next with
  | none => exact follows_pure []
  | some tok =>
    cases tok with
    | op o =>
      cases o with
      | openParen => exact follows_parameters hinner
      | _ => exact hother _
    | _ => exact hother _

theorem follows_signature : Follows k 0 (signature inner) (signature inner') := by
  refine follows_here.bind fun start => ?_
  refine (follows_parameters hinner).bind fun params => ?_
  refine (follows_results hinner).bind fun results => ?_
  exact follows_spanned start _

/-- An element takes the name of a method or the tokens of a constraint. -/
theorem follows_interfaceElement :
    Follows k 1 (interfaceElement inner) (interfaceElement inner') := by
  refine (follows_ask Tape.cursor_atMethod).bind fun atMethod => ?_
  refine .ite (fun _ => ?_) fun _ => ?_
  · refine follows_here.bind fun start => ?_
    refine follows_ident.bind_then fun name => ?_
    refine (follows_signature hinner).bind fun sig => ?_
    exact follows_spanned start _
  · refine follows_here.bind fun start => ?_
    refine (follows_constraint hinner).bind_then fun type => ?_
    exact follows_spanned start _

theorem follows_typeParameter :
    Follows k 1 (typeParameter inner) (typeParameter inner') := by
  refine follows_here.bind fun start => ?_
  refine follows_identList.bind_then fun names => ?_
  refine (follows_constraint hinner).any.bind fun type => ?_
  exact follows_spanned start _

/-- Type parameters take at least the bracket that closes them. -/
theorem follows_typeParameters :
    Follows k 1 (typeParameters inner) (typeParameters inner') := by
  refine follows_advance.bind fun _ => ?_
  refine (follows_commaList (follows_typeParameter hinner)).bind_then fun params => ?_
  refine follows_here.bind fun after => ?_
  exact .ite (fun _ => follows_fail after _) fun _ => follows_pure _

/-! ## Forms of types

Here the tokens left are one more than the readers inside a form can rely on. -/

omit hinner in
/-- Type arguments are asked for when the name has been taken. -/
theorem follows_namedType (hinner : Follows k 1 inner inner') :
    Follows (k + 1) 1 (namedType inner) (namedType inner') := by
  refine follows_here.bind fun start => ?_
  refine follows_typeName.bind_taken fun j base hj => ?_
  refine follows_eat (fun j' hj' => ?_) (follows_pure _)
  refine ((follows_commaList hinner).mono (by omega) (Nat.zero_le 1)).bind
    fun args => ?_
  refine (follows_since start).bind fun span => ?_
  exact .ite (fun _ => follows_fail span _) fun _ => follows_pure _

variable {rounds : Nat} {t : Tape} {u : Token} (hu : t.tokens[t.pos]? = some u)
  (hk : t.left ≤ k + 1)

include hu hk hinner

theorem followsAt_pointerType :
    FollowsAt rounds t 1 (pointerType inner) (pointerType inner') := by
  refine followsAt_opened hu hk fun start => ?_
  refine hinner.any.bind fun elem => ?_
  exact follows_spanned start _

theorem followsAt_parenType :
    FollowsAt rounds t 1 (parenType inner) (parenType inner') := by
  refine followsAt_opened hu hk fun start => ?_
  refine hinner.any.bind fun elem => ?_
  refine (follows_expect _ _).any.bind fun _ => ?_
  exact follows_spanned start _

/-- The key and the value of a map stand behind its keyword. -/
theorem followsAt_mapType :
    FollowsAt rounds t 1 (mapType inner) (mapType inner') := by
  refine followsAt_opened hu hk fun start => ?_
  refine (follows_expect _ _).any.bind fun _ => ?_
  refine hinner.any.bind fun key => ?_
  refine (follows_expect _ _).any.bind fun _ => ?_
  refine hinner.any.bind fun value => ?_
  exact follows_spanned start _

theorem followsAt_chanType :
    FollowsAt rounds t 1 (chanType inner) (chanType inner') := by
  refine followsAt_opened hu hk fun start => ?_
  refine (follows_eaten _).bind fun sends => ?_
  refine hinner.any.bind fun elem => ?_
  exact follows_spanned start _

theorem followsAt_receiveType :
    FollowsAt rounds t 1 (receiveType inner) (receiveType inner') := by
  refine followsAt_opened hu hk fun start => ?_
  refine (follows_expect _ _).any.bind fun _ => ?_
  refine hinner.any.bind fun elem => ?_
  exact follows_spanned start _

/-- The signature of a function type stands behind its keyword. -/
theorem followsAt_funcType :
    FollowsAt rounds t 1 (funcType inner) (funcType inner') := by
  refine followsAt_opened hu hk fun start => ?_
  refine (follows_signature hinner).bind fun sig => ?_
  exact follows_spanned start _

/-- The members of a struct stand behind its keyword. -/
theorem followsAt_structType :
    FollowsAt rounds t 1 (structType inner) (structType inner') := by
  refine followsAt_opened hu hk fun start => ?_
  refine (follows_expect _ _).any.bind fun _ => ?_
  refine (follows_memberList (follows_structMember hinner)).any.bind fun fields => ?_
  exact follows_spanned start _

theorem followsAt_interfaceType :
    FollowsAt rounds t 1 (interfaceType inner) (interfaceType inner') := by
  refine followsAt_opened hu hk fun start => ?_
  refine (follows_expect _ _).any.bind fun _ => ?_
  refine (follows_memberList (follows_interfaceElement hinner)).any.bind
    fun elems => ?_
  exact follows_spanned start _

/-- An array length is looked for right behind the bracket that has been taken. -/
theorem followsAt_bracketType (htok : u.tok.isOpening = true) :
    FollowsAt rounds t 1 (bracketType inner) (bracketType inner') := by
  have hleft : (t.after u).left ≤ k := by
    rw [Tape.left_after hu] at hk
    omega
  have hlength : FollowsAt rounds (t.after u) 0 arrayBound arrayBound := by
    refine followsAt_eat (fun v _ _ => follows_pure _ _ _ (Nat.le_refl _)) ?_
    have hend : FollowsAt rounds (t.after u) 0 arrayLength arrayLength :=
      followsAt_arrayLength hu htok (Nat.succ_pos _)
    exact hend.bind_follows hleft fun length => follows_pure _
  refine followsAt_ask t.cursor_here ?_
  refine (followsAt_advance hu).bind fun _ t' hread _ _ => ?_
  cases (advance_of_some hu).symm.trans hread
  refine followsAt_eat (fun v hv _ => ?_) ?_
  · have hrest :
      Follows k 0 (inner >>= fun elem => since t.here >>= fun span =>
      pure (TypeExpr.slice span elem))
        (inner' >>= fun elem => since t.here >>= fun span =>
          pure (TypeExpr.slice span elem)) :=
      hinner.any.bind fun elem => follows_spanned t.here _
    refine hrest _ _ ?_
    rw [Tape.left_after hv] at hleft
    omega
  · refine hlength.bind_follows hleft fun length => ?_
    refine (follows_expect _ _).any.bind fun _ => ?_
    refine hinner.any.bind fun elem => ?_
    exact follows_spanned t.here _

end Forms

/-! ## Types -/

/-- **Types are read to their end.** The induction is on the number of tokens
left: every form takes a token before it asks for the types inside it, and needs
one round more than they do. -/
theorem follows_typeWithin (k : Nat) :
    ∀ n, k < n → Follows k 1 (typeWithin n) (typeWithin k) := by
  induction k with
  | zero =>
    intro n hn rounds t hk hrounds hin
    obtain ⟨n, rfl⟩ := Nat.exists_eq_add_of_le' hn
    have hnone : t.tokens[t.pos]? = none := by
      refine Array.getElem?_eq_none ?_
      unfold Tape.left at hk
      omega
    have hstop : (typeWithin (n + 1) : TapeReader TypeExpr) rounds t
        = (unexpected .type : TapeReader TypeExpr) rounds t :=
      bind_ok (peek?_of_none hnone)
    show Ends t 1 ((typeWithin (n + 1) : TapeReader TypeExpr) rounds t)
      ((unexpected .type : Parser TypeExpr) t.cursor)
    rw [hstop]
    exact follows_unexpected .type rounds t hk hrounds hin
  | succ k ih =>
    intro n hn rounds t hk
    obtain ⟨n, rfl⟩ := Nat.exists_eq_add_of_le' (Nat.zero_lt_of_lt hn)
    have hinner := ih n (Nat.lt_of_succ_lt_succ hn)
    rw [typeWithin, typeWithin]
    refine followsAt_ask (t.cursor_peek? 0) ?_
    unfold Tape.peek?
    cases hu : t.tokens[t.pos]? with
    | none => exact follows_unexpected .type rounds t hk
    | some u =>
      obtain ⟨start, tok, stop⟩ := u
      cases tok with
      | ident name => exact follows_namedType hinner rounds t hk
      | keyword word =>
        cases word with
        | map => exact followsAt_mapType hinner hu hk
        | chan => exact followsAt_chanType hinner hu hk
        | func => exact followsAt_funcType hinner hu hk
        | struct => exact followsAt_structType hinner hu hk
        | interface => exact followsAt_interfaceType hinner hu hk
        | _ => exact follows_unexpected .type rounds t hk
      | op o =>
        cases o with
        | star => exact followsAt_pointerType hinner hu hk
        | openBracket => exact followsAt_bracketType hinner hu hk rfl
        | arrow => exact followsAt_receiveType hinner hu hk
        | openParen => exact followsAt_parenType hinner hu hk
        | _ => exact follows_unexpected .type rounds t hk
      | _ => exact follows_unexpected .type rounds t hk

/-- A type is read within as many rounds as there are tokens left, and one more. -/
theorem follows_typeExpr {k : Nat} : Follows k 1 typeExpr typeExpr := by
  intro rounds t hk hrounds hin
  show Ends t 1 ((typeWithin rounds : TapeReader TypeExpr) rounds t)
    ((typeWithin t.cursor.rest.length : Parser TypeExpr) t.cursor)
  rw [t.length_cursor]
  exact follows_typeWithin t.left rounds hrounds rounds t (Nat.le_refl _) hrounds hin

end TapeReader

end GoInventory
